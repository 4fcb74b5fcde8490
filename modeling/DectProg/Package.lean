-- The packets of busmail.h, and the loop that the three package handlers
-- share: put the read into the ring buffer, then take packets out of it and
-- dispatch them until the packet function gives none.
import DectProg.BufferQueue
import DectProg.Framing
import Mathlib.Data.List.Basic

open tape framing dect_prog.buffer

namespace dect_prog.package

def PACKET_SIZE : Nat := 500

/-- A packet. Bytes of `data` from `size` on are left over from earlier packets, or were
never written. -/
structure packet_t where
  size : Nat
  data : List UInt8
  data_length : data.length = PACKET_SIZE

/-- A packet of zeros. -/
def blank : packet_t := ⟨0, List.replicate PACKET_SIZE 0, List.length_replicate⟩

/-- The byte at a place of `data`; the code reads at places below `PACKET_SIZE` only. -/
def packet_t.byte (p : packet_t) (i : Nat) : UInt8 := p.data.getD i 0

/-- The first `size` bytes. -/
def packet_t.payload (p : packet_t) : List UInt8 := p.data.take p.size

/-- `memcpy(p->data, buf + off, size); p->size = size;` -/
def packet_t.fill (p : packet_t) (buf : List UInt8) (off size : Int) : Option packet_t :=
  match h : memcpy p.data 0 buf off size with
  | some data => some ⟨size.toNat, data, (memcpy_length h).trans p.data_length⟩
  | none => none

/-- The packet with a new payload over the bytes that were there. -/
def packet_t.carry (p : packet_t) (payload : List UInt8) (h : payload.length ≤ PACKET_SIZE) :
    packet_t :=
  ⟨payload.length, payload ++ p.data.drop payload.length, by
    rw [List.length_append, List.length_drop, p.data_length]; omega⟩

@[simp] theorem carry_size (p : packet_t) (q : List UInt8) (h : q.length ≤ PACKET_SIZE) :
    (p.carry q h).size = q.length := rfl

@[simp] theorem carry_payload (p : packet_t) (q : List UInt8) (h : q.length ≤ PACKET_SIZE) :
    (p.carry q h).payload = q := by
  simp [packet_t.payload, packet_t.carry]

theorem carry_byte (p : packet_t) (q : List UInt8) (h : q.length ≤ PACKET_SIZE) {i : Nat}
    (hi : i < q.length) : (p.carry q h).byte i = q[i] := by
  simp [packet_t.byte, packet_t.carry, List.getElem?_append_left hi, List.getElem?_eq_getElem hi]

theorem carry_getD (p : packet_t) (q : List UInt8) (h : q.length ≤ PACKET_SIZE) {i : Nat}
    (hi : i < q.length) : (p.carry q h).byte i = q.getD i 0 := by
  rw [carry_byte p q h hi]
  simp [hi]

/-- Behind the payload are the bytes that were there. -/
theorem carry_byte_stale (p : packet_t) (q : List UInt8) (h : q.length ≤ PACKET_SIZE) {i : Nat}
    (hi : q.length ≤ i) : (p.carry q h).byte i = p.byte i := by
  have hplace : q.length + (i - q.length) = i := by omega
  simp [packet_t.byte, packet_t.carry, List.getElem?_append_right hi, List.getElem?_drop, hplace]

theorem fill.spec (p : packet_t) (buf : List UInt8) (off n : Nat) (hn : n ≤ PACKET_SIZE)
    (hoff : off + n ≤ buf.length) :
    p.fill buf off n = some (p.carry ((buf.drop off).take n)
      (Nat.le_trans (List.length_take_le _ _) hn)) := by
  have hcopy := memcpy_eq p.data buf 0 off n (by rw [p.data_length]; omega) hoff
  have hcopy' : memcpy p.data 0 buf off n = _ := hcopy
  have hlen : ((buf.drop off).take n).length = n := by
    rw [List.length_take, List.length_drop]
    omega
  unfold packet_t.fill
  split
  · rename_i data h
    rw [hcopy'] at h
    cases h
    simp [packet_t.carry, overwrite, hlen]
  · rename_i h
    rw [hcopy'] at h
    cases h

/-- A payload that is too long leaves the array `data`. -/
theorem fill_too_long (p : packet_t) (buf : List UInt8) (off : Int) (n : Nat)
    (hn : PACKET_SIZE < n) : p.fill buf off n = none := by
  unfold packet_t.fill
  split
  · rename_i data h
    unfold memcpy at h
    rw [p.data_length] at h
    rw [if_neg (by omega)] at h
    cases h
  · rfl

/-! ## What the packet functions share -/

/-- The byte at a place of an array. -/
def load (mem : List UInt8) (i : Int) : Option UInt8 := if 0 ≤ i then mem[i.toNat]? else none

/-- `while (buffer_read(b, buf, 1) > 0)`, up to a header byte. The number counts the bytes that
were read. -/
def findHeader (header : UInt8) :
    Nat → List UInt8 → buffer_t → Option (buffer_t × List UInt8 × Nat)
  | 0, _, _ => none
  | fuel + 1, buf, b => do
    let (b, buf, n) ← buffer_read b buf 0 1
    if n > 0 then
      if (← load buf 0) = header then some (b, buf, 1)
      else
        let (b, buf, read) ← findHeader header fuel buf b
        some (b, buf, read + 1)
    else some (b, buf, 0)

/-- Where a packet function stands after it looked for a whole packet. -/
inductive Collected
  /-- The header or the packet is not full, and what was read of it is rewound. -/
  | waits (b : buffer_t)
  | full (b : buffer_t) (buf : List UInt8) (size : Int)

/-- The part of a packet function from the header test to the read of the whole packet:
`length` puts the two size bytes together, and `tail` is the size of the checksum. -/
def collect (length : UInt8 → UInt8 → Int) (tail : Int) (buf : List UInt8) (b : buffer_t) :
    Option Collected :=
  -- Do we have a full header?
  if buffer_size b < 2 then
    some (.waits (buffer_rewind b 1).1)
  else do
    let (b, buf, _) ← buffer_read b buf 1 2
    -- Packet size
    let size := length (← load buf 1) (← load buf 2)
    -- Do we have a full packet?
    if tail + size > buffer_size b then
      some (.waits (buffer_rewind b 3).1)
    else
      let (b, buf, _) ← buffer_read b buf 3 (size + tail)
      some (.full b buf size)

theorem load_overwrite (buf : List UInt8) (xs : List UInt8) (i : Nat) (hi : i < xs.length) :
    load (overwrite buf 0 xs) i = some xs[i] := by
  unfold load overwrite
  rw [if_pos (by omega)]
  simp [List.getElem?_append_left hi, List.getElem?_eq_getElem hi]

theorem read_one {b : buffer_t} {t : Tape UInt8} {x : UInt8} {s : List UInt8} (hb : Holds b t)
    (hsize : t.size ≤ INT_MAX) (buf : List UInt8) (hbuf : 0 < buf.length) (ht : t.ahead = x :: s) :
    ∃ b', buffer_read b buf 0 1 = some (b', overwrite buf 0 [x], 1) ∧ Holds b' (t.read 1) := by
  have hlen : min 1 t.ahead.length = 1 := by rw [ht, List.length_cons]; omega
  obtain ⟨b', hr, hb'⟩ := buffer_read.spec hb hsize buf 0 1 (by decide) (by omega)
  rw [hlen, ht] at hr
  exact ⟨b', hr, hb'⟩

theorem read_none {b : buffer_t} {t : Tape UInt8} (hb : Holds b t) (hsize : t.size ≤ INT_MAX)
    (buf : List UInt8) (ht : t.ahead = []) :
    ∃ b', buffer_read b buf 0 1 = some (b', buf, 0) ∧ Holds b' t := by
  obtain ⟨b', hr, hb'⟩ := buffer_read.spec hb hsize buf 0 1 (by decide) (by simp [ht])
  have hread : t.read 1 = t := by ext1 <;> simp [ht]
  rw [hread] at hb'
  rw [ht, List.take_nil, overwrite_nil] at hr
  exact ⟨b', hr, hb'⟩

/-- The search reads up to the first header byte. -/
theorem findHeader.spec (header : UInt8) (junk : List UInt8) :
    ∀ (fuel : Nat) (buf s : List UInt8) (b : buffer_t) (t : Tape UInt8), Holds b t →
      t.size ≤ INT_MAX → 0 < buf.length → t.ahead = junk ++ header :: s → header ∉ junk →
      junk.length < fuel →
      ∃ b', findHeader header fuel buf b = some (b', overwrite buf 0 [header], junk.length + 1) ∧
        Holds b' (t.read (junk.length + 1)) := by
  induction junk with
  | nil =>
    intro fuel buf s b t hb hsize hbuf ht _ hfuel
    obtain ⟨fuel, rfl⟩ : ∃ n, fuel = n + 1 := ⟨fuel - 1, by omega⟩
    obtain ⟨b1, hr, hb1⟩ := read_one hb hsize buf hbuf ht
    have hload : load (overwrite buf 0 [header]) 0 = some header :=
      load_overwrite buf [header] 0 (by simp)
    refine ⟨b1, ?_, hb1⟩
    simp [findHeader, hr, hload]
  | cons x junk ih =>
    intro fuel buf s b t hb hsize hbuf ht hjunk hfuel
    obtain ⟨fuel, rfl⟩ : ∃ n, fuel = n + 1 := ⟨fuel - 1, by omega⟩
    obtain ⟨hx, hjunk⟩ : header ≠ x ∧ header ∉ junk := by simpa using hjunk
    obtain ⟨b1, hr, hb1⟩ := read_one hb hsize buf hbuf ht
    have hload : load (overwrite buf 0 [x]) 0 = some x := load_overwrite buf [x] 0 (by simp)
    have hlen : (overwrite buf 0 [x]).length = buf.length := overwrite_length (by simp; omega)
    obtain ⟨b2, hf, hb2⟩ := ih fuel (overwrite buf 0 [x]) s b1 (t.read 1) hb1 (by simpa using hsize)
      (by omega) (by simp [ht]) hjunk (by simpa using hfuel)
    have hover : overwrite (overwrite buf 0 [x]) 0 [header] = overwrite buf 0 [header] := by
      simp [overwrite]
    rw [Tape.read_read, Nat.add_comm 1] at hb2
    refine ⟨b2, ?_, hb2⟩
    simp [findHeader, hr, hload, hf, hover, Ne.symm hx]

/-- Without a header byte the search reads everything. -/
theorem findHeader_absent (header : UInt8) (c : List UInt8) :
    ∀ (fuel : Nat) (buf : List UInt8) (b : buffer_t) (t : Tape UInt8), Holds b t →
      t.size ≤ INT_MAX → 0 < buf.length → t.ahead = c → header ∉ c → c.length < fuel →
      ∃ b' buf', findHeader header fuel buf b = some (b', buf', c.length) ∧
        Holds b' (t.read c.length) := by
  induction c with
  | nil =>
    intro fuel buf b t hb hsize hbuf ht _ hfuel
    obtain ⟨fuel, rfl⟩ : ∃ n, fuel = n + 1 := ⟨fuel - 1, by omega⟩
    obtain ⟨b1, hr, hb1⟩ := read_none hb hsize buf ht
    refine ⟨b1, buf, ?_, by simpa using hb1⟩
    simp [findHeader, hr]
  | cons x c ih =>
    intro fuel buf b t hb hsize hbuf ht hc hfuel
    obtain ⟨fuel, rfl⟩ : ∃ n, fuel = n + 1 := ⟨fuel - 1, by omega⟩
    obtain ⟨hx, hc⟩ : header ≠ x ∧ header ∉ c := by simpa using hc
    obtain ⟨b1, hr, hb1⟩ := read_one hb hsize buf hbuf ht
    have hload : load (overwrite buf 0 [x]) 0 = some x := load_overwrite buf [x] 0 (by simp)
    have hlen : (overwrite buf 0 [x]).length = buf.length := overwrite_length (by simp; omega)
    obtain ⟨b2, buf2, hf, hb2⟩ := ih fuel (overwrite buf 0 [x]) b1 (t.read 1) hb1
      (by simpa using hsize) (by omega) (by simp [ht]) hc (by simpa using hfuel)
    rw [Tape.read_read, Nat.add_comm 1] at hb2
    refine ⟨b2, buf2, ?_, hb2⟩
    simp [findHeader, hr, hload, hf, Ne.symm hx]

/-- Less than a full header: the last byte is rewound. -/
theorem collect_few (length : UInt8 → UInt8 → Int) (tail : Int) (buf : List UInt8) {b : buffer_t}
    {t : Tape UInt8} (hb : Holds b t) (hsize : t.size ≤ INT_MAX) (hpast : 1 ≤ t.past.length)
    (hfew : t.ahead.length < 2) :
    ∃ b', collect length tail buf b = some (.waits b') ∧ Holds b' (t.rewind 1) := by
  obtain ⟨b', hr, hb'⟩ := buffer_rewind.spec hb hsize 1 hpast
  have hr' : buffer_rewind b 1 = _ := hr
  refine ⟨b', ?_, hb'⟩
  rw [collect, buffer_size.spec hb hsize, if_pos (by omega), hr']

/-- The two size bytes go behind the header byte. -/
theorem read_size {b : buffer_t} {t : Tape UInt8} {header x y : UInt8} {s : List UInt8}
    (hb : Holds b (t.read 1)) (hsize : t.size ≤ 5000) (buf : List UInt8)
    (hbuf : buf.length = 5000) (ht : t.ahead = header :: x :: y :: s) :
    ∃ b', buffer_read b (overwrite buf 0 [header]) 1 2 =
        some (b', overwrite buf 0 [header, x, y], 2) ∧ Holds b' (t.read 3) := by
  have hINT : (5000 : Int) ≤ INT_MAX := by decide
  have hahead : (t.read 1).ahead = x :: y :: s := by simp [ht]
  have hlen : (overwrite buf 0 [header]).length = buf.length :=
    overwrite_length (by simp; omega)
  obtain ⟨b', hr, hb'⟩ := buffer_read.spec hb (by rw [Tape.size_read]; omega)
    (overwrite buf 0 [header]) 1 2 (by decide) (by rw [hahead]; simp; omega)
  have hmin : min 2 (t.read 1).ahead.length = 2 := by rw [hahead]; simp
  rw [hmin, hahead] at hr
  rw [Tape.read_read] at hb'
  have hover : overwrite (overwrite buf 0 [header]) 1 [x, y] = overwrite buf 0 [header, x, y] :=
    overwrite_overwrite buf 0 [header] [x, y] (by omega)
  exact ⟨b', by rw [← hover]; exact hr, hb'⟩

/-- A full header without a full packet: its three bytes are rewound. -/
theorem collect_short (length : UInt8 → UInt8 → Int) (tail n : Nat) {b : buffer_t}
    {t : Tape UInt8} {header x y : UInt8} {s : List UInt8} (hb : Holds b (t.read 1))
    (hsize : t.size ≤ 5000) (buf : List UInt8) (hbuf : buf.length = 5000)
    (ht : t.ahead = header :: x :: y :: s) (hn : length x y = n) (hshort : s.length < n + tail) :
    ∃ b', collect length tail (overwrite buf 0 [header]) b = some (.waits b') ∧ Holds b' t := by
  have hINT : (5000 : Int) ≤ INT_MAX := by decide
  obtain ⟨b1, hr1, hb1⟩ := read_size hb hsize buf hbuf ht
  have hx : load (overwrite buf 0 [header, x, y]) 1 = some x := load_overwrite buf _ 1 (by simp)
  have hy : load (overwrite buf 0 [header, x, y]) 2 = some y := load_overwrite buf _ 2 (by simp)
  have hs0 := buffer_size.spec hb (by rw [Tape.size_read]; omega)
  have hs1 := buffer_size.spec hb1 (by rw [Tape.size_read]; omega)
  simp only [Tape.read_ahead, ht, List.drop_succ_cons, List.drop_zero, List.length_cons] at hs0 hs1
  obtain ⟨b2, hr2, hb2⟩ := buffer_rewind.spec hb1 (by rw [Tape.size_read]; omega) 3
    (by simp [ht])
  have hr2' : buffer_rewind b1 3 = _ := hr2
  have hback : (t.read 3).rewind 3 = t := by
    have := Tape.rewind_read t 0 3 (by simp [ht])
    simpa using this
  rw [hback] at hb2
  refine ⟨b2, ?_, hb2⟩
  rw [collect, hs0, if_neg (by omega)]
  simp only [hr1, hx, hy, hn, hs1, hr2', Option.bind_eq_bind, Option.bind_some]
  rw [if_pos (by omega)]

/-- A full packet goes as a whole into the array. -/
theorem collect_full (length : UInt8 → UInt8 → Int) (tail n : Nat) {b : buffer_t}
    {t : Tape UInt8} {header x y : UInt8} {s : List UInt8} (hb : Holds b (t.read 1))
    (hsize : t.size ≤ 5000) (buf : List UInt8) (hbuf : buf.length = 5000)
    (ht : t.ahead = header :: x :: y :: s) (hn : length x y = n) (hfull : n + tail ≤ s.length) :
    ∃ b', collect length tail (overwrite buf 0 [header]) b =
        some (.full b' (overwrite buf 0 (header :: x :: y :: s.take (n + tail))) n) ∧
      Holds b' (t.read (3 + (n + tail))) := by
  have hINT : (5000 : Int) ≤ INT_MAX := by decide
  obtain ⟨b1, hr1, hb1⟩ := read_size hb hsize buf hbuf ht
  have hx : load (overwrite buf 0 [header, x, y]) 1 = some x := load_overwrite buf _ 1 (by simp)
  have hy : load (overwrite buf 0 [header, x, y]) 2 = some y := load_overwrite buf _ 2 (by simp)
  have hs0 := buffer_size.spec hb (by rw [Tape.size_read]; omega)
  have hs1 := buffer_size.spec hb1 (by rw [Tape.size_read]; omega)
  simp only [Tape.read_ahead, ht, List.drop_succ_cons, List.drop_zero, List.length_cons] at hs0 hs1
  have hahead : (t.read 3).ahead = s := by simp [ht]
  have hcells : s.length + 3 ≤ 5000 := by
    have : t.ahead.length ≤ t.size := by simp only [Tape.size]; omega
    rw [ht] at this
    simp only [List.length_cons] at this
    omega
  have hlen : (overwrite buf 0 [header, x, y]).length = buf.length :=
    overwrite_length (by simp; omega)
  obtain ⟨b2, hr2, hb2⟩ := buffer_read.spec hb1 (by rw [Tape.size_read]; omega)
    (overwrite buf 0 [header, x, y]) 3 (n + tail) (by omega) (by rw [hahead]; omega)
  have hover : overwrite (overwrite buf 0 [header, x, y]) 3 (s.take (n + tail)) =
      overwrite buf 0 (header :: x :: y :: s.take (n + tail)) :=
    overwrite_overwrite buf 0 [header, x, y] (s.take (n + tail)) (by omega)
  rw [hahead, hover, Int.natCast_add] at hr2
  have hr2' : buffer_read b1 (overwrite buf 0 [header, x, y]) 3 (n + tail) = _ := hr2
  rw [Tape.read_read] at hb2
  refine ⟨b2, ?_, hb2⟩
  rw [collect, hs0, if_neg (by omega)]
  simp only [hr1, hx, hy, hn, hs1, Option.bind_eq_bind, Option.bind_some]
  rw [if_neg (by omega), hr2']
  rfl

/-- What is collected behind a header byte, and what the format says that it is. -/
theorem collect.spec (f : Format UInt8) (length : UInt8 → UInt8 → Int)
    (hlength : ∀ x y, length x y = f.length x y) {b : buffer_t} {t : Tape UInt8}
    {junk s : List UInt8} (hb : Holds b (t.read (junk.length + 1))) (hsize : t.size ≤ 5000)
    (buf : List UInt8) (hbuf : buf.length = 5000) (ht : t.ahead = junk ++ f.header :: s)
    (hjunk : f.header ∉ junk) :
    (∃ b', collect length f.trailerLength (overwrite buf 0 [f.header]) b = some (.waits b') ∧
        Holds b' (t.read junk.length) ∧ f.parse t.ahead = .short (f.header :: s)) ∨
      ∃ (x y : UInt8) (s' : List UInt8) (b' : buffer_t), s = x :: y :: s' ∧
        f.length x y + f.trailerLength ≤ s'.length ∧
        collect length f.trailerLength (overwrite buf 0 [f.header]) b =
          some (.full b' (overwrite buf 0 (f.header :: x :: y ::
            s'.take (f.length x y + f.trailerLength))) (f.length x y)) ∧
        Holds b' (t.read (junk.length + (3 + (f.length x y + f.trailerLength)))) ∧
        f.parse t.ahead =
          if (s'.drop (f.length x y)).take f.trailerLength = f.trailer (s'.take (f.length x y)) then
            .frame (s'.take (f.length x y)) (s'.drop (f.length x y + f.trailerLength))
          else .damaged (s'.drop (f.length x y + f.trailerLength)) := by
  have hINT : (5000 : Int) ≤ INT_MAX := by decide
  have hlen : t.ahead.length = junk.length + (s.length + 1) := by simp [ht]
  -- The tape that starts with the header byte.
  have hu : (t.read junk.length).ahead = f.header :: s := by simp [ht]
  have husize : (t.read junk.length).size ≤ 5000 := by rw [Tape.size_read]; exact hsize
  have hparse : f.parse t.ahead = f.body (f.header :: s) := by
    rw [ht, f.parse_junk _ hjunk, f.parse_header]
  rw [← Tape.read_read] at hb
  have hfew : s.length < 2 → f.body (f.header :: s) = .short (f.header :: s) →
      ∃ b', collect length f.trailerLength (overwrite buf 0 [f.header]) b = some (.waits b') ∧
        Holds b' (t.read junk.length) ∧ f.parse t.ahead = .short (f.header :: s) := by
    intro hs hbody
    obtain ⟨b', hc, hb'⟩ := collect_few length f.trailerLength (overwrite buf 0 [f.header]) hb
      (by rw [Tape.size_read]; omega) (by rw [Tape.read_past, hu]; simp; omega)
      (by rw [Tape.read_ahead, hu]; simpa using hs)
    rw [Tape.read_read, Tape.rewind_read t junk.length 1 (by omega)] at hb'
    exact ⟨b', hc, hb', hparse.trans hbody⟩
  match s, hu, hparse, hfew with
  | [], _, _, hfew => exact .inl (hfew (by decide) rfl)
  | [_], _, _, hfew => exact .inl (hfew (by simp) rfl)
  | x :: y :: s, hu, hparse, _ =>
    by_cases hs : s.length < f.length x y + f.trailerLength
    · obtain ⟨b', hc, hb'⟩ := collect_short length f.trailerLength (f.length x y) hb husize buf hbuf
        hu (hlength x y) hs
      refine .inl ⟨b', hc, hb', hparse.trans ?_⟩
      simp only [Format.body]
      rw [if_pos hs]
    · obtain ⟨b', hc, hb'⟩ := collect_full length f.trailerLength (f.length x y) hb husize buf hbuf
        hu (hlength x y) (Nat.le_of_not_lt hs)
      rw [Tape.read_read] at hb'
      refine .inr ⟨x, y, s, b', rfl, Nat.le_of_not_lt hs, hc, hb', hparse.trans ?_⟩
      simp only [Format.body]
      rw [if_neg hs]

/-- The payload in the array of a collected packet. -/
theorem collected_payload (buf s : List UInt8) (h x y : UInt8) (n tail : Nat)
    (hs : n + tail ≤ s.length) :
    ((overwrite buf 0 (h :: x :: y :: s.take (n + tail))).drop 3).take n = s.take n := by
  have hlen : n ≤ (s.take (n + tail)).length := by
    rw [List.length_take]
    omega
  simp only [overwrite, List.take_zero, List.nil_append, List.cons_append, List.drop_succ_cons,
    List.drop_zero]
  rw [List.take_append_of_le_length hlen, List.take_take, Nat.min_eq_left (Nat.le_add_right n tail)]

/-- A checksum byte in the array of a collected packet. -/
theorem collected_trailer (buf s : List UInt8) (h x y : UInt8) (n tail i : Nat) (hi : i < tail)
    (hs : n + tail ≤ s.length) :
    load (overwrite buf 0 (h :: x :: y :: s.take (n + tail))) (3 + n + i : Nat) =
      some s[n + i] := by
  rw [load_overwrite _ _ (3 + n + i) (by simp; omega)]
  have : 3 + n + i = n + i + 3 := by omega
  simp [this]

/-! ## How a piece of C code ends -/

/-- A function returns, the process ends in it by `exit` or by a failed `assert`, or its
behaviour is undefined. -/
inductive Outcome (α : Type)
  | running (a : α)
  | exited (status : Int) (a : α)
  | aborted (a : α)
  | undefined

/-- The state that is left, also when the process ended. -/
def Outcome.last {α : Type} : Outcome α → Option α
  | .running a => some a
  | .exited _ a => some a
  | .aborted a => some a
  | .undefined => none

/-- The same end, with another view of the state. -/
def Outcome.map {α β : Type} (f : α → β) : Outcome α → Outcome β
  | .running a => .running (f a)
  | .exited status a => .exited status (f a)
  | .aborted a => .aborted (f a)
  | .undefined => .undefined

theorem Outcome.of_map_running {α β : Type} {f : α → β} {o : Outcome α} {b : β}
    (h : o.map f = .running b) : ∃ a, o = .running a ∧ f a = b := by
  cases o with
  | running a =>
    cases h
    exact ⟨a, rfl, rfl⟩
  | exited | aborted | undefined => cases h

/-- Two ends of the same kind, with states that are related. -/
def Outcome.Rel {α β : Type} (R : α → β → Prop) : Outcome α → Outcome β → Prop
  | .running a, .running b => R a b
  | .exited status a, .exited status' b => status = status' ∧ R a b
  | .aborted a, .aborted b => R a b
  | .undefined, .undefined => True
  | _, _ => False

theorem Outcome.Rel.of_running {α β : Type} {R : α → β → Prop} {a : α} {o : Outcome β}
    (h : Outcome.Rel R (.running a) o) : ∃ b, o = .running b ∧ R a b := by
  match o, h with
  | .running b, h => exact ⟨b, rfl, h⟩

theorem Outcome.Rel.to_running {α β : Type} {R : α → β → Prop} {o : Outcome α} {b : β}
    (h : Outcome.Rel R o (.running b)) : ∃ a, o = .running a ∧ R a b := by
  match o, h with
  | .running a, h => exact ⟨a, rfl, h⟩

variable {σ : Type}

/-- `while (get(p, buf) == 0) dispatch(p);` The number counts the calls of `get`, for what
the uninitialised locals of each call hold. -/
def process (get : Nat → packet_t → buffer_t → Option (Int × packet_t × buffer_t))
    (dispatch : σ → packet_t → Outcome σ) :
    Nat → Nat → σ → packet_t → buffer_t → Outcome (σ × buffer_t)
  | 0, _, _, _, _ => .undefined
  | fuel + 1, i, s, p, buf =>
    match get i p buf with
    | none => .undefined
    | some (ret, p, buf) =>
      if ret = 0 then
        match dispatch s p with
        | .running s => process get dispatch fuel (i + 1) s p buf
        | .exited status s => .exited status (s, buf)
        | .aborted s => .aborted (s, buf)
        | .undefined => .undefined
      else .running (s, buf)

/-- What the uninitialised locals of a packet function hold. -/
structure Locals where
  start : Int
  buf : List UInt8
  buf_length : buf.length = 5000

/-- An event as a package handler finds it: the fields `in` and `incount` of `event_t`, and
what its own uninitialised locals and those of the packet functions it calls hold. -/
structure Event where
  input : List UInt8
  incount : Int
  incount_le : incount ≤ input.length
  packet : packet_t
  locals : Nat → Locals

/-- The shape of the three package handlers. -/
def handlePackage (get : Locals → packet_t → buffer_t → Option (Int × packet_t × buffer_t))
    (dispatch : σ → packet_t → Outcome σ) (s : σ) (buf : buffer_t) (e : Event) :
    Outcome (σ × buffer_t) :=
  match buffer_write buf e.input e.incount with
  | none => .undefined
  | some (buf, _) =>
    process (fun i => get (e.locals i)) dispatch (buf.count.toNat + 1) 0 s
      { e.packet with size := 0 } buf

/-! ## A packet function, on tapes -/

/-- What a packet function does to the tape under the buffer: it returns 0 with a packet,
or -1; a payload that no packet can hold is undefined. -/
def getTape (f : Format UInt8) (p : packet_t) (t : Tape UInt8) :
    Option (Int × packet_t × Tape UInt8) :=
  match f.parse t.ahead with
  | .frame q rest =>
    if h : q.length ≤ PACKET_SIZE then
      some (0, p.carry q h, t.read (t.ahead.length - rest.length))
    else none
  | .short s => some (-1, p, t.read (t.ahead.length - s.length))
  | .damaged rest => some (-1, p, t.read (t.ahead.length - rest.length))
  | .absent =>
    some (-1, p, if f.keepsLast ∨ t.ahead ≠ [] then (t.read t.ahead.length).rewind 1 else t)

/-- The packet function takes the frames of the format out of a buffer of `cap` bytes. -/
def Gets (f : Format UInt8) (cap : Nat)
    (get : packet_t → buffer_t → Option (Int × packet_t × buffer_t)) : Prop :=
  ∀ p b t, Holds b t → t.size = cap →
    match getTape f p t with
    | none => get p b = none
    | some (ret, p', t') => ∃ b', get p b = some (ret, p', b') ∧ Holds b' t'

/-- Where a packet function stands before its final copy. -/
inductive Whole
  /-- It returns -1. -/
  | returns (b : buffer_t)
  /-- It copies `size` bytes of `buf` to the packet. -/
  | copies (b : buffer_t) (buf : List UInt8) (size : Int)

/-- The final copy, and the return. -/
def copy (p : packet_t) : Whole → Option (Int × packet_t × buffer_t)
  | .returns b => some (-1, p, b)
  | .copies b buf size => do
    let p ← p.fill buf 3 size
    some (0, p, b)

/-- The packet function stands before its final copy as the tape says: it returns -1, or the
payload of the whole frame at the front of the tape is in its array. -/
def Prepares (f : Format UInt8) (t : Tape UInt8) : Whole → Prop
  | .returns b => ∃ t', Holds b t' ∧ ∀ p, getTape f p t = some (-1, p, t')
  | .copies b buf size => ∃ q rest, f.parse t.ahead = .frame q rest ∧ size = q.length ∧
      3 + q.length ≤ buf.length ∧ (buf.drop 3).take q.length = q ∧
      Holds b (t.read (t.ahead.length - rest.length))

theorem copy.spec {f : Format UInt8} {t : Tape UInt8} {w : Whole} (h : Prepares f t w)
    (p : packet_t) :
    match getTape f p t with
    | none => copy p w = none
    | some (ret, p', t') => ∃ b', copy p w = some (ret, p', b') ∧ Holds b' t' := by
  cases w with
  | returns b =>
    obtain ⟨t', hb, hget⟩ := h
    rw [hget p]
    exact ⟨b, rfl, hb⟩
  | copies b buf size =>
    obtain ⟨q, rest, hparse, rfl, hlen, hdata, hb⟩ := h
    simp only [getTape, hparse, copy]
    by_cases hq : q.length ≤ PACKET_SIZE
    · have hfill : p.fill buf 3 q.length = _ := fill.spec p buf 3 q.length hq hlen
      rw [dif_pos hq]
      refine ⟨b, ?_, hb⟩
      simp only [hfill, Option.bind_eq_bind, Option.bind_some, hdata]
    · rw [dif_neg hq]
      dsimp only
      rw [fill_too_long p buf 3 q.length (by omega)]
      rfl

/-- A packet function gives what its final copy gives. -/
theorem Gets.of_prepares {f : Format UInt8} {cap : Nat}
    {get : packet_t → buffer_t → Option (Int × packet_t × buffer_t)}
    {whole : buffer_t → Option Whole} (hget : ∀ p b, get p b = (whole b).bind (copy p))
    (h : ∀ b t, Holds b t → t.size = cap → ∃ w, whole b = some w ∧ Prepares f t w) :
    Gets f cap get := by
  intro p b t hb ht
  obtain ⟨w, hw, hprep⟩ := h b t hb ht
  rw [hget, hw, Option.bind_some]
  exact copy.spec hprep p

/-- The array of a collected packet whose trailer is good, or what is left of one whose trailer
is not. -/
theorem prepares_collected {f : Format UInt8} {t : Tape UInt8} {b : buffer_t}
    {junk s buf : List UInt8} {x y : UInt8} {n : Nat} {good : Prop} [Decidable good]
    (hs : t.ahead = junk ++ f.header :: x :: y :: s) (hsize : t.size ≤ 5000)
    (hbuf : buf.length = 5000) (hfull : n + f.trailerLength ≤ s.length)
    (hgood : good ↔ (s.drop n).take f.trailerLength = f.trailer (s.take n))
    (hb : Holds b (t.read (junk.length + (3 + (n + f.trailerLength)))))
    (hparse : f.parse t.ahead =
      if (s.drop n).take f.trailerLength = f.trailer (s.take n) then
        .frame (s.take n) (s.drop (n + f.trailerLength))
      else .damaged (s.drop (n + f.trailerLength))) :
    Prepares f t (if ¬ good then .returns b
      else .copies b (overwrite buf 0 (f.header :: x :: y :: s.take (n + f.trailerLength))) n) := by
  have hlen : t.ahead.length = junk.length + (3 + (n + f.trailerLength)) +
      (s.drop (n + f.trailerLength)).length := by
    rw [hs]
    simp only [List.length_append, List.length_cons, List.length_drop]
    omega
  have hplace : t.ahead.length - (s.drop (n + f.trailerLength)).length =
      junk.length + (3 + (n + f.trailerLength)) := by
    rw [hlen, Nat.add_sub_cancel]
  have hcells : t.ahead.length ≤ t.size := Nat.le_add_left _ _
  have hdata := collected_payload buf s f.header x y n f.trailerLength hfull
  have hover : (overwrite buf 0 (f.header :: x :: y :: s.take (n + f.trailerLength))).length =
      buf.length := overwrite_length (by simp only [List.length_cons, List.length_take]; omega)
  have hn : (s.take n).length = n := by
    rw [List.length_take]
    omega
  by_cases htrailer : (s.drop n).take f.trailerLength = f.trailer (s.take n)
  · rw [if_pos htrailer] at hparse
    rw [if_neg (not_not.mpr (hgood.mpr htrailer))]
    refine ⟨s.take n, _, hparse, by rw [hn], by omega, by rw [hn]; exact hdata, ?_⟩
    rw [hplace]
    exact hb
  · rw [if_neg htrailer] at hparse
    rw [if_pos fun h => htrailer (hgood.mp h)]
    refine ⟨_, hb, fun p => ?_⟩
    simp only [getTape, hparse, hplace]

/-- The dispatcher on one packet after the other, each over the bytes of the one before. -/
def dispatchAll (dispatch : σ → packet_t → Outcome σ) : σ → packet_t → List (List UInt8) →
    Outcome σ
  | s, _, [] => .running s
  | s, p, q :: qs =>
    if h : q.length ≤ PACKET_SIZE then
      match dispatch s (p.carry q h) with
      | .running s => dispatchAll dispatch s (p.carry q h) qs
      | r => r
    else .undefined

/-- The handler ends as `r` says, and if it returns, its buffer stands for `t`. -/
def Ends (o : Outcome (σ × buffer_t)) (r : Outcome σ) (t : Tape UInt8) : Prop :=
  match r with
  | .running s => ∃ b, o = .running (s, b) ∧ Holds b t
  | .exited status s => ∃ b, o = .exited status (s, b)
  | .aborted s => ∃ b, o = .aborted (s, b)
  | .undefined => o = .undefined

theorem Ends.holds {s : σ} {b : buffer_t} {r : Outcome σ} {t : Tape UInt8}
    (h : Ends (.running (s, b)) r t) : r = .running s ∧ Holds b t := by
  cases r with
  | running s' =>
    obtain ⟨b', hb', hholds⟩ := h
    cases hb'
    exact ⟨rfl, hholds⟩
  | exited status s' =>
    obtain ⟨b', hb'⟩ := h
    cases hb'
  | aborted s' =>
    obtain ⟨b', hb'⟩ := h
    cases hb'
  | undefined => cases h

/-! ## The loop, on tapes -/

/-- The tape when the loop is over, from the tape `t` that it began with: `rest` is where the
whole frames end. -/
def afterTape (f : Format UInt8) (t : Tape UInt8) (rest : List UInt8) : Tape UInt8 :=
  match f.parse rest with
  | .short s => t.read (t.ahead.length - s.length)
  | .damaged s => t.read (t.ahead.length - s.length)
  | _ =>
    if f.keepsLast ∨ rest ≠ [] then (t.read t.ahead.length).rewind 1 else t.read t.ahead.length

/-- The loop dispatches the payloads of the whole frames at the front of the tape. -/
theorem process.spec {f : Format UInt8} {cap : Nat}
    {get : Nat → packet_t → buffer_t → Option (Int × packet_t × buffer_t)}
    (hget : ∀ i, Gets f cap (get i))
    (dispatch : σ → packet_t → Outcome σ) (t : Tape UInt8) (ht : t.size = cap) (c : List UInt8) :
    ∀ (m fuel i : Nat) (s : σ) (p : packet_t) (b : buffer_t), m ≤ t.ahead.length →
      t.ahead.drop m = c → c.length < fuel → Holds b (t.read m) →
      Ends (process get dispatch fuel i s p b) (dispatchAll dispatch s p (f.drain c).1)
        (afterTape f t (f.drain c).2) := by
  -- The induction takes one frame after the other off `c`, the part not yet read.
  induction c using f.drain_induct with
  | hframe c q rest hparse ih =>
    intro m fuel i s p b hm hc hfuel hb
    obtain ⟨fuel, rfl⟩ : ∃ n, fuel = n + 1 := ⟨fuel - 1, by omega⟩
    have hstep := hget i p b (t.read m) hb (by rw [Tape.size_read, ht])
    have hlt := f.parse_frame_length hparse
    rw [f.drain_frame hparse]
    simp only [getTape, Tape.read_ahead, hc, hparse] at hstep
    by_cases hq : q.length ≤ PACKET_SIZE
    · rw [dif_pos hq] at hstep
      obtain ⟨b', hget', hb'⟩ := hstep
      simp only [process, hget', dispatchAll, dif_pos hq]
      cases dispatch s (p.carry q hq) with
      | running s' =>
        rw [Tape.read_read] at hb'
        refine ih (m + (c.length - rest.length)) fuel (i + 1) s' _ b' ?_ ?_ (by omega) hb'
        · rw [← hc, List.length_drop]
          omega
        · rw [← List.drop_drop, hc, f.parse_frame_drop hparse]
      | exited status s' => exact ⟨b', rfl⟩
      | aborted s' => exact ⟨b', rfl⟩
      | undefined => rfl
    · rw [dif_neg hq] at hstep
      simp only [process, hstep, dispatchAll, dif_neg hq]
      rfl
  | hstop c hstop =>
    intro m fuel i s p b hm hc hfuel hb
    obtain ⟨fuel, rfl⟩ : ∃ n, fuel = n + 1 := ⟨fuel - 1, by omega⟩
    have hstep := hget i p b (t.read m) hb (by rw [Tape.size_read, ht])
    have hlen : t.ahead.length = m + c.length := by
      rw [← hc, List.length_drop]
      omega
    rw [f.drain_stop hstop]
    simp only [getTape, Tape.read_ahead, hc] at hstep
    simp only [dispatchAll, Ends, afterTape]
    cases hparse : f.parse c with
    | frame q rest => exact absurd hparse (hstop q rest)
    | short s' =>
      rw [hparse] at hstep
      obtain ⟨b', hget', hb'⟩ := hstep
      refine ⟨b', by simp [process, hget'], hb'.of_eq ?_⟩
      obtain ⟨junk, s'', rfl, _, _⟩ := f.parse_short hparse
      rw [Tape.read_read, hlen]
      congr 1
      simp only [List.length_append]
      omega
    | damaged s' =>
      rw [hparse] at hstep
      obtain ⟨b', hget', hb'⟩ := hstep
      refine ⟨b', by simp [process, hget'], hb'.of_eq ?_⟩
      obtain ⟨frame, rfl, _⟩ := f.parse_damaged hparse
      rw [Tape.read_read, hlen]
      congr 1
      simp only [List.length_append]
      omega
    | absent =>
      rw [hparse] at hstep
      obtain ⟨b', hget', hb'⟩ := hstep
      refine ⟨b', by simp [process, hget'], hb'.of_eq ?_⟩
      rw [Tape.read_read, ← hlen]
      split
      · rfl
      · rename_i hrest
        have : c = [] := by
          by_contra hne
          exact hrest (.inr hne)
        rw [hlen, this, List.length_nil, Nat.add_zero]

@[simp] theorem afterTape_size (f : Format UInt8) (t : Tape UInt8) (rest : List UInt8) :
    (afterTape f t rest).size = t.size := by
  unfold afterTape
  split
  · simp
  · simp
  · split <;> simp

/-- What is ahead when the loop is over is what a receiver keeps. -/
theorem afterTape_ahead (f : Format UInt8) (t : Tape UInt8) (rest : List UInt8)
    (hrest : rest <:+ t.ahead) (ht : t.ahead ≠ []) :
    (afterTape f t rest).ahead = f.keep t.ahead rest := by
  have hdrop : ∀ s, s <:+ rest → (t.read (t.ahead.length - s.length)).ahead = s := by
    intro s hs
    obtain ⟨junk, hj⟩ := hs.trans hrest
    rw [Tape.read_ahead, ← hj, List.length_append, Nat.add_sub_cancel, List.drop_left]
  unfold afterTape Format.keep
  cases hparse : f.parse rest with
  | short s =>
    obtain ⟨junk, _, hj, _, _⟩ := f.parse_short hparse
    exact hdrop s ⟨junk, hj.symm⟩
  | damaged s =>
    obtain ⟨frame, hf, _⟩ := f.parse_damaged hparse
    exact hdrop s ⟨frame, hf.symm⟩
  | _ =>
    dsimp only
    split
    · obtain ⟨init, x, hx⟩ := (List.eq_nil_or_concat' t.ahead).resolve_left ht
      have hread : t.read t.ahead.length = ⟨(t.past ++ init) ++ [x], []⟩ := by
        ext1 <;> simp [← hx]
      have hback : (⟨(t.past ++ init) ++ [x], []⟩ : Tape UInt8).rewind 1 = ⟨t.past ++ init, [x]⟩ :=
        Tape.rewind_append (t.past ++ init) [x] []
      rw [hread, hback, hx]
      simp
    · simp

/-- A handler dispatches the payloads of the whole frames among what it has after the write, and
leaves what the loop leaves. -/
theorem handlePackage_tape {f : Format UInt8} {cap : Nat}
    {get : Locals → packet_t → buffer_t → Option (Int × packet_t × buffer_t)}
    (dispatch : σ → packet_t → Outcome σ) (s : σ) (b : buffer_t) (t : Tape UInt8) (e : Event)
    (hget : ∀ i, Gets f cap (get (e.locals i))) (hb : Holds b t) (ht : t.size = cap)
    (hcap : cap ≤ INT_MAX) (n : Nat) (hn : e.incount = n) :
    Ends (handlePackage get dispatch s b e)
      (dispatchAll dispatch s { e.packet with size := 0 }
        (f.drain (t.write (e.input.take n)).ahead).1)
      (afterTape f (t.write (e.input.take n)) (f.drain (t.write (e.input.take n)).ahead).2) := by
  have hlen := e.incount_le
  obtain ⟨b', hw, hb'⟩ := buffer_write.spec hb (by omega) e.input n (by omega)
  have hcount := hb'.count
  simp only [handlePackage, hn, hw]
  exact process.spec (fun i => hget i) dispatch (t.write (e.input.take n)) (by simp [ht])
    (t.write (e.input.take n)).ahead 0 (b'.count.toNat + 1) 0 s { e.packet with size := 0 } b'
    (by omega) (List.drop_zero ..) (by omega) (by rw [Tape.read_zero]; exact hb')

/-- A handler that is given an event with some bytes, or that has some, keeps what a receiver
keeps. -/
theorem handlePackage.spec {f : Format UInt8} {cap : Nat}
    {get : Locals → packet_t → buffer_t → Option (Int × packet_t × buffer_t)}
    (dispatch : σ → packet_t → Outcome σ) (s : σ) (b : buffer_t) (t : Tape UInt8) (e : Event)
    (hget : ∀ i, Gets f cap (get (e.locals i))) (hb : Holds b t) (ht : t.size = cap)
    (hcap : cap ≤ INT_MAX) (n : Nat) (hn : e.incount = n)
    (hne : t.ahead ++ (e.input.take n).take t.past.length ≠ []) :
    ∃ t' : Tape UInt8, t'.size = cap ∧
      t'.ahead = (f.receive (t.ahead ++ (e.input.take n).take t.past.length)).2 ∧
      Ends (handlePackage get dispatch s b e)
        (dispatchAll dispatch s { e.packet with size := 0 }
          (f.receive (t.ahead ++ (e.input.take n).take t.past.length)).1) t' := by
  refine ⟨_, ?_, ?_, handlePackage_tape dispatch s b t e hget hb ht hcap n hn⟩
  · rw [afterTape_size, Tape.size_write, ht]
  · rw [afterTape_ahead f _ _ (f.drain_suffix _) hne]
    rfl

end dect_prog.package
