-- What the uninitialised locals of the packet functions decide. The array is only
-- read where it was written before; `start` of busmail_get is added to the place of
-- the checksum byte, and so decides about every whole packet.
import DectProg.Grammar

open tape framing dect_prog.buffer

namespace dect_prog.buffer

/-! ## Where a read goes makes no difference to the buffer -/

theorem read_normal_length {b b' : buffer_t} {buf out : List UInt8} {off k n : Int}
    (h : read_normal b buf off k = some (b', out, n)) : out.length = buf.length := by
  obtain ⟨_, hcopy, h⟩ := Option.bind_eq_some_iff.mp h
  cases h
  exact memcpy_length hcopy

theorem read_wrapped_length {b b' : buffer_t} {buf out : List UInt8} {off k n : Int}
    (h : read_wrapped b buf off k = some (b', out, n)) : out.length = buf.length := by
  obtain ⟨_, hcopy, h⟩ := Option.bind_eq_some_iff.mp h
  cases h
  exact memcpy_length hcopy

theorem buffer_read_length {b b' : buffer_t} {buf out : List UInt8} {off k n : Int}
    (h : buffer_read b buf off k = some (b', out, n)) : out.length = buf.length := by
  unfold buffer_read at h
  split at h
  · obtain ⟨⟨c, mid, m⟩, hr, h⟩ := Option.bind_eq_some_iff.mp h
    dsimp only at h
    split at h
    · obtain ⟨⟨d, last, e⟩, hm, h⟩ := Option.bind_eq_some_iff.mp h
      cases h
      exact (read_wrapped_length hm).trans (read_normal_length hr)
    · cases h
      exact read_normal_length hr
  · obtain ⟨⟨c, mid, m⟩, hr, h⟩ := Option.bind_eq_some_iff.mp h
    dsimp only at h
    split at h
    · obtain ⟨⟨d, last, e⟩, hm, h⟩ := Option.bind_eq_some_iff.mp h
      cases h
      exact (read_normal_length hm).trans (read_wrapped_length hr)
    · cases h
      exact read_wrapped_length hr

theorem read_normal_same {b b1 b2 : buffer_t} {buf1 buf2 out1 out2 : List UInt8}
    {off1 off2 k n1 n2 : Int} (h1 : read_normal b buf1 off1 k = some (b1, out1, n1))
    (h2 : read_normal b buf2 off2 k = some (b2, out2, n2)) : b1 = b2 ∧ n1 = n2 := by
  obtain ⟨_, _, h1⟩ := Option.bind_eq_some_iff.mp h1
  obtain ⟨_, _, h2⟩ := Option.bind_eq_some_iff.mp h2
  cases h1
  cases h2
  exact ⟨rfl, rfl⟩

theorem read_wrapped_same {b b1 b2 : buffer_t} {buf1 buf2 out1 out2 : List UInt8}
    {off1 off2 k n1 n2 : Int} (h1 : read_wrapped b buf1 off1 k = some (b1, out1, n1))
    (h2 : read_wrapped b buf2 off2 k = some (b2, out2, n2)) : b1 = b2 ∧ n1 = n2 := by
  obtain ⟨_, _, h1⟩ := Option.bind_eq_some_iff.mp h1
  obtain ⟨_, _, h2⟩ := Option.bind_eq_some_iff.mp h2
  cases h1
  cases h2
  exact ⟨rfl, rfl⟩

/-- Two reads of as many bytes leave the same buffer, wherever they put the bytes. -/
theorem buffer_read_same {b b1 b2 : buffer_t} {buf1 buf2 out1 out2 : List UInt8}
    {off1 off2 k n1 n2 : Int} (h1 : buffer_read b buf1 off1 k = some (b1, out1, n1))
    (h2 : buffer_read b buf2 off2 k = some (b2, out2, n2)) : b1 = b2 ∧ n1 = n2 := by
  unfold buffer_read at h1 h2
  split at h1 <;> rename_i hs <;> simp only [hs] at h2
  · obtain ⟨⟨c1, mid1, m1⟩, hr1, h1⟩ := Option.bind_eq_some_iff.mp h1
    obtain ⟨⟨c2, mid2, m2⟩, hr2, h2⟩ := Option.bind_eq_some_iff.mp h2
    obtain ⟨rfl, rfl⟩ := read_normal_same hr1 hr2
    dsimp only at h1 h2
    split at h1 <;> rename_i hmore
    · rw [if_pos hmore] at h2
      obtain ⟨⟨d1, end1, e1⟩, hm1, h1⟩ := Option.bind_eq_some_iff.mp h1
      obtain ⟨⟨d2, end2, e2⟩, hm2, h2⟩ := Option.bind_eq_some_iff.mp h2
      obtain ⟨rfl, rfl⟩ := read_wrapped_same hm1 hm2
      cases h1
      cases h2
      exact ⟨rfl, rfl⟩
    · rw [if_neg hmore] at h2
      cases h1
      cases h2
      exact ⟨rfl, rfl⟩
  · obtain ⟨⟨c1, mid1, m1⟩, hr1, h1⟩ := Option.bind_eq_some_iff.mp h1
    obtain ⟨⟨c2, mid2, m2⟩, hr2, h2⟩ := Option.bind_eq_some_iff.mp h2
    obtain ⟨rfl, rfl⟩ := read_wrapped_same hr1 hr2
    dsimp only at h1 h2
    split at h1 <;> rename_i hmore
    · rw [if_pos hmore] at h2
      obtain ⟨⟨d1, end1, e1⟩, hm1, h1⟩ := Option.bind_eq_some_iff.mp h1
      obtain ⟨⟨d2, end2, e2⟩, hm2, h2⟩ := Option.bind_eq_some_iff.mp h2
      obtain ⟨rfl, rfl⟩ := read_normal_same hm1 hm2
      cases h1
      cases h2
      exact ⟨rfl, rfl⟩
    · rw [if_neg hmore] at h2
      cases h1
      cases h2
      exact ⟨rfl, rfl⟩

end dect_prog.buffer

namespace dect_prog.package

/-! ## Two searches, two collections -/

variable {header : UInt8} {b : buffer_t} {t : Tape UInt8}

/-- One round of the search, when there is a byte. -/
theorem findHeader_round (header : UInt8) (fuel : Nat) {x : UInt8} {s : List UInt8}
    (hb : Holds b t) (hsize : t.size ≤ INT_MAX) (buf : List UInt8) (hbuf : 0 < buf.length)
    (ht : t.ahead = x :: s) :
    ∃ c out, buffer_read b buf 0 1 = some (c, out, 1) ∧ Holds c (t.read 1) ∧ 0 < out.length ∧
      findHeader header (fuel + 1) buf b =
        if x = header then some (c, out, 1)
        else (findHeader header fuel out c).map fun r => (r.1, r.2.1, r.2.2 + 1) := by
  obtain ⟨c, hr, hc⟩ := read_one hb hsize buf hbuf ht
  have hload : load (overwrite buf 0 [x]) 0 = some x := load_overwrite buf [x] 0 (by simp)
  have hlen : (overwrite buf 0 [x]).length = buf.length := overwrite_length (by simp; omega)
  refine ⟨c, _, hr, hc, by omega, ?_⟩
  simp only [findHeader, hr, hload, Option.bind_eq_bind, Option.bind_some, Option.map_eq_bind]
  rfl

/-- Two searches of a buffer find the same header, whatever their arrays held. -/
theorem findHeader_same (fuel : Nat) :
    ∀ {buf1 buf2 out1 out2 : List UInt8} {n1 n2 : Nat} {b b1 b2 : buffer_t} {t : Tape UInt8},
      Holds b t → t.size ≤ INT_MAX → 0 < buf1.length → 0 < buf2.length →
      findHeader header fuel buf1 b = some (b1, out1, n1) →
      findHeader header fuel buf2 b = some (b2, out2, n2) → b1 = b2 ∧ n1 = n2 := by
  induction fuel with
  | zero =>
    intro buf1 buf2 out1 out2 n1 n2 b b1 b2 t _ _ _ _ h1
    cases h1
  | succ fuel ih =>
    intro buf1 buf2 out1 out2 n1 n2 b b1 b2 t hb hsize hbuf1 hbuf2 h1 h2
    cases hahead : t.ahead with
    | nil =>
      obtain ⟨c1, hr1, _⟩ := read_none hb hsize buf1 hahead
      obtain ⟨c2, hr2, _⟩ := read_none hb hsize buf2 hahead
      obtain ⟨rfl, -⟩ := buffer_read_same hr1 hr2
      simp only [findHeader, hr1, hr2, Option.bind_eq_bind, Option.bind_some] at h1 h2
      cases h1
      cases h2
      exact ⟨rfl, rfl⟩
    | cons x s =>
      obtain ⟨c1, mid1, hr1, hc, hlen1, hround1⟩ :=
        findHeader_round header fuel hb hsize buf1 hbuf1 hahead
      obtain ⟨c2, mid2, hr2, _, hlen2, hround2⟩ :=
        findHeader_round header fuel hb hsize buf2 hbuf2 hahead
      obtain ⟨rfl, -⟩ := buffer_read_same hr1 hr2
      rw [hround1] at h1
      rw [hround2] at h2
      split at h1 <;> rename_i hx
      · rw [if_pos hx] at h2
        cases h1
        cases h2
        exact ⟨rfl, rfl⟩
      · rw [if_neg hx] at h2
        obtain ⟨⟨d1, end1, m1⟩, hf1, h1⟩ := Option.map_eq_some_iff.mp h1
        obtain ⟨⟨d2, end2, m2⟩, hf2, h2⟩ := Option.map_eq_some_iff.mp h2
        obtain ⟨rfl, rfl⟩ := ih hc (by rw [Tape.size_read]; exact hsize) hlen1 hlen2 hf1 hf2
        cases h1
        cases h2
        exact ⟨rfl, rfl⟩

theorem load_overwrite_at (buf xs : List UInt8) (off i : Nat) (hoff : off ≤ buf.length)
    (hi : i < xs.length) : load (overwrite buf off xs) (off + i : Nat) = some xs[i] := by
  have hlen : (buf.take off).length = off := by
    rw [List.length_take]
    omega
  unfold load overwrite
  rw [if_pos (by omega), Int.toNat_natCast, List.append_assoc, List.getElem?_append_right (by omega),
    hlen, Nat.add_sub_cancel_left, List.getElem?_append_left hi, List.getElem?_eq_getElem hi]

theorem load_behind (buf xs : List UInt8) {i : Nat} (hi : xs.length ≤ i) :
    load (overwrite buf 0 xs) i = buf[i]? := by
  unfold load overwrite
  rw [if_pos (by omega), Int.toNat_natCast, List.take_zero, List.nil_append,
    List.getElem?_append_right hi, List.getElem?_drop, Nat.zero_add, Nat.add_sub_cancel' hi]

/-- A collection that has a full header in front of it goes by its two size bytes. -/
theorem collect_header (length : UInt8 → UInt8 → Int) (tail : Int) {x y : UInt8} {s : List UInt8}
    (hb : Holds b t) (hsize : t.size ≤ INT_MAX) (buf : List UInt8) (hbuf : 3 ≤ buf.length)
    (ht : t.ahead = x :: y :: s) :
    ∃ c out, buffer_read b buf 1 2 = some (c, out, 2) ∧
      collect length tail buf b =
        if tail + length x y > buffer_size c then some (.waits (buffer_rewind c 3).1)
        else (buffer_read c out 3 (length x y + tail)).map
          fun r => .full r.1 r.2.1 (length x y) := by
  have hmin : min 2 t.ahead.length = 2 := by rw [ht]; simp
  have hfull : ¬ buffer_size b < 2 := by
    rw [buffer_size.spec hb hsize, ht]
    simp only [List.length_cons]
    omega
  obtain ⟨c, hr, _⟩ := buffer_read.spec hb hsize buf 1 2 (by decide) (by omega)
  rw [hmin, ht] at hr
  have hr' : buffer_read b buf 1 2 = some (c, overwrite buf 1 [x, y], 2) := hr
  have hx : load (overwrite buf 1 [x, y]) 1 = some x :=
    load_overwrite_at buf [x, y] 1 0 (by omega) (by simp)
  have hy : load (overwrite buf 1 [x, y]) 2 = some y :=
    load_overwrite_at buf [x, y] 1 1 (by omega) (by simp)
  refine ⟨c, _, hr', ?_⟩
  simp only [collect, if_neg hfull, hr', hx, hy, Option.bind_eq_bind, Option.bind_some,
    Option.map_eq_bind]
  rfl

def Collected.buffer : Collected → buffer_t
  | .waits b => b
  | .full b _ _ => b

def Whole.buffer : Whole → buffer_t
  | .returns b => b
  | .copies b _ _ => b

/-- Two collections leave the same buffer, whatever their arrays held. -/
theorem collect_same {length : UInt8 → UInt8 → Int} {tail : Int} {buf1 buf2 : List UInt8}
    {c1 c2 : Collected} (hb : Holds b t) (hsize : t.size ≤ INT_MAX) (hbuf1 : 3 ≤ buf1.length)
    (hbuf2 : 3 ≤ buf2.length) (h1 : collect length tail buf1 b = some c1)
    (h2 : collect length tail buf2 b = some c2) : c1.buffer = c2.buffer := by
  by_cases hfew : buffer_size b < 2
  · rw [collect, if_pos hfew] at h1 h2
    cases h1
    cases h2
    rfl
  · rw [buffer_size.spec hb hsize] at hfew
    obtain ⟨x, s, hx⟩ := List.exists_cons_of_length_pos (l := t.ahead) (by omega)
    rw [hx, List.length_cons] at hfew
    obtain ⟨y, s, rfl⟩ := List.exists_cons_of_length_pos (l := s) (by omega)
    obtain ⟨d1, mid1, hr1, hcollect1⟩ := collect_header length tail hb hsize buf1 hbuf1 hx
    obtain ⟨d2, mid2, hr2, hcollect2⟩ := collect_header length tail hb hsize buf2 hbuf2 hx
    obtain ⟨rfl, -⟩ := buffer_read_same hr1 hr2
    rw [hcollect1] at h1
    rw [hcollect2] at h2
    split at h1 <;> rename_i hshort
    · rw [if_pos hshort] at h2
      cases h1
      cases h2
      rfl
    · rw [if_neg hshort] at h2
      obtain ⟨⟨e1, end1, m1⟩, hm1, h1⟩ := Option.map_eq_some_iff.mp h1
      obtain ⟨⟨e2, end2, m2⟩, hm2, h2⟩ := Option.map_eq_some_iff.mp h2
      obtain ⟨rfl, -⟩ := buffer_read_same hm1 hm2
      cases h1
      cases h2
      rfl

theorem findHeader_length (fuel : Nat) :
    ∀ {buf out : List UInt8} {n : Nat} {b b' : buffer_t},
      findHeader header fuel buf b = some (b', out, n) → out.length = buf.length := by
  induction fuel with
  | zero =>
    intro buf out n b b' h
    cases h
  | succ fuel ih =>
    intro buf out n b b' h
    obtain ⟨⟨c, mid, m⟩, hr, h⟩ := Option.bind_eq_some_iff.mp h
    dsimp only at h
    split at h
    · obtain ⟨x, -, h⟩ := Option.bind_eq_some_iff.mp h
      split at h
      · cases h
        exact buffer_read_length hr
      · obtain ⟨⟨d, last, e⟩, hf, h⟩ := Option.bind_eq_some_iff.mp h
        cases h
        exact (ih hf).trans (buffer_read_length hr)
    · cases h
      exact buffer_read_length hr

/-- Where a search stops, the buffer holds what is left. -/
theorem findHeader_holds {f : Format UInt8} {buf out : List UInt8} {fuel n : Nat} {b' : buffer_t}
    (hb : Holds b t) (hsize : t.size ≤ INT_MAX) (hbuf : 0 < buf.length)
    (hfuel : t.ahead.length < fuel) (h : findHeader f.header fuel buf b = some (b', out, n)) :
    ∃ k, Holds b' (t.read k) := by
  rcases f.split_header t.ahead with hnone | ⟨junk, s, hs, hjunk⟩
  · obtain ⟨c, mid, hf, hc⟩ :=
      findHeader_absent f.header t.ahead fuel buf b t hb hsize hbuf rfl hnone hfuel
    cases hf.symm.trans h
    exact ⟨_, hc⟩
  · have hlen := congrArg List.length hs
    simp only [List.length_append, List.length_cons] at hlen
    obtain ⟨c, hf, hc⟩ :=
      findHeader.spec f.header junk fuel buf s b t hb hsize hbuf hs hjunk (by omega)
    cases hf.symm.trans h
    exact ⟨_, hc⟩

theorem getTape_none {f : Format UInt8} {p : packet_t} (h : getTape f p t = none) :
    ∃ q rest, f.parse t.ahead = .frame q rest ∧ PACKET_SIZE < q.length := by
  unfold getTape at h
  split at h
  · rename_i q rest hparse
    split at h
    · cases h
    · exact ⟨q, rest, hparse, by omega⟩
  · cases h
  · cases h
  · cases h

/-- Two calls that stand before the same final copy, with the same buffer, end in the same way. -/
theorem copy_same {f : Format UInt8} {w1 w2 : Whole} (h1 : Prepares f t w1) (h2 : Prepares f t w2)
    (hbuffer : w1.buffer = w2.buffer) (p : packet_t) : copy p w1 = copy p w2 := by
  have hframe : ∀ {t' : Tape UInt8} {q rest : List UInt8}, f.parse t.ahead = .frame q rest →
      ¬ ∀ p, getTape f p t = some (-1, p, t') := by
    intro t' q rest hparse hall
    have := hall blank
    simp only [getTape, hparse] at this
    split at this <;> cases this
  cases w1 with
  | returns b1 =>
    cases w2 with
    | returns b2 =>
      cases hbuffer
      rfl
    | copies b2 buf2 size2 =>
      obtain ⟨t', -, hall⟩ := h1
      obtain ⟨q, rest, hparse, -⟩ := h2
      exact absurd hall (hframe hparse)
  | copies b1 buf1 size1 =>
    cases w2 with
    | returns b2 =>
      obtain ⟨q, rest, hparse, -⟩ := h1
      obtain ⟨t', -, hall⟩ := h2
      exact absurd hall (hframe hparse)
    | copies b2 buf2 size2 =>
      cases hbuffer
      obtain ⟨q, rest, hparse1, rfl, hlen1, hdata1, -⟩ := h1
      obtain ⟨q', rest', hparse2, rfl, hlen2, hdata2, -⟩ := h2
      cases hparse1.symm.trans hparse2
      have hfill : p.fill buf1 3 q.length = p.fill buf2 3 q.length := by
        by_cases hq : q.length ≤ PACKET_SIZE
        · have hfill1 : p.fill buf1 3 q.length = _ := fill.spec p buf1 3 q.length hq hlen1
          have hfill2 : p.fill buf2 3 q.length = _ := fill.spec p buf2 3 q.length hq hlen2
          simp only [hfill1, hfill2, hdata1, hdata2]
        · rw [fill_too_long p buf1 3 q.length (by omega), fill_too_long p buf2 3 q.length (by omega)]
      simp only [copy, hfill]

end dect_prog.package

namespace dect_prog.flashloader

open dect_prog.package

theorem flashpacketWhole_collects {l : Locals} {b : buffer_t} {w : Whole}
    (h : flashpacketWhole l b = some w) :
    ∃ c mid n col, findHeader UART_PACKET_HEADER (b.count.toNat + 1) l.buf b = some (c, mid, n) ∧
      collect ofLe16 2 mid c = some col ∧ w.buffer = col.buffer := by
  obtain ⟨⟨c, mid, n⟩, hf, h⟩ := Option.bind_eq_some_iff.mp h
  obtain ⟨col, hc, h⟩ := Option.bind_eq_some_iff.mp h
  refine ⟨c, mid, n, col, hf, hc, ?_⟩
  cases col with
  | waits b' =>
    cases h
    rfl
  | full b' buf size =>
    obtain ⟨lo, -, h⟩ := Option.bind_eq_some_iff.mp h
    obtain ⟨hi, -, h⟩ := Option.bind_eq_some_iff.mp h
    dsimp only at h
    split at h <;> (cases h; rfl)

/-- Nothing that `flashpacket_get` does depends on its uninitialised locals. -/
theorem flashpacket_get_same {b : buffer_t} {t : Tape UInt8} (hb : Holds b t) (h0 : 0 < t.size)
    (hcap : t.size ≤ 5000) (l l' : Locals) (p : packet_t) :
    flashpacket_get l p b = flashpacket_get l' p b := by
  have hsize : (t.size : Int) ≤ INT_MAX := by
    unfold INT_MAX
    omega
  obtain ⟨w, hw, hprep⟩ := flashpacketWhole.spec l hb h0 hcap
  obtain ⟨w', hw', hprep'⟩ := flashpacketWhole.spec l' hb h0 hcap
  obtain ⟨c, mid, n, col, hf, hcol, hbuffer⟩ := flashpacketWhole_collects hw
  obtain ⟨c', mid', n', col', hf', hcol', hbuffer'⟩ := flashpacketWhole_collects hw'
  have hlen := (findHeader_length _ hf).trans l.buf_length
  have hlen' := (findHeader_length _ hf').trans l'.buf_length
  have hfuel : t.ahead.length < b.count.toNat + 1 := by
    rw [hb.count]
    omega
  have hbuf := l.buf_length
  have hbuf' := l'.buf_length
  obtain ⟨rfl, -⟩ := findHeader_same _ hb hsize (by omega) (by omega) hf hf'
  obtain ⟨k, hc⟩ := findHeader_holds (f := format) hb hsize (by omega) hfuel hf
  have hsame := collect_same hc (by rw [Tape.size_read]; exact hsize) (by omega) (by omega) hcol hcol'
  rw [flashpacket_get_eq, flashpacket_get_eq, hw, hw', Option.bind_some, Option.bind_some]
  exact copy_same hprep hprep' (by rw [hbuffer, hbuffer', hsame]) p

end dect_prog.flashloader

namespace dect_prog.busmail

open dect_prog.package

/-- `busmail_get` also returns where it read nothing. -/
theorem busmailWhole_collects {l : Locals} {b : buffer_t} {w : Whole}
    (h : busmailWhole l b = some w) :
    ∃ c mid n, findHeader BUSMAIL_PACKET_HEADER (b.count.toNat + 1) l.buf b = some (c, mid, n) ∧
      ((n = 0 ∧ w.buffer = c) ∨
        (n ≠ 0 ∧ ∃ col, collect ofBe16 1 mid c = some col ∧ w.buffer = col.buffer)) := by
  obtain ⟨⟨c, mid, n⟩, hf, h⟩ := Option.bind_eq_some_iff.mp h
  refine ⟨c, mid, n, hf, ?_⟩
  by_cases hn : n = 0
  · simp only [hn, if_true] at h
    cases h
    exact .inl ⟨hn, rfl⟩
  · simp only [hn, if_false] at h
    obtain ⟨col, hc, h⟩ := Option.bind_eq_some_iff.mp h
    refine .inr ⟨hn, col, hc, ?_⟩
    cases col with
    | waits b' =>
      cases h
      rfl
    | full b' buf size =>
      obtain ⟨crc, -, h⟩ := Option.bind_eq_some_iff.mp h
      split at h <;> (cases h; rfl)

theorem busmailWhole_same {b : buffer_t} {t : Tape UInt8} (hb : Holds b t)
    (hsize : (t.size : Int) ≤ INT_MAX) {l l' : Locals} {w w' : Whole}
    (hw : busmailWhole l b = some w) (hw' : busmailWhole l' b = some w') :
    w.buffer = w'.buffer := by
  obtain ⟨c, mid, n, hf, hcol⟩ := busmailWhole_collects hw
  obtain ⟨c', mid', n', hf', hcol'⟩ := busmailWhole_collects hw'
  have hlen := (findHeader_length _ hf).trans l.buf_length
  have hlen' := (findHeader_length _ hf').trans l'.buf_length
  have hfuel : t.ahead.length < b.count.toNat + 1 := by
    rw [hb.count]
    omega
  have hbuf := l.buf_length
  have hbuf' := l'.buf_length
  obtain ⟨rfl, rfl⟩ := findHeader_same _ hb hsize (by omega) (by omega) hf hf'
  obtain ⟨k, hc⟩ := findHeader_holds (f := format) hb hsize (by omega) hfuel hf
  rcases hcol with ⟨hn, hbuffer⟩ | ⟨hn, col, hcol, hbuffer⟩
  · rcases hcol' with ⟨-, hbuffer'⟩ | ⟨hn', -⟩
    · rw [hbuffer, hbuffer']
    · exact absurd hn hn'
  · rcases hcol' with ⟨hn', -⟩ | ⟨-, col', hcol', hbuffer'⟩
    · exact absurd hn' hn
    · rw [hbuffer, hbuffer']
      exact collect_same hc (by rw [Tape.size_read]; exact hsize) (by omega) (by omega) hcol hcol'

end dect_prog.busmail

/-! ## The law -/

namespace dect_prog

open dect_prog.package

/-- Any two calls on the buffer return the same, with the same packet and the same buffer, whatever
their uninitialised locals hold. -/
def BlindToLocals (get : Locals → packet_t → buffer_t → Option (Int × packet_t × buffer_t))
    (b : buffer_t) : Prop :=
  ∀ l l' p, get l p b = get l' p b

theorem zeros_length : (List.replicate 5000 (0 : UInt8)).length = 5000 := List.length_replicate

/-- Locals in which only `start` is not 0. -/
def localsAt (start : Int) : Locals := ⟨start, List.replicate 5000 0, zeros_length⟩

/-- `flashpacket_get` never depends on its uninitialised locals, and `busmail_get` depends on
`start` exactly when a whole packet is at the front of the buffer. -/
theorem packet_extraction_is_blind_to_locals_iff (b : buffer_t) (hring : Ring b)
    (h0 : 0 < b.buf_size) :
    (b.buf_size ≤ 5000 → BlindToLocals flashloader.flashpacket_get b) ∧
    (b.buf_size ≤ 500 →
      (BlindToLocals busmail.busmail_get b ↔ busmail.format.whole (contents b) = none)) := by
  obtain ⟨t, hb, hsize, hmax⟩ := hring.holds
  refine ⟨fun hcap l l' p => flashloader.flashpacket_get_same hb (by omega) (by omega) l l' p,
    fun hcap => ?_⟩
  rw [hb.contents hmax]
  constructor
  · intro hblind
    rcases busmail.busmailWhole.cases (localsAt (-5000)) hb (by omega) (by omega) with
      ⟨hnone, -⟩ | ⟨junk, s, x, y, n, b', hs, -, hfull, -, -, hw⟩
    · exact hnone
    · -- In front of the array there is no checksum byte, and with 0 the packet function returns.
      exfalso
      have hlen := congrArg List.length hs
      have hcells : t.past.length + t.ahead.length = t.size := rfl
      have htail : busmail.format.trailerLength = 1 := rfl
      simp only [List.length_append, List.length_cons] at hlen
      have houtside : busmail.busmail_get (localsAt (-5000)) blank b = none := by
        have hload : ¬ 0 ≤ (localsAt (-5000)).start + ((3 + n : Nat) : Int) := by
          show ¬ 0 ≤ (-5000 : Int) + ((3 + n : Nat) : Int)
          omega
        rw [busmail.busmail_get_eq, hw, load, if_neg hload]
        rfl
      have hnone : busmail.busmail_get (localsAt 0) blank b = none :=
        (hblind _ (localsAt (-5000)) _).trans houtside
      have hspec := busmail.busmail_get.spec (localsAt 0) rfl t.size (by omega) (by omega) blank b
        t hb rfl
      cases htape : getTape busmail.format blank t with
      | none =>
        -- Only a payload that is too long gives nothing, and none is.
        obtain ⟨q, rest, hparse, hq⟩ := getTape_none htape
        obtain ⟨junk', x', y', hahead, -, -⟩ := busmail.format.parse_frame hparse
        have hlen' := congrArg List.length hahead
        simp only [List.length_append, List.length_cons] at hlen'
        unfold PACKET_SIZE at hq
        omega
      | some r =>
        obtain ⟨ret, p', t'⟩ := r
        rw [htape] at hspec
        obtain ⟨b'', hsome, -⟩ := hspec
        cases hsome.symm.trans hnone
  · intro hnone l l' p
    rcases busmail.busmailWhole.cases l hb (by omega) (by omega) with
      ⟨-, b1, hw, -⟩ | ⟨_, _, _, _, n, _, _, hn, _⟩
    · rcases busmail.busmailWhole.cases l' hb (by omega) (by omega) with
        ⟨-, b2, hw', -⟩ | ⟨_, _, _, _, n, _, _, hn, _⟩
      · have hsame : b1 = b2 := busmail.busmailWhole_same hb hmax hw hw'
        rw [busmail.busmail_get_eq, busmail.busmail_get_eq, hw, hw', hsame]
      · cases hnone.symm.trans hn
    · cases hnone.symm.trans hn

/-- A whole frame on the link of the flash loader, and the beginning of one on the bus. -/
theorem packet_extraction_is_blind_to_locals_iff_for_a_header :
    (∃ b, Reachable flashloader.flashpacket_get 5000 b ∧
      contents b = flashloader.make_tx_packet [7] ∧
      BlindToLocals flashloader.flashpacket_get b) ∧
    ∃ b, Reachable busmail.busmail_get 500 b ∧ contents b = [0x10] ∧
      BlindToLocals busmail.busmail_get b := by
  constructor
  · obtain ⟨b, hreach, hb⟩ := reachable_with (by decide) flashloader.flash_capacity
      (flashloader.make_tx_packet [7]) (by decide)
    obtain ⟨t, hholds, ht⟩ := flashloader.reachable_holds hreach
    have hring := hholds.ring (by rw [ht]; decide)
    have hsize : b.buf_size = 5000 := by rw [hholds.buf_size, ht]; rfl
    exact ⟨b, hreach, hb,
      (packet_extraction_is_blind_to_locals_iff b hring (by omega)).1 (by omega)⟩
  · obtain ⟨b, hreach, hb⟩ := reachable_with (by decide : 0 < 500) (by decide) [0x10] (by decide)
    obtain ⟨t, hholds, ht⟩ := busmail.reachable_holds hreach
    have hring := hholds.ring (by rw [ht]; decide)
    have hsize : b.buf_size = 500 := by rw [hholds.buf_size, ht]; rfl
    exact ⟨b, hreach, hb,
      ((packet_extraction_is_blind_to_locals_iff b hring (by omega)).2 (by omega)).mpr
        (by rw [hb]; decide)⟩

/-- A whole frame with one payload byte: with 0 in `start` it is delivered, and with 1 there is a
zero that was never written in the place of its checksum. -/
theorem a_whole_frame_is_lost_for_another_start :
    ∃ b, Reachable busmail.busmail_get 500 b ∧ contents b = busmail.make_tx_packet [7] ∧
      (∃ p b', busmail.busmail_get (localsAt 0) blank b = some (0, p, b') ∧ p.payload = [7]) ∧
      ∃ b', busmail.busmail_get (localsAt 1) blank b = some (-1, blank, b') := by
  obtain ⟨b, hreach, hcontents⟩ := reachable_with (by decide : 0 < 500) (by decide)
    (busmail.make_tx_packet [7]) (by decide)
  obtain ⟨t, hb, ht⟩ := busmail.reachable_holds hreach
  have hmax : (t.size : Int) ≤ INT_MAX := by rw [ht]; decide
  have hahead : t.ahead = [0x10, 0, 1, 7, 7] := by
    rw [← hb.contents hmax, hcontents]
    rfl
  refine ⟨b, hreach, hcontents, ?_, ?_⟩
  · have hparse : busmail.format.parse t.ahead = .frame [7] [] := by rw [hahead]; decide
    obtain ⟨b', hget, -⟩ :=
      (busmail.busmail_get.spec (localsAt 0) rfl 500 (by decide) (by decide)).frame hb ht (by decide)
        hparse (by decide) blank
    exact ⟨_, b', hget, carry_payload ..⟩
  · rcases busmail.busmailWhole.cases (localsAt 1) hb (by omega) (by omega) with
      ⟨hnone, -⟩ | ⟨junk, s, x, y, n, b', hs, hn, hfull, -, -, hw⟩
    · rw [hahead] at hnone
      exact absurd hnone (by decide)
    · -- The frame is the whole of the buffer.
      have hone : busmail.format.whole t.ahead = some 1 := by rw [hahead]; decide
      obtain rfl : n = 1 := Option.some.inj (hn.symm.trans hone)
      rw [hahead] at hs
      have hjunk : junk = [] := by
        have hlen := congrArg List.length hs
        have htail : busmail.format.trailerLength = 1 := rfl
        simp only [List.length_append, List.length_cons, List.length_nil] at hlen
        exact List.eq_nil_of_length_eq_zero (by omega)
      subst hjunk
      cases hs
      have hload : load (overwrite (localsAt 1).buf 0 (busmail.format.header :: 0 :: 1 ::
          [7, 7].take (1 + busmail.format.trailerLength)))
          ((localsAt 1).start + ((3 + 1 : Nat) : Int)) = some 0 := by
        have hbehind := load_behind (localsAt 1).buf
          [busmail.format.header, 0, 1, 7, 7] (i := 5) (by simp)
        have hzero : (localsAt 1).buf[5]? = some 0 := by
          unfold localsAt
          rw [List.getElem?_replicate, if_pos (by decide)]
        exact hbehind.trans hzero
      rw [hload, Option.map_some, if_pos (by decide)] at hw
      refine ⟨b', ?_⟩
      rw [busmail.busmail_get_eq, hw]
      rfl

end dect_prog
