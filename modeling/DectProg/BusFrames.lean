-- The frames of the busmail link (busmail.c): 0x10, the length with its high
-- byte first, the payload, and the sum of the payload bytes.
import DectProg.Package

open tape framing dect_prog.buffer dect_prog.package

namespace dect_prog.busmail

def BUSMAIL_PACKET_HEADER : UInt8 := 0x10

def BUSMAIL_PACKET_OVER_HEAD : Int := 4

/-- The loop that both ends of the busmail link run over a payload. -/
def checksum (data : List UInt8) : UInt8 := data.foldl (fun crc x => crc + x) 0

def make_tx_packet (data : List UInt8) : List UInt8 :=
  let data_size := data.length
  BUSMAIL_PACKET_HEADER :: UInt8.ofNat (data_size / 256) :: UInt8.ofNat data_size ::
    (data ++ [checksum data])

/-- The size of two bytes, the high byte first. -/
def ofBe16 (b0 b1 : UInt8) : Int := 256 * b0.toNat + b1.toNat

/-- `start` is not initialised, and is added to the place of the checksum byte. -/
def busmail_get (l : Locals) (p : packet_t) (b : buffer_t) :
    Option (Int × packet_t × buffer_t) := do
  -- Do we have a start of frame?
  let (b, buf, read) ← findHeader BUSMAIL_PACKET_HEADER (b.count.toNat + 1) l.buf b
  -- Return if we did not read any data
  if read = 0 then
    some (-1, p, b)
  else
    match ← collect ofBe16 1 buf b with
    | .waits b => some (-1, p, b)
    | .full b buf size =>
      -- Read packet checksum
      let crc ← load buf (l.start + BUSMAIL_PACKET_OVER_HEAD + size - 1)
      -- Calculate checksum over data portion
      let crc_calc := checksum ((buf.drop 3).take size.toNat)
      if crc ≠ crc_calc then
        some (-1, p, b)
      else do
        -- Copy data portion to packet
        let p ← p.fill buf 3 size
        some (0, p, b)

/-- `busmail_get` up to its final copy. -/
def busmailWhole (l : Locals) (b : buffer_t) : Option Whole := do
  let (b, buf, read) ← findHeader BUSMAIL_PACKET_HEADER (b.count.toNat + 1) l.buf b
  if read = 0 then
    some (.returns b)
  else
    match ← collect ofBe16 1 buf b with
    | .waits b => some (.returns b)
    | .full b buf size =>
      let crc ← load buf (l.start + BUSMAIL_PACKET_OVER_HEAD + size - 1)
      let crc_calc := checksum ((buf.drop 3).take size.toNat)
      if crc ≠ crc_calc then some (.returns b) else some (.copies b buf size)

theorem busmail_get_eq (l : Locals) (p : packet_t) (b : buffer_t) :
    busmail_get l p b = (busmailWhole l b).bind (copy p) := by
  unfold busmail_get busmailWhole
  simp only [Option.bind_eq_bind, Option.bind_assoc]
  congr 1
  funext ⟨b1, buf, read⟩
  dsimp only
  split
  · rfl
  · rw [Option.bind_assoc]
    congr 1
    funext c
    cases c with
    | waits b2 => rfl
    | full b2 buf2 size =>
      simp only [Option.bind_assoc]
      congr 1
      funext crc
      split <;> rfl

variable {σ : Type}

/-- `handle_app_package` and `handle_nvs_package`, for any dispatcher in the place of
`busmail_dispatch`. The two bodies are the same. -/
def handleBusmailPackage (dispatch : σ → packet_t → Outcome σ) (s : σ) (buf : buffer_t)
    (e : Event) : Outcome (σ × buffer_t) :=
  handlePackage busmail_get dispatch s buf e

/-! ## The format -/

/-- `busmail_get` rewinds nothing when it found nothing to read. -/
def format : Format UInt8 where
  header := BUSMAIL_PACKET_HEADER
  length a b := 256 * a.toNat + b.toNat
  announce n := (UInt8.ofNat (n / 256), UInt8.ofNat n)
  maxLength := 65535
  trailer data := [checksum data]
  trailerLength := 1
  keepsLast := false
  trailer_length _ := rfl
  length_announce n hn := by
    simp only [UInt8.toNat_ofNat']
    omega

theorem make_tx_packet_eq (data : List UInt8) : make_tx_packet data = format.encode data := rfl

theorem ofBe16_nat (a b : UInt8) : ofBe16 a b = (256 * a.toNat + b.toNat : Nat) := by
  unfold ofBe16
  omega

/-- Before its final copy `busmail_get` returns, or it has a whole packet in its array and compares
the byte at the place `start + 3 + n` of the array with the checksum. -/
theorem busmailWhole.cases (l : Locals) {b : buffer_t} {t : Tape UInt8} (hb : Holds b t)
    (h0 : 0 < t.size) (hcap : t.size ≤ 5000) :
    (format.whole t.ahead = none ∧
      ∃ b', busmailWhole l b = some (.returns b') ∧ Prepares format t (.returns b')) ∨
    ∃ (junk s : List UInt8) (x y : UInt8) (n : Nat) (b' : buffer_t),
      t.ahead = junk ++ format.header :: x :: y :: s ∧ format.whole t.ahead = some n ∧
      n + format.trailerLength ≤ s.length ∧
      Holds b' (t.read (junk.length + (3 + (n + format.trailerLength)))) ∧
      (format.parse t.ahead =
        if (s.drop n).take format.trailerLength = format.trailer (s.take n) then
          .frame (s.take n) (s.drop (n + format.trailerLength))
        else .damaged (s.drop (n + format.trailerLength))) ∧
      busmailWhole l b =
        (load (overwrite l.buf 0 (format.header :: x :: y :: s.take (n + format.trailerLength)))
          (l.start + (3 + n : Nat))).map fun crc =>
        if ¬ crc = checksum (s.take n) then .returns b'
        else .copies b'
          (overwrite l.buf 0 (format.header :: x :: y :: s.take (n + format.trailerLength))) n := by
  have hINT : (5000 : Int) ≤ INT_MAX := by decide
  have hbuf := l.buf_length
  have hcount := hb.count
  have hcells : t.past.length + t.ahead.length = t.size := rfl
  rcases format.split_header t.ahead with hnone | ⟨junk, s, hs, hjunk⟩
  · -- No header: the last byte that was read is rewound.
    obtain ⟨b1, buf1, hf, hb1⟩ := findHeader_absent BUSMAIL_PACKET_HEADER t.ahead
      (b.count.toNat + 1) l.buf b t hb (by omega) (by omega) rfl hnone (by omega)
    refine .inl ⟨format.whole_absent hnone, ?_⟩
    by_cases hempty : t.ahead = []
    · refine ⟨b1, by simp [busmailWhole, hf, hempty], _, hb1, fun p => ?_⟩
      have hback : ¬ (format.keepsLast = true ∨ t.ahead ≠ []) := by simp [format, hempty]
      have hread : t.read t.ahead.length = t := by simp [hempty]
      rw [hread]
      simp only [getTape, format.parse_absent hnone, if_neg hback]
    · have hpos : 0 < t.ahead.length := List.length_pos_iff.mpr hempty
      obtain ⟨b2, hc, hb2⟩ := collect_few ofBe16 1 buf1 hb1 (by rw [Tape.size_read]; omega)
        (by simp only [Tape.read_past, List.length_append, List.take_length]; omega) (by simp)
      refine ⟨b2, by simp [busmailWhole, hf, hc, hempty], _, hb2, fun p => ?_⟩
      simp [getTape, format.parse_absent hnone, hempty]
  · obtain ⟨b1, hf, hb1⟩ := findHeader.spec BUSMAIL_PACKET_HEADER junk (b.count.toNat + 1) l.buf s
      b t hb (by omega) (by omega) hs hjunk (by rw [hcount, hs]; simp; omega)
    rcases collect.spec format ofBe16 ofBe16_nat hb1 (by omega) l.buf hbuf hs hjunk with
      ⟨b2, hc, hb2, hparse⟩ | ⟨x, y, s', b2, rfl, hfull, hc, hb2, hparse⟩
    · have hc' : collect ofBe16 1 (overwrite l.buf 0 [BUSMAIL_PACKET_HEADER]) b1 = _ := hc
      have hplace : t.ahead.length - (format.header :: s).length = junk.length := by
        rw [hs, List.length_append, Nat.add_sub_cancel]
      refine .inl ⟨format.whole_short hparse,
        b2, by simp [busmailWhole, hf, hc'], _, hb2, fun p => ?_⟩
      simp only [getTape, hparse, hplace]
    · generalize hn : format.length x y = n at *
      have hdata := collected_payload l.buf s' format.header x y n 1 hfull
      have hc' : collect ofBe16 1 (overwrite l.buf 0 [BUSMAIL_PACKET_HEADER]) b1 = some (.full b2
        (overwrite l.buf 0 (format.header :: x :: y :: s'.take (n + 1))) n) := hc
      have hoff : l.start + BUSMAIL_PACKET_OVER_HEAD + (n : Int) - 1 = l.start + (3 + n : Nat) := by
        unfold BUSMAIL_PACKET_OVER_HEAD
        omega
      refine .inr ⟨junk, s', x, y, n, b2, hs, ?_, hfull, hb2, hparse, ?_⟩
      · rw [hs, format.whole_junk _ hjunk, ← hn]
        exact format.whole_header (by rw [hn]; exact hfull)
      · simp only [busmailWhole, hf, hc', Option.bind_eq_bind, Option.bind_some, hoff,
          Int.toNat_natCast, hdata, Option.map_eq_bind]
        rw [if_neg (by omega)]
        congr 1
        funext crc
        simp only [ne_eq, Function.comp_apply]
        split <;> rfl

/-- With `start` as 0, `busmail_get` has the payload of the frame at the front of the ring buffer in
its array before its final copy. -/
theorem busmailWhole.spec (l : Locals) (hstart : l.start = 0) {b : buffer_t} {t : Tape UInt8}
    (hb : Holds b t) (h0 : 0 < t.size) (hcap : t.size ≤ 5000) :
    ∃ w, busmailWhole l b = some w ∧ Prepares format t w := by
  rcases busmailWhole.cases l hb h0 hcap with
    ⟨_, b', hw, hprep⟩ | ⟨junk, s, x, y, n, b', hs, _, hfull, hb', hparse, hw⟩
  · exact ⟨_, hw, hprep⟩
  · have hsum := collected_trailer l.buf s format.header x y n 1 0 (by decide) hfull
    have hlt : n < s.length := hfull
    have hcrc : s[n] = checksum (s.take n) ↔
        (s.drop n).take 1 = format.trailer (s.take n) := by
      rw [List.drop_eq_getElem_cons hlt, List.take_succ_cons, List.take_zero]
      simp [format]
    have hsum' : load (overwrite l.buf 0 (format.header :: x :: y ::
        s.take (n + format.trailerLength))) (l.start + (3 + n : Nat)) = some s[n] := by
      rw [hstart, Int.zero_add]
      exact hsum
    rw [hsum', Option.map_some] at hw
    exact ⟨_, hw, prepares_collected hs hcap l.buf_length hfull hcrc hb' hparse⟩

/-- With `start` as 0, `busmail_get` takes the frames of the format off the ring buffer. -/
theorem busmail_get.spec (l : Locals) (hstart : l.start = 0) (cap : Nat) (h0 : 0 < cap)
    (hcap : cap ≤ 5000) : Gets format cap (busmail_get l) := by
  apply Gets.of_prepares (busmail_get_eq l)
  intro b t hb ht
  exact busmailWhole.spec l hstart hb (by omega) (by omega)

end dect_prog.busmail
