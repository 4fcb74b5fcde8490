-- The frames of the flash link (flashloader.c): 'F', the length with its low
-- byte first, the payload, and the 16-bit CRC with its low byte first.
import DectProg.Package
import DectProg.Crc

open tape framing dect_prog.buffer dect_prog.package dect_prog.crc

namespace dect_prog.flashloader

def UART_PACKET_HEADER : UInt8 := 0x46

/-- Header, length lsb and msb, and crc lsb and msb. -/
def PACKET_OVER_HEAD : Int := 5

def make_tx_packet (data : List UInt8) : List UInt8 :=
  let data_size := data.length
  let crc := crc16 data
  UART_PACKET_HEADER :: UInt8.ofNat data_size :: UInt8.ofNat (data_size / 256) ::
    (data ++ [crc.toUInt8, (crc >>> 8).toUInt8])

def flashpacket_get (l : Locals) (p : packet_t) (b : buffer_t) :
    Option (Int × packet_t × buffer_t) := do
  -- Do we have a start of frame?
  let (b, buf, _) ← findHeader UART_PACKET_HEADER (b.count.toNat + 1) l.buf b
  match ← collect ofLe16 2 buf b with
  | .waits b => some (-1, p, b)
  | .full b buf size =>
    -- Read packet checksum
    let crc := word (← load buf (PACKET_OVER_HEAD + size - 2))
      (← load buf (PACKET_OVER_HEAD + size - 1))
    -- Calculate checksum over data portion
    let crc_calc := crc16 ((buf.drop 3).take size.toNat)
    if crc ≠ crc_calc then
      some (-1, p, b)
    else do
      -- Copy data portion to packet
      let p ← p.fill buf 3 size
      some (0, p, b)

/-- `flashpacket_get` up to its final copy. -/
def flashpacketWhole (l : Locals) (b : buffer_t) : Option Whole := do
  let (b, buf, _) ← findHeader UART_PACKET_HEADER (b.count.toNat + 1) l.buf b
  match ← collect ofLe16 2 buf b with
  | .waits b => some (.returns b)
  | .full b buf size =>
    let crc := word (← load buf (PACKET_OVER_HEAD + size - 2))
      (← load buf (PACKET_OVER_HEAD + size - 1))
    let crc_calc := crc16 ((buf.drop 3).take size.toNat)
    if crc ≠ crc_calc then some (.returns b) else some (.copies b buf size)

theorem flashpacket_get_eq (l : Locals) (p : packet_t) (b : buffer_t) :
    flashpacket_get l p b = (flashpacketWhole l b).bind (copy p) := by
  unfold flashpacket_get flashpacketWhole
  simp only [Option.bind_eq_bind, Option.bind_assoc]
  congr 1
  funext ⟨b1, buf, _⟩
  congr 1
  funext c
  cases c with
  | waits b2 => rfl
  | full b2 buf2 size =>
    simp only [Option.bind_assoc]
    congr 1
    funext lo
    congr 1
    funext hi
    split <;> rfl

variable {σ : Type}

/-- The handler, for any dispatcher in the place of `flashloader_dispatch`. -/
def handle_flashloader_package (dispatch : σ → packet_t → Outcome σ) (s : σ) (buf : buffer_t)
    (e : Event) : Outcome (σ × buffer_t) :=
  handlePackage flashpacket_get dispatch s buf e

/-! ## The format -/

/-- `flashpacket_get` rewinds a byte also when it found nothing to read. -/
def format : Format UInt8 where
  header := UART_PACKET_HEADER
  length a b := a.toNat + 256 * b.toNat
  announce n := (UInt8.ofNat n, UInt8.ofNat (n / 256))
  maxLength := 65535
  trailer data := [(crc16 data).toUInt8, (crc16 data >>> 8).toUInt8]
  trailerLength := 2
  keepsLast := true
  trailer_length _ := rfl
  length_announce n hn := by
    simp only [UInt8.toNat_ofNat']
    omega

theorem make_tx_packet_eq (data : List UInt8) : make_tx_packet data = format.encode data := rfl

theorem ofLe16_nat (a b : UInt8) : ofLe16 a b = (a.toNat + 256 * b.toNat : Nat) := by
  unfold ofLe16
  omega

/-- Before its final copy `flashpacket_get` has the payload of the frame at the front of the ring
buffer in its array. -/
theorem flashpacketWhole.spec (l : Locals) {b : buffer_t} {t : Tape UInt8} (hb : Holds b t)
    (h0 : 0 < t.size) (hcap : t.size ≤ 5000) :
    ∃ w, flashpacketWhole l b = some w ∧ Prepares format t w := by
  have hINT : (5000 : Int) ≤ INT_MAX := by decide
  have hbuf := l.buf_length
  have hcount := hb.count
  rcases format.split_header t.ahead with hnone | ⟨junk, s, hs, hjunk⟩
  · -- No header: one byte is rewound, also when there was none to read.
    obtain ⟨b1, buf1, hf, hb1⟩ := findHeader_absent UART_PACKET_HEADER t.ahead (b.count.toNat + 1)
      l.buf b t hb (by omega) (by omega) rfl hnone (by omega)
    have hcells : t.past.length + t.ahead.length = t.size := rfl
    obtain ⟨b2, hc, hb2⟩ := collect_few ofLe16 2 buf1 hb1 (by rw [Tape.size_read]; omega)
      (by simp only [Tape.read_past, List.length_append, List.take_length]; omega) (by simp)
    refine ⟨.returns b2, by simp [flashpacketWhole, hf, hc], _, hb2, fun p => ?_⟩
    have hback : format.keepsLast = true ∨ t.ahead ≠ [] := .inl rfl
    simp only [getTape, format.parse_absent hnone, if_pos hback]
  · obtain ⟨b1, hf, hb1⟩ := findHeader.spec UART_PACKET_HEADER junk (b.count.toNat + 1) l.buf s b
      t hb (by omega) (by omega) hs hjunk (by rw [hcount, hs]; simp; omega)
    rcases collect.spec format ofLe16 ofLe16_nat hb1 (by omega) l.buf hbuf hs hjunk with
      ⟨b2, hc, hb2, hparse⟩ | ⟨x, y, s', b2, rfl, hfull, hc, hb2, hparse⟩
    · have hc' : collect ofLe16 2 (overwrite l.buf 0 [UART_PACKET_HEADER]) b1 = _ := hc
      have hplace : t.ahead.length - (format.header :: s).length = junk.length := by
        rw [hs, List.length_append, Nat.add_sub_cancel]
      refine ⟨.returns b2, by simp [flashpacketWhole, hf, hc'], _, hb2, fun p => ?_⟩
      simp only [getTape, hparse, hplace]
    · generalize hn : format.length x y = n at *
      have hlo := collected_trailer l.buf s' format.header x y n 2 0 (by decide) hfull
      have hhi := collected_trailer l.buf s' format.header x y n 2 1 (by decide) hfull
      have hdata := collected_payload l.buf s' format.header x y n 2 hfull
      have hlt : n + 1 < s'.length := hfull
      have hcrc : word s'[n] s'[n + 1] = crc16 (s'.take n) ↔
          (s'.drop n).take 2 = format.trailer (s'.take n) := by
        rw [word_eq_iff, List.drop_eq_getElem_cons (by omega), List.take_succ_cons,
          List.drop_eq_getElem_cons hlt, List.take_succ_cons, List.take_zero]
        simp [format]
      have hc' : collect ofLe16 2 (overwrite l.buf 0 [UART_PACKET_HEADER]) b1 = some (.full b2
        (overwrite l.buf 0 (format.header :: x :: y :: s'.take (n + 2))) n) := hc
      have hoff : PACKET_OVER_HEAD + (n : Int) - 2 = (3 + n + 0 : Nat) := by
        unfold PACKET_OVER_HEAD
        omega
      have hoff' : PACKET_OVER_HEAD + (n : Int) - 1 = (3 + n + 1 : Nat) := by
        unfold PACKET_OVER_HEAD
        omega
      refine ⟨_, ?_, prepares_collected hs hcap hbuf hfull hcrc hb2 hparse⟩
      simp only [flashpacketWhole, hf, hc', Option.bind_eq_bind, Option.bind_some, hoff, hoff',
        hlo, hhi, Int.toNat_natCast, hdata]
      exact (apply_ite some _ _ _).symm

/-- `flashpacket_get` takes the frames of the format off the ring buffer. -/
theorem flashpacket_get.spec (l : Locals) (cap : Nat) (h0 : 0 < cap) (hcap : cap ≤ 5000) :
    Gets format cap (flashpacket_get l) := by
  apply Gets.of_prepares (flashpacket_get_eq l)
  intro b t hb ht
  exact flashpacketWhole.spec l hb (by omega) (by omega)

end dect_prog.flashloader
