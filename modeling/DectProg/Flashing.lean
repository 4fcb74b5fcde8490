-- The flash loader and its target as one system: the messages between them, the
-- flash of the target, and what holds in every run until the checksum is asked
-- for. The target may refuse to program a block as often as it likes.
import Mathlib.Algebra.Group.Nat.Defs
import DectProg.Confirms
import DectProg.SkipLoop

open machine dect_prog.package

namespace dect_prog.flashloader

/-! ## The target -/

/-- The `uint32_t` at a place of a message. -/
def uint32Of (r : List UInt8) (i : Nat) : Int :=
  ofLe32 (r.getD i 0) (r.getD (i + 1) 0) (r.getD (i + 2) 0) (r.getD (i + 3) 0)

def FALSE : UInt8 := 0

/-- The confirm `c` answers the request `r`; `ok` is the answer to a program request. -/
def Answers (r c : List UInt8) (ok : Bool) : Prop :=
  c.length ≤ PACKET_SIZE ∧
  (r.head? = some READ_SW_VERSION_REQ ∧ c.head? = some READ_SW_VERSION_CFM ∨
   r.head? = some WRITE_CONFIG_REQ ∧ c.head? = some WRITE_CONFIG_CFM ∨
   r.head? = some READ_PROPRIETARY_DATA_REQ ∧ c.head? = some READ_PROPRIETARY_DATA_CFM ∧
     15 ≤ c.length ∧ uint32Of c 11 ≠ 0 ∨
   r.head? = some FLASH_ERASE_REQ ∧ c.head? = some FLASH_ERASE_CFM ∨
   r.head? = some PROG_FLASH_REQ ∧ c.head? = some PROG_FLASH_CFM ∧ 8 ≤ c.length ∧
     uint32Of c 1 = uint32Of r 1 ∧ c.getD 7 0 = (if ok then TRUE else FALSE) ∨
   r.head? = some CALC_CRC32_REQ ∧ c.head? = some CALC_CRC32_CFM ∧ 13 ≤ c.length)

instance (r c : List UInt8) (ok : Bool) : Decidable (Answers r c ok) := by
  unfold Answers
  infer_instance

section answers

variable {r c : List UInt8} {ok : Bool} (h : Answers r c ok)

include h

theorem Answers.version (hr : r.head? = some READ_SW_VERSION_REQ) :
    c.head? = some READ_SW_VERSION_CFM := by
  simpa +decide [hr] using h.2

theorem Answers.config (hr : r.head? = some WRITE_CONFIG_REQ) :
    c.head? = some WRITE_CONFIG_CFM := by
  simpa +decide [hr] using h.2

theorem Answers.flash_type (hr : r.head? = some READ_PROPRIETARY_DATA_REQ) :
    c.head? = some READ_PROPRIETARY_DATA_CFM ∧ 15 ≤ c.length ∧ uint32Of c 11 ≠ 0 := by
  simpa +decide [hr] using h.2

theorem Answers.erase (hr : r.head? = some FLASH_ERASE_REQ) :
    c.head? = some FLASH_ERASE_CFM := by
  simpa +decide [hr] using h.2

theorem Answers.program (hr : r.head? = some PROG_FLASH_REQ) :
    c.head? = some PROG_FLASH_CFM ∧ 8 ≤ c.length ∧ uint32Of c 1 = uint32Of r 1 ∧
      c.getD 7 0 = if ok then TRUE else FALSE := by
  simpa +decide [hr] using h.2

theorem Answers.checksum (hr : r.head? = some CALC_CRC32_REQ) :
    c.head? = some CALC_CRC32_CFM ∧ 13 ≤ c.length := by
  simpa +decide [hr] using h.2

end answers

/-- The flash with new bytes from a place on. -/
def program (flash : Nat → UInt8) (place : Nat) (data : List UInt8) (i : Nat) : UInt8 :=
  if place ≤ i ∧ i < place + data.length then data.getD (i - place) 0 else flash i

/-- What a request does to the flash: an erase clears it, and a program request that is
answered with TRUE writes its words. -/
def effect (r : List UInt8) (ok : Bool) (flash : Nat → UInt8) : Nat → UInt8 :=
  if r.head? = some FLASH_ERASE_REQ then fun _ => 0xff
  else if r.head? = some PROG_FLASH_REQ ∧ ok then
    program flash (uint32Of r 1).toNat
      ((r.drop 7).take (2 * ofLe16 (r.getD 5 0) (r.getD 6 0)).toNat)
  else flash

/-! ## The system -/

inductive Message
  | request (data : List UInt8)
  | confirm (data : List UInt8)

/-- The messages in `wire` are on their way. -/
structure System where
  loader : Outcome Loader
  wire : List Message
  flash : Nat → UInt8

/-- The target answers the request at a place of the wire, or the loader gets the confirm at a
place of the wire, over the bytes that its packet had before. -/
inductive Move
  | answer (i : Nat) (c : List UInt8) (ok : Bool)
  | deliver (i : Nat) (p : packet_t)

def Move.refuses : Move → Bool
  | .answer _ _ ok => !ok
  | .deliver _ _ => false

/-- A move that can be made, and the requests that the loader sends in it. -/
def systemStep (s : System) : Move → Option (System × List (List UInt8))
  | .answer i c ok =>
    match s.wire[i]? with
    | some (.request r) =>
      if Answers r c ok then
        some (⟨s.loader, s.wire.eraseIdx i ++ [.confirm c], effect r ok s.flash⟩, [])
      else none
    | _ => none
  | .deliver i p =>
    match s.wire[i]?, s.loader with
    | some (.confirm c), .running l =>
      if h : c.length ≤ PACKET_SIZE then
        match flashloader_dispatch l (p.carry c h) with
        | .running l' =>
          some (⟨.running l', s.wire.eraseIdx i ++ (sent l l').map .request, s.flash⟩, sent l l')
        | o => some (⟨o, s.wire.eraseIdx i, s.flash⟩, [])
      else none
    | _, _ => none

/-! ## Messages, field by field -/

theorem ofLe32_le32 {x : Int} (h0 : 0 ≤ x) (h1 : x < 4294967296) :
    ofLe32 (UInt8.ofNat x.toNat) (UInt8.ofNat (x / 256).toNat) (UInt8.ofNat (x / 65536).toNat)
      (UInt8.ofNat (x / 16777216).toNat) = x := by
  unfold ofLe32
  simp only [UInt8.toNat_ofNat']
  omega

theorem ofLe16_le16 {x : Int} (h0 : 0 ≤ x) (h1 : x < 65536) :
    ofLe16 (UInt8.ofNat x.toNat) (UInt8.ofNat (x / 256).toNat) = x := by
  unfold ofLe16
  simp only [UInt8.toNat_ofNat']
  omega

theorem bytes_Address {m : prog_flash_t} (h0 : 0 ≤ m.Address) (h1 : m.Address < 4294967296) :
    uint32Of m.bytes 1 = m.Address := ofLe32_le32 h0 h1

theorem bytes_Length {m : prog_flash_t} (h0 : 0 ≤ m.Length) (h1 : m.Length < 65536) :
    ofLe16 (m.bytes.getD 5 0) (m.bytes.getD 6 0) = m.Length := ofLe16_le16 h0 h1

theorem bytes_Data (m : prog_flash_t) : m.bytes.drop 7 = m.Data := rfl

/-- A packet that carries a message has its fields. -/
theorem carry_uint32 (p : packet_t) {c : List UInt8} (h : c.length ≤ PACKET_SIZE) {i : Nat}
    (hi : i + 3 < c.length) : uint32At (p.carry c h) i = uint32Of c i := by
  unfold uint32At uint32Of
  rw [carry_getD p c h (by omega), carry_getD p c h (by omega), carry_getD p c h (by omega),
    carry_getD p c h hi]

theorem carry_head (p : packet_t) {c : List UInt8} (h : c.length ≤ PACKET_SIZE) {x : UInt8}
    (hx : c.head? = some x) : (p.carry c h).byte 0 = x := by
  cases c with
  | nil => cases hx
  | cons y c =>
    cases hx
    rw [carry_getD p _ h (by simp)]
    rfl

/-! ## What is in flight -/

/-- The requests before the first block. -/
def opening : List (List UInt8) :=
  [[READ_SW_VERSION_REQ],
   [WRITE_CONFIG_REQ] ++ le32 0 ++ le32 0 ++ le32 0xf0000 ++ [QSPI_FLASH_CONFIG],
   [READ_PROPRIETARY_DATA_REQ, 0],
   [FLASH_ERASE_REQ] ++ le32 0 ++ le16 CHIP_ERASE_CMD]

/-- The flash is the image up to `off`, and erased from there on. -/
def Programmed (file : List UInt8) (off : Nat) (flash : Nat → UInt8) : Prop :=
  ∀ i, flash i = if i < off then image file i else 0xff

/-- The number of blocks from a place of the image on. -/
def blocks (file : List UInt8) (of : Nat) : Nat := (file.length - of + 2047) / 2048

/-- The loader `l` waits for the answer to the last request `r` of `requests`; the number bounds
the moves that are left when no block is refused any more. -/
inductive Asked (file : List UInt8) (l : Loader) (flash : Nat → UInt8) :
    List (List UInt8) → List UInt8 → Nat → Prop
  | version : Asked file l flash (opening.take 1) (opening[0]) (2 * blocks file 0 + 10)
  | config : Asked file l flash (opening.take 2) (opening[1]) (2 * blocks file 0 + 8)
  | flash_type : Asked file l flash (opening.take 3) (opening[2]) (2 * blocks file 0 + 6)
  | erase : Asked file l flash opening (opening[3]) (2 * blocks file 0 + 4)
  | program (of : Nat) (m : prog_flash_t) (progs : List (List UInt8))
      (hof : of < file.length) (heven : 2048 ∣ of) (hblock : Block file of m)
      (hflash : Programmed file of flash) (hprogs : ∀ r ∈ progs, r.head? = some PROG_FLASH_REQ) :
      Asked file l flash (opening ++ progs) m.bytes (2 * blocks file of + 2)
  | checksum (progs : List (List UInt8)) (hflash : ∀ i, flash i = image file i)
      (hprogs : ∀ r ∈ progs, r.head? = some PROG_FLASH_REQ) :
      Asked file l flash (opening ++ progs ++ [[CALC_CRC32_REQ] ++ le32 0 ++ le32 (u32 l.pr.size)])
        ([CALC_CRC32_REQ] ++ le32 0 ++ le32 (u32 l.pr.size)) 2

/-- The loader asks for the next block that is not empty. -/
theorem ask_block {file : List UInt8} {l : Loader} {flash : Nat → UInt8} (himg : Image l.pr file)
    (hmax : (file.length : Int) + 2048 ≤ INT_MAX) (hlast : file.getLast? ≠ some 0xff) {off : Nat}
    (hoff : off < file.length) (heven : 2048 ∣ off) (hflash : Programmed file off flash)
    (progs : List (List UInt8)) (hprogs : ∀ r ∈ progs, r.head? = some PROG_FLASH_REQ) :
    ∃ l' r k, prog_flash_req l off = some l' ∧ l'.pr = l.pr ∧ sent l l' = [r] ∧
      Asked file l' flash (opening ++ progs ++ [r]) r k ∧ k ≤ 2 * blocks file off + 2 := by
  obtain ⟨of, m, hm, hblock, h1, hof, heven', hgap⟩ := progFlash.spec himg hmax hlast hoff heven
  have hreq : prog_flash_req l off = some (send_packet l m.bytes) := by
    rw [prog_flash_req, hm]
    rfl
  obtain ⟨m', hm', -, hsent⟩ := prog_flash_req_eq hreq
  cases hm.symm.trans hm'
  refine ⟨send_packet l m.bytes, m.bytes, 2 * blocks file of + 2, hreq, rfl, hsent, ?_, ?_⟩
  · rw [List.append_assoc]
    refine .program of m (progs ++ [m.bytes]) hof heven' hblock ?_ ?_
    · -- The blocks that were skipped are empty in the image and in the flash.
      intro i
      rw [hflash i]
      by_cases hi : i < off
      · rw [if_pos hi, if_pos (by omega)]
      · rw [if_neg hi]
        split
        · exact (hgap i (by omega) (by assumption)).symm
        · rfl
    · intro r hr
      rcases List.mem_append.mp hr with hr | hr
      · exact hprogs r hr
      · rw [List.mem_singleton.mp hr]
        rfl
  · have : blocks file of ≤ blocks file off := by
      unfold blocks
      omega
    omega

/-- A block that was programmed. -/
theorem program_block {file : List UInt8} {flash : Nat → UInt8} {of : Nat} {m : prog_flash_t}
    (hblock : Block file of m) (hflash : Programmed file of flash) :
    Programmed file (of + 2048) (program flash of m.Data) := by
  intro i
  have hle := hblock.le
  unfold program
  by_cases hin : of ≤ i ∧ i < of + m.Data.length
  · have := hblock.data (i - of) (by omega)
    rw [Nat.add_sub_cancel' hin.1] at this
    rw [if_pos hin, if_pos (by omega), List.getD_eq_getElem?_getD, this, Option.getD_some]
  · rw [if_neg hin, hflash i]
    by_cases hi : i < of
    · rw [if_pos hi, if_pos (by omega)]
    · rw [if_neg hi]
      split
      · -- Behind the last word of the image.
        have := hblock.full (by omega)
        exact (image_of_le (by omega)).symm
      · rfl

theorem program_effect {file : List UInt8} {flash : Nat → UInt8} {of : Nat} {m : prog_flash_t}
    (hblock : Block file of m) (hof : (of : Int) < 4294967296) (ok : Bool) :
    effect m.bytes ok flash = if ok then program flash of m.Data else flash := by
  have haddress : uint32Of m.bytes 1 = of := by
    rw [bytes_Address (by rw [hblock.address]; omega) (by rw [hblock.address]; exact hof),
      hblock.address]
  have hle := hblock.le
  have heven := hblock.even
  have hlength : ofLe16 (m.bytes.getD 5 0) (m.bytes.getD 6 0) = (m.Data.length / 2 : Nat) := by
    rw [bytes_Length (by rw [hblock.length]; omega) (by rw [hblock.length]; omega), hblock.length]
  have hdata : (2 * ((m.Data.length / 2 : Nat) : Int)).toNat = m.Data.length := by omega
  unfold effect
  rw [progFlash_bytes_head, haddress, hlength, bytes_Data, hdata, List.take_length,
    if_neg (by decide), Int.toNat_natCast]
  cases ok <;> simp

/-! ## The loader gets the answer -/

/-- The requests of a run that asked for the checksum. -/
def Complete (requests : List (List UInt8)) : Prop :=
  ∃ progs crc, (∀ r ∈ progs, r.head? = some PROG_FLASH_REQ) ∧ crc.head? = some CALC_CRC32_REQ ∧
    requests = opening ++ progs ++ [crc]

/-- The answer to a program request: the next block, the same block again, or the checksum. -/
theorem deliver_program {file : List UInt8} {l : Loader} {flash : Nat → UInt8} {of : Nat}
    {m : prog_flash_t} {progs : List (List UInt8)} (himg : Image l.pr file)
    (hmax : (file.length : Int) + 2048 ≤ INT_MAX) (hlast : file.getLast? ≠ some 0xff)
    (hof : of < file.length) (heven : 2048 ∣ of) (hblock : Block file of m)
    (hflash : Programmed file of flash) (hprogs : ∀ r ∈ progs, r.head? = some PROG_FLASH_REQ)
    {p : packet_t} (ok : Bool) (hp : p.byte 0 = PROG_FLASH_CFM) (haddress : cfmAddress p = of)
    (hconfirm : cfmConfirm p = if ok then TRUE else FALSE) :
    ∃ l' r k, flashloader_dispatch l p = .running l' ∧ l'.pr = l.pr ∧ sent l l' = [r] ∧
      Asked file l' (effect m.bytes ok flash) (opening ++ progs ++ [r]) r k ∧
      k + 2 ≤ 2 * blocks file of + 2 + if ok then 0 else 2 := by
  have hINT : INT_MAX = 2147483647 := rfl
  rw [dispatch_program hp, program_effect hblock (by omega), prog_flash_cfm, haddress, hconfirm]
  cases ok with
  | true =>
    have hnext : u32 ((of : Int) + 0x800) = (of + 2048 : Nat) := u32_of_range (by omega) (by omega)
    have hplace : s32 ((of : Int) + 0x800) = (of + 2048 : Nat) := s32_of_range (by omega) (by omega)
    have hsize : u32 l.pr.size = file.length := by
      rw [himg.size]
      exact u32_of_range (by omega) (by omega)
    have hflash' := program_block hblock hflash
    simp only [if_true, hnext, hplace, hsize]
    by_cases hend : of + 2048 < file.length
    · obtain ⟨l', r, k, hreq, hpr, hsent, hasked, hk⟩ := ask_block himg hmax hlast hend
        (Nat.dvd_add heven (Nat.dvd_refl 2048)) hflash' progs hprogs
      rw [if_pos (by omega), hreq]
      refine ⟨l', r, k, rfl, hpr, hsent, hasked, ?_⟩
      have : blocks file (of + 2048) + 1 ≤ blocks file of := by
        unfold blocks
        omega
      omega
    · rw [if_neg (by omega)]
      refine ⟨calc_crc32_req l, _, 2, rfl, rfl, sent_packet (by simp) rfl, ?_, ?_⟩
      · refine .checksum progs ?_ hprogs
        intro i
        rw [hflash' i]
        split
        · rfl
        · exact (image_of_le (by omega)).symm
      · have : 1 ≤ blocks file of := by
          unfold blocks
          omega
        omega
  | false =>
    have hplace : s32 (of : Int) = of := s32_of_range (by omega) (by omega)
    obtain ⟨l', r, k, hreq, hpr, hsent, hasked, hk⟩ := ask_block himg hmax hlast hof heven hflash
      progs hprogs
    have hne : FALSE ≠ TRUE := by decide
    simp only [Bool.false_eq_true, if_false, hplace, hne, hreq]
    exact ⟨l', r, k, rfl, hpr, hsent, hasked, by omega⟩

theorem erase_flash.spec {l : Loader} (h : l.f.SectorSize ≠ 0) :
    ∃ l', erase_flash l = some l' ∧ l'.pr = l.pr ∧
      l'.tty = l.tty ++ make_tx_packet ([FLASH_ERASE_REQ] ++ le32 0 ++ le16 CHIP_ERASE_CMD) := by
  unfold erase_flash
  rw [if_neg h]
  exact ⟨_, rfl, rfl, rfl⟩

/-- The answer to the request for the flash type: the whole flash is to be erased. -/
theorem dispatch_sectors (l : Loader) {r c : List UInt8} {ok : Bool} (hans : Answers r c ok)
    (hr : r.head? = some READ_PROPRIETARY_DATA_REQ) (p : packet_t) (hc : c.length ≤ PACKET_SIZE) :
    ∃ l', flashloader_dispatch l (p.carry c hc) = .running l' ∧ l'.pr = l.pr ∧
      sent l l' = [opening[3]] := by
  obtain ⟨hhead, hlen, hsector⟩ := hans.flash_type hr
  have hsize : (qspi_flash_type_cfm l (p.carry c hc)).f.SectorSize ≠ 0 := by
    have : (qspi_flash_type_cfm l (p.carry c hc)).f.SectorSize = uint32At (p.carry c hc) 11 := rfl
    rw [this, carry_uint32 p hc (by omega)]
    exact hsector
  obtain ⟨l', herase, hpr, htty⟩ := erase_flash.spec hsize
  have hrequest : opening[3].length ≤ 65535 := by decide
  refine ⟨l', ?_, hpr, sent_packet hrequest htty⟩
  rw [dispatch_flash_type (carry_head p hc hhead), herase]
  rfl

/-- The answer to any request: one other request follows, or the process ends. -/
theorem deliver_answer {file : List UInt8} {l : Loader} {flash : Nat → UInt8}
    {requests : List (List UInt8)} {r : List UInt8} {k : Nat} (himg : Image l.pr file)
    (hpos : 1 ≤ file.length) (hmax : (file.length : Int) + 2048 ≤ INT_MAX)
    (hlast : file.getLast? ≠ some 0xff) (h : Asked file l flash requests r k) {c : List UInt8}
    {ok : Bool} (hans : Answers r c ok) (p : packet_t) (hc : c.length ≤ PACKET_SIZE) :
    (∃ l' r' k', flashloader_dispatch l (p.carry c hc) = .running l' ∧ l'.pr = l.pr ∧
        sent l l' = [r'] ∧ Asked file l' (effect r ok flash) (requests ++ [r']) r' k' ∧
        k' + 2 ≤ k + if ok then 0 else 2) ∨
    ∃ status, flashloader_dispatch l (p.carry c hc) = .exited status l ∧ Complete requests ∧
      (∀ i, effect r ok flash i = image file i) ∧ 2 ≤ k := by
  cases h with
  | version =>
    exact .inl ⟨config_target l, _, _, dispatch_version (carry_head p hc (hans.version rfl)), rfl,
      sent_packet (by simp) rfl, .config, by omega⟩
  | config =>
    exact .inl ⟨qspi_flash_type_req l, _, _, dispatch_config (carry_head p hc (hans.config rfl)),
      rfl, sent_packet (by simp) rfl, .flash_type, by omega⟩
  | flash_type =>
    obtain ⟨l', hdispatch, hpr, hsent⟩ := dispatch_sectors l hans rfl p hc
    exact .inl ⟨l', _, _, hdispatch, hpr, hsent, .erase, by omega⟩
  | erase =>
    have hflash : Programmed file 0 (effect opening[3] ok flash) := by
      have herase : opening[3].head? = some FLASH_ERASE_REQ := rfl
      intro i
      unfold effect
      rw [if_pos herase, if_neg (Nat.not_lt_zero i)]
    obtain ⟨l', r', k', hreq, hpr, hsent, hasked, hk⟩ := ask_block himg hmax hlast
      (show 0 < file.length by omega) (Nat.dvd_zero _) hflash [] (by simp)
    refine .inl ⟨l', r', k', ?_, hpr, hsent, by simpa using hasked, by omega⟩
    have hreq' : program_flash l = some l' := hreq
    rw [dispatch_erase (carry_head p hc (hans.erase rfl)), hreq']
    rfl
  | program of m progs hof heven hblock hflash hprogs =>
    obtain ⟨hhead, hlen, haddress, hconfirm⟩ := hans.program (progFlash_bytes_head m)
    have hINT : INT_MAX = 2147483647 := rfl
    rw [bytes_Address (by rw [hblock.address]; omega) (by rw [hblock.address]; omega),
      hblock.address] at haddress
    obtain ⟨l', r', k', hdispatch, hpr, hsent, hasked, hk⟩ := deliver_program himg hmax hlast hof
      heven hblock hflash hprogs ok (carry_head p hc hhead)
      (by rw [cfmAddress, carry_uint32 p hc (by omega), haddress])
      (by rw [cfmConfirm, carry_getD p c hc (by omega), hconfirm])
    exact .inl ⟨l', r', k', hdispatch, hpr, hsent, hasked, by omega⟩
  | checksum progs hflash hprogs =>
    have heffect : ∀ i, effect ([CALC_CRC32_REQ] ++ le32 0 ++ le32 (u32 l.pr.size)) ok flash i =
        image file i := hflash
    rw [dispatch_checksum (carry_head p hc (hans.checksum rfl).1), calc_crc32_cfm]
    split
    · exact .inr ⟨0, rfl, ⟨progs, _, hprogs, rfl, rfl⟩, heffect, Nat.le_refl 2⟩
    · exact .inr ⟨-1, rfl, ⟨progs, _, hprogs, rfl, rfl⟩, heffect, Nat.le_refl 2⟩

/-! ## The invariant of a run -/

/-- One request or one confirm is in flight, or the process ended with the image in the flash.
The number bounds the moves that are left when no block is refused any more. -/
inductive Flight (file : List UInt8) : System → List (List UInt8) → Nat → Prop
  | asked {l : Loader} {flash : Nat → UInt8} {requests : List (List UInt8)} {r : List UInt8}
      {k : Nat} (himg : Image l.pr file) (h : Asked file l flash requests r k) :
      Flight file ⟨.running l, [.request r], flash⟩ requests k
  | answered {l : Loader} {flash : Nat → UInt8} {requests : List (List UInt8)} {r c : List UInt8}
      {ok : Bool} {k : Nat} (himg : Image l.pr file) (h : Asked file l flash requests r k)
      (hans : Answers r c ok) :
      Flight file ⟨.running l, [.confirm c], effect r ok flash⟩ requests
        (k - 1 + if ok then 0 else 2)
  | ended {l : Loader} {flash : Nat → UInt8} {requests : List (List UInt8)} (status : Int)
      (hflash : ∀ i, flash i = image file i) (hcomplete : Complete requests) :
      Flight file ⟨.exited status l, [], flash⟩ requests 0

theorem Asked.pos {file : List UInt8} {l : Loader} {flash : Nat → UInt8}
    {requests : List (List UInt8)} {r : List UInt8} {k : Nat}
    (h : Asked file l flash requests r k) : 2 ≤ k := by
  cases h <;> omega

/-- Every move keeps the invariant, and takes one move off the bound, unless it refuses. -/
theorem flight_step {file : List UInt8} (hpos : 1 ≤ file.length)
    (hmax : (file.length : Int) + 2048 ≤ INT_MAX) (hlast : file.getLast? ≠ some 0xff)
    {s s' : System} {requests o : List (List UInt8)} {k : Nat} {move : Move}
    (h : Flight file s requests k)
    (hstep : systemStep s move = some (s', o)) :
    ∃ k', Flight file s' (requests ++ o) k' ∧ k' + 1 ≤ k + if move.refuses then 2 else 0 := by
  cases h with
  | asked himg h =>
    rename_i l flash r
    cases move with
    | answer i c ok =>
      simp only [systemStep] at hstep
      match i with
      | 0 =>
        simp only [List.getElem?_cons_zero] at hstep
        split at hstep
        · rename_i hans
          cases hstep
          have := h.pos
          refine ⟨k - 1 + if ok then 0 else 2, ?_, ?_⟩
          · rw [List.append_nil]
            exact .answered himg h hans
          · cases ok <;> simp [Move.refuses] <;> omega
        · cases hstep
      | i + 1 => simp at hstep
    | deliver i p =>
      match i with
      | 0 => simp [systemStep] at hstep
      | i + 1 => simp [systemStep] at hstep
  | answered himg h hans =>
    rename_i l flash r c ok k
    cases move with
    | answer i c ok =>
      match i with
      | 0 => simp [systemStep] at hstep
      | i + 1 => simp [systemStep] at hstep
    | deliver i p =>
      match i with
      | 0 =>
        simp only [systemStep, List.getElem?_cons_zero] at hstep
        rw [dif_pos hans.1] at hstep
        rcases deliver_answer himg hpos hmax hlast h hans p hans.1 with
          ⟨l', r', k', hdispatch, hpr, hsent, hasked, hk⟩ |
          ⟨status, hdispatch, hcomplete, hflash, hk⟩
        · rw [hdispatch] at hstep
          simp only [hsent, Option.some.injEq, Prod.mk.injEq] at hstep
          obtain ⟨rfl, rfl⟩ := hstep
          refine ⟨k', .asked (by rw [hpr]; exact himg) hasked, ?_⟩
          simp only [Move.refuses, Bool.false_eq_true, if_false]
          omega
        · rw [hdispatch] at hstep
          simp only [Option.some.injEq, Prod.mk.injEq] at hstep
          obtain ⟨rfl, rfl⟩ := hstep
          refine ⟨0, ?_, by omega⟩
          rw [List.append_nil]
          exact .ended status hflash hcomplete
      | i + 1 => simp [systemStep] at hstep
  | ended status hflash hcomplete =>
    cases move with
    | answer i c ok => simp [systemStep] at hstep
    | deliver i p => simp [systemStep] at hstep

/-- The number of program requests that the target refuses. -/
def refusals (moves : List Move) : Nat := (moves.filter Move.refuses).length

theorem flight_run {file : List UInt8} (hpos : 1 ≤ file.length)
    (hmax : (file.length : Int) + 2048 ≤ INT_MAX) (hlast : file.getLast? ≠ some 0xff)
    (moves : List Move) :
    ∀ {s s' : System} {requests : List (List UInt8)} {os : List (List (List UInt8))} {k : Nat},
      Flight file s requests k → run systemStep s moves = some (s', os) →
      ∃ k', Flight file s' (requests ++ os.flatten) k' ∧
        k' + moves.length ≤ k + 2 * refusals moves := by
  induction moves with
  | nil =>
    intro s s' requests os k h hrun
    cases hrun
    exact ⟨k, by simpa using h, by simp [refusals]⟩
  | cons move moves ih =>
    intro s s' requests os k h hrun
    obtain ⟨s1, o, os', hstep, hrest, rfl⟩ := run_cons_eq_some.mp hrun
    obtain ⟨k1, h1, hk1⟩ := flight_step hpos hmax hlast h hstep
    obtain ⟨k', h', hk'⟩ := ih h1 hrest
    refine ⟨k', by simpa [List.append_assoc] using h', ?_⟩
    have hcount : refusals (move :: moves) = (if move.refuses then 1 else 0) + refusals moves := by
      unfold refusals
      rw [List.filter_cons]
      split <;> simp [Nat.add_comm]
    rw [hcount, List.length_cons]
    split at hk1 <;> simp_all <;> omega

/-! ## The order of the requests -/

/-- The requests come in the order of the protocol. -/
def InOrder (requests : List (List UInt8)) : Prop :=
  ∃ n j, requests.map List.head? = (([READ_SW_VERSION_REQ, WRITE_CONFIG_REQ,
    READ_PROPRIETARY_DATA_REQ, FLASH_ERASE_REQ] ++ List.replicate n PROG_FLASH_REQ ++
      [CALC_CRC32_REQ]).map some).take j

theorem progs_heads {progs : List (List UInt8)}
    (hprogs : ∀ r ∈ progs, r.head? = some PROG_FLASH_REQ) :
    progs.map List.head? = (List.replicate progs.length PROG_FLASH_REQ).map some := by
  induction progs with
  | nil => rfl
  | cons r progs ih =>
    rw [List.map_cons, hprogs r (by simp), ih fun r hr => hprogs r (by simp [hr])]
    rfl

theorem opening_heads : opening.map List.head? = [READ_SW_VERSION_REQ, WRITE_CONFIG_REQ,
    READ_PROPRIETARY_DATA_REQ, FLASH_ERASE_REQ].map some := rfl

theorem Complete.inOrder {requests : List (List UInt8)} (h : Complete requests) :
    InOrder requests := by
  obtain ⟨progs, crc, hprogs, hcrc, rfl⟩ := h
  refine ⟨progs.length, 5 + progs.length, ?_⟩
  rw [List.take_of_length_le (by simp; omega), List.map_append, List.map_append, opening_heads,
    progs_heads hprogs]
  simp [hcrc]

theorem Asked.inOrder {file : List UInt8} {l : Loader} {flash : Nat → UInt8}
    {requests : List (List UInt8)} {r : List UInt8} {k : Nat}
    (h : Asked file l flash requests r k) : InOrder requests := by
  cases h with
  | version => exact ⟨0, 1, rfl⟩
  | config => exact ⟨0, 2, rfl⟩
  | flash_type => exact ⟨0, 3, rfl⟩
  | erase => exact ⟨0, 4, rfl⟩
  | program of m progs hof heven hblock hflash hprogs =>
    refine ⟨progs.length, 4 + progs.length, ?_⟩
    rw [List.map_append, List.map_append, List.take_left' (by simp; omega), List.map_append,
      opening_heads, progs_heads hprogs]
  | checksum progs hflash hprogs =>
    exact Complete.inOrder ⟨progs, _, hprogs, rfl, rfl⟩

/-- No request asks for the checksum before the last one. -/
theorem no_checksum_yet (progs : List (List UInt8))
    (hprogs : ∀ r ∈ progs, r.head? = some PROG_FLASH_REQ) {q : List UInt8}
    (hq : q ∈ opening ++ progs) : q.head? ≠ some CALC_CRC32_REQ := by
  have hopening : ∀ q ∈ opening, q.head? ≠ some CALC_CRC32_REQ := by decide
  rcases List.mem_append.mp hq with hq | hq
  · exact hopening q hq
  · rw [hprogs q hq]
    decide

/-- Once the checksum is asked for, the flash is the image. -/
theorem Asked.flash {file : List UInt8} {l : Loader} {flash : Nat → UInt8}
    {requests : List (List UInt8)} {r : List UInt8} {k : Nat}
    (h : Asked file l flash requests r k) {q : List UInt8} (hq : q ∈ requests)
    (hcrc : q.head? = some CALC_CRC32_REQ) (ok : Bool) (i : Nat) :
    flash i = image file i ∧ effect r ok flash i = image file i := by
  have hopening : ∀ j, q ∈ opening.take j → False := fun j hj =>
    no_checksum_yet [] (by simp) (by simpa using List.mem_of_mem_take hj) hcrc
  cases h with
  | version => exact absurd hq (hopening 1)
  | config => exact absurd hq (hopening 2)
  | flash_type => exact absurd hq (hopening 3)
  | erase => exact absurd hq (hopening 4)
  | program of m progs hof heven hblock hflash hprogs =>
    exact absurd hcrc (no_checksum_yet progs hprogs hq)
  | checksum progs hflash hprogs => exact ⟨hflash i, hflash i⟩

/-! ## The run goes on -/

/-- What a target answers, in the structures of the source. -/
def confirmFor (r : List UInt8) (ok : Bool) (crc : Int) : List UInt8 :=
  if r.head? = some READ_SW_VERSION_REQ then [READ_SW_VERSION_CFM, 0, 0, 0]
  else if r.head? = some WRITE_CONFIG_REQ then [WRITE_CONFIG_CFM, TRUE]
  else if r.head? = some READ_PROPRIETARY_DATA_REQ then
    [READ_PROPRIETARY_DATA_CFM, 0, 0, 0, 0, 0, 0] ++ le32 0x100000 ++ le32 0x1000
  else if r.head? = some FLASH_ERASE_REQ then [FLASH_ERASE_CFM, 0, 0, 0, 0, TRUE]
  else if r.head? = some PROG_FLASH_REQ then
    [PROG_FLASH_CFM, r.getD 1 0, r.getD 2 0, r.getD 3 0, r.getD 4 0, r.getD 5 0, r.getD 6 0,
      if ok then TRUE else FALSE]
  else
    [CALC_CRC32_CFM, r.getD 1 0, r.getD 2 0, r.getD 3 0, r.getD 4 0, r.getD 5 0, r.getD 6 0,
      r.getD 7 0, r.getD 8 0] ++ le32 crc

theorem opening_answers : ∀ r ∈ opening, ∀ ok, Answers r (confirmFor r ok 0) ok := by decide

theorem program_answers (m : prog_flash_t) (ok : Bool) (crc : Int) :
    Answers m.bytes (confirmFor m.bytes ok crc) ok := by
  have hlen : (confirmFor m.bytes ok crc).length = 8 := rfl
  exact ⟨by rw [hlen]; decide,
    .inr (.inr (.inr (.inr (.inl ⟨rfl, rfl, Nat.le_of_eq hlen.symm, rfl, rfl⟩))))⟩

theorem checksum_answers (size : Int) (ok : Bool) (crc : Int) :
    Answers ([CALC_CRC32_REQ] ++ le32 0 ++ le32 size)
      (confirmFor ([CALC_CRC32_REQ] ++ le32 0 ++ le32 size) ok crc) ok := by
  have hlen : (confirmFor ([CALC_CRC32_REQ] ++ le32 0 ++ le32 size) ok crc).length = 13 := rfl
  exact ⟨by rw [hlen]; decide,
    .inr (.inr (.inr (.inr (.inr ⟨rfl, rfl, Nat.le_of_eq hlen.symm⟩))))⟩

/-- Every request has an answer. -/
theorem Asked.answer {file : List UInt8} {l : Loader} {flash : Nat → UInt8}
    {requests : List (List UInt8)} {r : List UInt8} {k : Nat}
    (h : Asked file l flash requests r k) (ok : Bool) (crc : Int) :
    Answers r (confirmFor r ok crc) ok := by
  cases h with
  | version => exact opening_answers opening[0] (by decide) ok
  | config => exact opening_answers opening[1] (by decide) ok
  | flash_type => exact opening_answers opening[2] (by decide) ok
  | erase => exact opening_answers opening[3] (by decide) ok
  | program of m => exact program_answers m ok crc
  | checksum => exact checksum_answers (u32 l.pr.size) ok crc

/-- As long as the process lives, one of the two can move, and need not refuse. -/
theorem flight_goes_on {file : List UInt8} {s : System} {requests : List (List UInt8)} {k : Nat}
    (h : Flight file s requests k) {l : Loader} (hl : s.loader = .running l) :
    ∃ move, move.refuses = false ∧ (systemStep s move).isSome := by
  cases h with
  | asked himg h =>
    rename_i l flash r
    refine ⟨.answer 0 (confirmFor r true 0) true, rfl, ?_⟩
    simp only [systemStep, List.getElem?_cons_zero]
    rw [if_pos (h.answer true 0)]
    rfl
  | answered himg h hans =>
    rename_i l flash r c ok k
    refine ⟨.deliver 0 blank, rfl, ?_⟩
    simp only [systemStep, List.getElem?_cons_zero]
    rw [dif_pos hans.1]
    cases flashloader_dispatch l (blank.carry c hans.1) <;> rfl
  | ended status hflash hcomplete => cases hl

/-! ## The law -/

/-- Exactly one message is in flight as long as the loader runs, and none when it has ended. -/
def OneInFlight (s : System) : Prop :=
  (∃ l, s.loader = .running l ∧ s.wire.length = 1) ∨
  (∃ status l, s.loader = .exited status l ∧ s.wire = [])

/-- The flash is the file, and erased behind it. -/
def HoldsFile (file : List UInt8) (flash : Nat → UInt8) : Prop :=
  (∀ i (hi : i < file.length), flash i = file[i]) ∧ ∀ i, file.length ≤ i → flash i = 0xff

theorem holdsFile_of_image {file : List UInt8} {flash : Nat → UInt8}
    (h : ∀ i, flash i = image file i) : HoldsFile file flash := by
  refine ⟨fun i hi => ?_, fun i hi => ?_⟩
  · rw [h i, image, List.getD_eq_getElem?_getD, List.getElem?_eq_getElem hi, Option.getD_some]
  · rw [h i, image_of_le hi]

theorem init_flashloader_state.spec (file : List UInt8) (g0 g1 g2 : UInt8)
    (hmax : (file.length : Int) + 3 ≤ INT_MAX) :
    ∃ l, init_flashloader_state [] file g0 g1 g2 = some l ∧ Image l.pr file ∧
      l.tty = make_tx_packet [READ_SW_VERSION_REQ] := by
  obtain ⟨pr, hread, himg⟩ := read_firmware.spec file g0 g1 g2 hmax
  obtain ⟨pr', hsum, himg'⟩ := calculate_checksum.spec himg
  refine ⟨⟨pr', ⟨0, 0, 0, 0, 0, 0, 0, 0⟩, 0, 0, make_tx_packet [READ_SW_VERSION_REQ]⟩, ?_, himg',
    rfl⟩
  rw [init_flashloader_state, hread, Option.bind_eq_bind, Option.bind_some, hsum]
  rfl

/-- In every run with every image that does not end with 0xFF, one message is in flight until
the process ends, the requests come in order, and from the request for the checksum on the flash
is the image with 0xFF behind it. The process ends only when all the requests were made and the
flash is the image; until then the run can go on, and it comes to that end when the target stops
to refuse. -/
theorem flashing_programs_the_image (file : List UInt8) (g0 g1 g2 : UInt8) (flash : Nat → UInt8)
    (hpos : 1 ≤ file.length) (hmax : file.length < 2 ^ 31 - 2049)
    (hlast : file.getLast? ≠ some 0xff) :
    ∃ l, init_flashloader_state [] file g0 g1 g2 = some l ∧
      l.tty = make_tx_packet [READ_SW_VERSION_REQ] ∧
      ∀ moves s os,
        run systemStep ⟨.running l, [.request [READ_SW_VERSION_REQ]], flash⟩ moves = some (s, os) →
        OneInFlight s ∧ InOrder ([READ_SW_VERSION_REQ] :: os.flatten) ∧
        ((∃ r ∈ os.flatten, r.head? = some CALC_CRC32_REQ) → HoldsFile file s.flash) ∧
        (∀ status l', s.loader = .exited status l' →
          Complete ([READ_SW_VERSION_REQ] :: os.flatten) ∧ HoldsFile file s.flash) ∧
        (∀ l', s.loader = .running l' →
          ∃ move, move.refuses = false ∧ (systemStep s move).isSome) ∧
        moves.length ≤ 2 * blocks file 0 + 10 + 2 * refusals moves := by
  have hINT : INT_MAX = 2147483647 := rfl
  obtain ⟨l, hinit, himg, htty⟩ := init_flashloader_state.spec file g0 g1 g2 (by omega)
  refine ⟨l, hinit, htty, fun moves s os hrun => ?_⟩
  obtain ⟨k, hflight, hk⟩ := flight_run hpos (by omega) hlast moves (.asked himg .version) hrun
  have hrequests : opening.take 1 ++ os.flatten = [READ_SW_VERSION_REQ] :: os.flatten := rfl
  rw [hrequests] at hflight
  refine ⟨?_, ?_, ?_, ?_, fun l' hl => flight_goes_on hflight hl, by omega⟩
  · cases hflight with
    | asked => exact .inl ⟨_, rfl, rfl⟩
    | answered => exact .inl ⟨_, rfl, rfl⟩
    | ended status => exact .inr ⟨status, _, rfl, rfl⟩
  · cases hflight with
    | asked himg h => exact h.inOrder
    | answered himg h hans => exact h.inOrder
    | ended status hflash hcomplete => exact hcomplete.inOrder
  · rintro ⟨r, hr, hcrc⟩
    apply holdsFile_of_image
    intro i
    cases hflight with
    | asked himg h => exact (h.flash (List.mem_cons_of_mem _ hr) hcrc true i).1
    | answered himg h hans => exact (h.flash (List.mem_cons_of_mem _ hr) hcrc _ i).2
    | ended status hflash hcomplete => exact hflash i
  · intro status l' hl
    cases hflight with
    | asked | answered => cases hl
    | ended status hflash hcomplete => exact ⟨hcomplete, holdsFile_of_image hflash⟩

/-! ## A run -/

/-- The target answers a request, and the loader asks the next one. -/
theorem run_exchange {l l' : Loader} {flash : Nat → UInt8} {r r' c : List UInt8} {ok : Bool}
    (hans : Answers r c ok)
    (hdispatch : flashloader_dispatch l (blank.carry c hans.1) = .running l')
    (hsent : sent l l' = [r']) {moves : List Move} {s : System} {os : List (List (List UInt8))}
    (hrest : run systemStep ⟨.running l', [.request r'], effect r ok flash⟩ moves = some (s, os)) :
    run systemStep ⟨.running l, [.request r], flash⟩
      (.answer 0 c ok :: .deliver 0 blank :: moves) = some (s, [] :: [r'] :: os) := by
  refine run_cons_eq_some.mpr ⟨⟨.running l, [.confirm c], effect r ok flash⟩, [], [r'] :: os,
    ?_, ?_, rfl⟩
  · simp only [systemStep, List.getElem?_cons_zero]
    rw [if_pos hans]
    rfl
  · refine run_cons_eq_some.mpr ⟨_, _, os, ?_, hrest, rfl⟩
    simp only [systemStep, List.getElem?_cons_zero]
    rw [dif_pos hans.1, hdispatch]
    simp only [hsent]
    rfl

/-- The target answers a request, and the process ends. -/
theorem run_end {l : Loader} {flash : Nat → UInt8} {r c : List UInt8} {ok : Bool} {status : Int}
    (hans : Answers r c ok)
    (hdispatch : flashloader_dispatch l (blank.carry c hans.1) = .exited status l) :
    run systemStep ⟨.running l, [.request r], flash⟩ [.answer 0 c ok, .deliver 0 blank] =
      some (⟨.exited status l, [], effect r ok flash⟩, [[], []]) := by
  refine run_cons_eq_some.mpr ⟨⟨.running l, [.confirm c], effect r ok flash⟩, [], [[]],
    ?_, ?_, rfl⟩
  · simp only [systemStep, List.getElem?_cons_zero]
    rw [if_pos hans]
    rfl
  · refine run_cons_eq_some.mpr ⟨_, _, [], ?_, rfl, rfl⟩
    simp only [systemStep, List.getElem?_cons_zero]
    rw [dif_pos hans.1, hdispatch]
    rfl

/-- A block of 0xFF and one byte behind it. -/
def emptyBlockAhead : List UInt8 := List.replicate 2048 0xff ++ [1]

theorem emptyBlockAhead_length : emptyBlockAhead.length = 2049 := by
  rw [emptyBlockAhead, List.length_append, List.length_replicate]
  rfl

theorem emptyBlockAhead_last : emptyBlockAhead.getLast? ≠ some 0xff := by
  rw [emptyBlockAhead, List.getLast?_concat]
  decide

/-- The block that is asked for is the second one. -/
theorem emptyBlockAhead_asks {pr : bin_img} (himg : Image pr emptyBlockAhead) {off : Nat}
    (hoff : off ≤ 2048) (heven : 2048 ∣ off) :
    ∃ m, progFlash pr off = some m ∧ m.Address = 2048 := by
  have hlen := emptyBlockAhead_length
  obtain ⟨of, m, hm, hblock, -, hof, ⟨k, hk⟩, -⟩ := progFlash.spec himg
    (by rw [hlen]; decide) emptyBlockAhead_last (by omega) heven
  obtain ⟨of', -, -, hrequests, -, -, j, hj, x, hx, hne⟩ := progFlash_asks hm
  have haddress := hblock.address
  have haddress' := hrequests.address
  refine ⟨m, hm, ?_⟩
  obtain rfl | rfl : k = 0 ∨ k = 1 := by omega
  · -- The first block holds nothing but 0xFF.
    obtain ⟨g0, g1, g2, hbytes, -⟩ := himg.img
    have hplace : of' + j < (List.replicate 2048 (0xff : UInt8)).length := by
      rw [List.length_replicate]
      omega
    rw [hbytes, emptyBlockAhead, List.append_assoc, List.getElem?_append_left hplace,
      List.getElem?_replicate, if_pos (by omega), Option.some.injEq] at hx
    exact absurd hx.symm hne
  · omega

theorem emptyBlockAhead_req {l : Loader} (himg : Image l.pr emptyBlockAhead) {off : Nat}
    (hoff : off ≤ 2048) (heven : 2048 ∣ off) :
    ∃ m : prog_flash_t, prog_flash_req l off = some (send_packet l m.bytes) ∧
      sent l (send_packet l m.bytes) = [m.bytes] ∧ m.Address = 2048 := by
  obtain ⟨m, hm, haddress⟩ := emptyBlockAhead_asks himg hoff heven
  have hreq : prog_flash_req l off = some (send_packet l m.bytes) := by
    rw [prog_flash_req, hm]
    rfl
  obtain ⟨m', hm', -, hsent⟩ := prog_flash_req_eq hreq
  cases hm.symm.trans hm'
  exact ⟨m, hreq, hsent, haddress⟩

/-- The answer to the request for the second block: the block again, or the checksum. -/
theorem confirm_program {l l' : Loader} {m : prog_flash_t} (haddress : m.Address = 2048) (ok : Bool)
    (h : (confirmFor m.bytes ok 0).length ≤ PACKET_SIZE)
    (hnext : if ok then u32 l.pr.size ≤ 4096 ∧ l' = calc_crc32_req l
      else prog_flash_req l (2048 : Nat) = some l') :
    flashloader_dispatch l (blank.carry _ h) = .running l' := by
  obtain ⟨hhead, hlen, hplace, hconfirm⟩ :=
    (program_answers m ok 0).program (progFlash_bytes_head m)
  rw [bytes_Address (by omega) (by omega), haddress] at hplace
  have hstays : s32 2048 = (2048 : Nat) := by decide
  have hgoes : u32 (2048 + 0x800) = 4096 := by decide
  rw [dispatch_program (carry_head _ h hhead), prog_flash_cfm, cfmAddress, cfmConfirm,
    carry_uint32 _ h (by omega), carry_getD _ _ h (by omega), hplace, hconfirm]
  cases ok with
  | true =>
    obtain ⟨hsize, rfl⟩ := hnext
    rw [if_pos rfl, if_pos rfl, hgoes, if_neg (by omega)]
    rfl
  | false =>
    have hreq : prog_flash_req l (2048 : Nat) = some l' := hnext
    rw [if_neg Bool.false_ne_true, if_neg (by decide), hstays, hreq]
    rfl

/-- Seven requests are answered, one of them with FALSE. -/
theorem emptyBlockAhead_run (l : Loader) (himg : Image l.pr emptyBlockAhead) :
    ∃ moves s os l',
      run systemStep ⟨.running l, [.request [READ_SW_VERSION_REQ]], fun _ => 0⟩ moves =
        some (s, os) ∧
      refusals moves = 1 ∧ s.loader = .exited 0 l' ∧
      (os.flatten.filter (·.head? = some PROG_FLASH_REQ)).map (uint32Of · 1) = [2048, 2048] := by
  have hans : ∀ i (hi : i < opening.length), Answers opening[i] (confirmFor opening[i] true 0) true :=
    fun i hi => opening_answers opening[i] (List.getElem_mem hi) true
  have hversion : flashloader_dispatch l (blank.carry _ (hans 0 (by decide)).1) =
      .running (config_target l) := dispatch_version (carry_head _ _ rfl)
  have hconfig : flashloader_dispatch (config_target l) (blank.carry _ (hans 1 (by decide)).1) =
      .running (qspi_flash_type_req (config_target l)) := dispatch_config (carry_head _ _ rfl)
  obtain ⟨l3, hsectors, hpr, hsent3⟩ := dispatch_sectors (qspi_flash_type_req (config_target l))
    (hans 2 (by decide)) rfl blank (hans 2 (by decide)).1
  have himg3 : Image l3.pr emptyBlockAhead := by
    rw [hpr]
    exact himg
  -- The first block is skipped, and the second one is refused.
  obtain ⟨m, hreq, hsent4, haddress⟩ := emptyBlockAhead_req himg3 (by omega) (Nat.dvd_zero 2048)
  have herase : flashloader_dispatch l3 (blank.carry _ (hans 3 (by decide)).1) =
      .running (send_packet l3 m.bytes) := by
    rw [dispatch_erase (carry_head _ _ rfl), program_flash]
    exact congrArg returns hreq
  obtain ⟨m', hreq', hsent5, haddress'⟩ := emptyBlockAhead_req (l := send_packet l3 m.bytes) himg3
    (Nat.le_refl 2048) (Nat.dvd_refl 2048)
  have hrefuse := confirm_program haddress false (program_answers m false 0).1 hreq'
  -- Then it is programmed, and the checksum is asked for.
  have hsize : u32 (send_packet (send_packet l3 m.bytes) m'.bytes).pr.size = 2049 := by
    have : (send_packet (send_packet l3 m.bytes) m'.bytes).pr.size = emptyBlockAhead.length :=
      himg3.size
    rw [this, emptyBlockAhead_length]
    rfl
  have hprogram := confirm_program haddress' true (program_answers m' true 0).1
    ⟨by rw [hsize]; decide, rfl⟩
  have hcrc : flashloader_dispatch (calc_crc32_req (send_packet (send_packet l3 m.bytes) m'.bytes))
      (blank.carry _ (checksum_answers 2049 true l3.pr.checksum.toNat).1) =
      .exited 0 (calc_crc32_req (send_packet (send_packet l3 m.bytes) m'.bytes)) := by
    rw [dispatch_checksum (carry_head _ _ rfl), calc_crc32_cfm, if_pos]
    have hsum := l3.pr.checksum.toNat_lt
    rw [cfmCrc32, carry_uint32 _ _ (Nat.lt_add_one 12)]
    exact ofLe32_le32 (by omega) (by omega)
  have hrun : run systemStep ⟨.running l, [.request opening[0]], fun _ => 0⟩ _ = some (_, _) :=
    run_exchange (hans 0 (by decide)) hversion (sent_packet (by simp) rfl)
    (run_exchange (hans 1 (by decide)) hconfig (sent_packet (by simp) rfl)
    (run_exchange (hans 2 (by decide)) hsectors hsent3
    (run_exchange (hans 3 (by decide)) herase hsent4
    (run_exchange (program_answers m false 0) hrefuse hsent5
    (run_exchange (program_answers m' true 0) hprogram (sent_packet (by simp) rfl)
    (run_end (checksum_answers 2049 true l3.pr.checksum.toNat) hcrc))))))
  refine ⟨_, _, _, _, hrun, rfl, rfl, ?_⟩
  have hplace : ∀ (m : prog_flash_t), m.Address = 2048 → uint32Of m.bytes 1 = 2048 := by
    intro m h
    rw [bytes_Address (by omega) (by omega), h]
  calc
    _ = [uint32Of m.bytes 1, uint32Of m'.bytes 1] := rfl
    _ = [2048, 2048] := by rw [hplace m haddress, hplace m' haddress']

/-- The first block is skipped; the second one is refused once, and asked for again. -/
theorem flashing_programs_the_image_behind_an_empty_block :
    ∃ l moves s os l', init_flashloader_state [] emptyBlockAhead 0 0 0 = some l ∧
      run systemStep ⟨.running l, [.request [READ_SW_VERSION_REQ]], fun _ => 0⟩ moves =
        some (s, os) ∧
      refusals moves = 1 ∧ s.loader = .exited 0 l' ∧
      (os.flatten.filter (·.head? = some PROG_FLASH_REQ)).map (uint32Of · 1) = [2048, 2048] ∧
      OneInFlight s ∧ Complete ([READ_SW_VERSION_REQ] :: os.flatten) ∧
      HoldsFile emptyBlockAhead s.flash ∧ moves.length ≤ 2 * blocks emptyBlockAhead 0 + 12 := by
  have hlen := emptyBlockAhead_length
  obtain ⟨l, hinit, -, hlaw⟩ := flashing_programs_the_image emptyBlockAhead 0 0 0 (fun _ => 0)
    (by omega) (by omega) emptyBlockAhead_last
  obtain ⟨l0, hinit0, himg, -⟩ := init_flashloader_state.spec emptyBlockAhead 0 0 0
    (by rw [hlen]; decide)
  cases hinit.symm.trans hinit0
  obtain ⟨moves, s, os, l', hrun, hrefusals, hloader, hplaces⟩ := emptyBlockAhead_run l himg
  obtain ⟨hone, -, -, hend, -, hmoves⟩ := hlaw moves s os hrun
  obtain ⟨hcomplete, hflash⟩ := hend 0 l' hloader
  exact ⟨l, moves, s, os, l', hinit, hrun, hrefusals, hloader, hplaces, hone, hcomplete, hflash,
    by omega⟩

end dect_prog.flashloader
