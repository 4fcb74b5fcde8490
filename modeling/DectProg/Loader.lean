-- The flash loader (flashloader.c): the image, the requests that it sends, and
-- what it does with each confirm of the target. Texts for the console are left
-- out.
import DectProg.FlashFrames

open dect_prog.package dect_prog.crc

namespace dect_prog.flashloader

/-! ## The primitives of MailDef.h -/

def READ_SW_VERSION_REQ : UInt8 := 0x0D
def READ_SW_VERSION_CFM : UInt8 := 0x0E
def WRITE_CONFIG_REQ : UInt8 := 0x0F
def WRITE_CONFIG_CFM : UInt8 := 0x10
def PROG_FLASH_REQ : UInt8 := 0x11
def PROG_FLASH_CFM : UInt8 := 0x12
def CALC_CRC32_REQ : UInt8 := 0x13
def CALC_CRC32_CFM : UInt8 := 0x14
def FLASH_ERASE_REQ : UInt8 := 0x15
def FLASH_ERASE_CFM : UInt8 := 0x16
def READ_PROPRIETARY_DATA_REQ : UInt8 := 0x1F
def READ_PROPRIETARY_DATA_CFM : UInt8 := 0x20

def QSPI_FLASH_CONFIG : UInt8 := 3

def CHIP_ERASE_CMD : Int := 0x10

def TRUE : UInt8 := 1

/-! ## The state -/

/-- The image, with the three bytes that `read_firmware` puts behind it. -/
structure bin_img where
  img : List UInt8
  size : Int
  checksum : UInt32
  size_nonneg : 0 ≤ size
  size_le : size + 3 ≤ INT_MAX
  img_length : img.length = size + 3

structure flash_type_t where
  Primitive : UInt8
  RequestID : UInt8
  MaxFreqSingle : UInt8
  MaxFreqQuad : UInt8
  Manufacturer : UInt8
  DeviceId : Int
  TotalSize : Int
  SectorSize : Int
  deriving DecidableEq, Repr

/-- The variables of the module, and the bytes written to the tty so far. -/
structure Loader where
  pr : bin_img
  f : flash_type_t
  sectors : Int
  sectors_written : Int
  tty : List UInt8

def send_packet (l : Loader) (data : List UInt8) : Loader :=
  { l with tty := l.tty ++ make_tx_packet data }

/-- `malloc(pr->size + 3)`: the three bytes are whatever is there, or 0xFF behind an image of
odd size. -/
def read_firmware (file : List UInt8) (g0 g1 g2 : UInt8) : Option bin_img :=
  if h : (file.length : Int) + 3 ≤ INT_MAX then
    some {
      img := file ++ (if file.length % 2 = 1 then [0xff, 0xff, 0xff] else [g0, g1, g2])
      size := file.length
      checksum := 0
      size_nonneg := by omega
      size_le := h
      img_length := by split <;> simp }
  else none

def calculate_checksum (pr : bin_img) : Option bin_img := do
  let checksum ← CalculateCRC32 pr.img pr.size.toNat
  some { pr with checksum }

/-- The first request goes out before the image is there. The ring buffer is made here too. -/
def init_flashloader_state (tty file : List UInt8) (g0 g1 g2 : UInt8) : Option Loader := do
  let tty := tty ++ make_tx_packet [READ_SW_VERSION_REQ]
  let pr ← read_firmware file g0 g1 g2
  let pr ← calculate_checksum pr
  some { pr, f := ⟨0, 0, 0, 0, 0, 0, 0, 0⟩, sectors := 0, sectors_written := 0, tty }

/-! ## The requests -/

def config_target (l : Loader) : Loader :=
  send_packet l ([WRITE_CONFIG_REQ] ++ le32 0 ++ le32 0 ++ le32 0xf0000 ++ [QSPI_FLASH_CONFIG])

def qspi_flash_type_req (l : Loader) : Loader :=
  send_packet l [READ_PROPRIETARY_DATA_REQ, 0]

def erase_flash_req (l : Loader) (address : Int) : Loader :=
  send_packet l ([FLASH_ERASE_REQ] ++ le32 address ++ le16 CHIP_ERASE_CMD)

/-- A sector size of 0 is a division by zero. The remainder is only printed. -/
def erase_flash (l : Loader) : Option Loader :=
  if l.f.SectorSize = 0 then none
  else
    let sectors := s32 (u32 l.pr.size / l.f.SectorSize + 1)
    some (erase_flash_req { l with sectors, sectors_written := 0 } 0)

/-- The loop over the bytes from the place `data` on; the number counts those still to look at. -/
def is_data_ff (img : List UInt8) : Nat → Int → Option Bool
  | 0, _ => some true
  | n + 1, data => do
    if (← load img data) ≠ 0xff then some false
    else is_data_ff img n (data + 1)

/-- Skips the blocks that are all 0xFF. The pointer `data` is always at the place `of`. -/
def skipDataFf (img : List UInt8) : Nat → Int → Option Int
  | 0, _ => none
  | fuel + 1, of => do
    if ← is_data_ff img 2048 of then skipDataFf img fuel (← intAdd of 2048)
    else some of

/-- `memcpy` of the bytes at a place into a new array. -/
def slice (mem : List UInt8) (off n : Int) : Option (List UInt8) :=
  if 0 ≤ n ∧ 0 ≤ off ∧ off + n ≤ mem.length then some ((mem.drop off.toNat).take n.toNat) else none

structure prog_flash_t where
  Address : Int
  Length : Int
  Data : List UInt8
  deriving DecidableEq, Repr

def prog_flash_t.bytes (m : prog_flash_t) : List UInt8 :=
  [PROG_FLASH_REQ] ++ le32 m.Address ++ le16 m.Length ++ m.Data

/-- The message that `prog_flash_req` puts together. -/
def progFlash (pr : bin_img) (offset : Int) : Option prog_flash_t := do
  -- Skip data if all 0xFF
  let of ← skipDataFf pr.img (pr.img.length + 1) offset
  -- Is the remaining data smaller than max packet size
  if (← intAdd of 2048) > pr.size then
    let data_size := pr.size - of
    -- If data size is odd, there are three bytes behind the image
    let data_size := if data_size % 2 ≠ 0 then data_size + 1 else data_size
    some ⟨u32 of, data_size / 2, ← slice pr.img of data_size⟩
  else
    some ⟨u32 of, 2048 / 2, ← slice pr.img of 2048⟩

def prog_flash_req (l : Loader) (offset : Int) : Option Loader := do
  let m ← progFlash l.pr offset
  some (send_packet l m.bytes)

def program_flash (l : Loader) : Option Loader := prog_flash_req l 0

def calc_crc32_req (l : Loader) : Loader :=
  send_packet l ([CALC_CRC32_REQ] ++ le32 0 ++ le32 (u32 l.pr.size))

/-! ## The confirms -/

/-- The `uint32_t` at a place of the packet. -/
def uint32At (p : packet_t) (i : Nat) : Int :=
  ofLe32 (p.byte i) (p.byte (i + 1)) (p.byte (i + 2)) (p.byte (i + 3))

def qspi_flash_type_cfm (l : Loader) (p : packet_t) : Loader :=
  { l with f := ⟨p.byte 0, p.byte 1, p.byte 2, p.byte 3, p.byte 4, ofLe16 (p.byte 5) (p.byte 6),
                 uint32At p 7, uint32At p 11⟩ }

/-- The field `Address` of a program confirm. -/
def cfmAddress (p : packet_t) : Int := uint32At p 1

/-- The field `Confirm` of a program confirm. -/
def cfmConfirm (p : packet_t) : UInt8 := p.byte 7

def prog_flash_cfm (l : Loader) (p : packet_t) : Option Loader :=
  if cfmConfirm p = TRUE then
    if u32 (cfmAddress p + 0x800) < u32 l.pr.size then
      prog_flash_req l (s32 (cfmAddress p + 0x800))
    else some (calc_crc32_req l)
  else prog_flash_req l (s32 (cfmAddress p))

/-- The field `Crc32` of a checksum confirm. -/
def cfmCrc32 (p : packet_t) : Int := uint32At p 9

def calc_crc32_cfm (l : Loader) (p : packet_t) : Outcome Loader :=
  if cfmCrc32 p = l.pr.checksum.toNat then .exited 0 l else .exited (-1) l

/-- A function that always returns when its behaviour is defined. -/
def returns (o : Option Loader) : Outcome Loader :=
  match o with
  | some l => .running l
  | none => .undefined

/-- `sw_version_cfm`, `write_config_cfm` and `flash_erase_cfm` only print what they got. -/
def flashloader_dispatch (l : Loader) (p : packet_t) : Outcome Loader :=
  if p.byte 0 = READ_SW_VERSION_CFM then .running (config_target l)
  else if p.byte 0 = WRITE_CONFIG_CFM then .running (qspi_flash_type_req l)
  else if p.byte 0 = READ_PROPRIETARY_DATA_CFM then
    returns (erase_flash (qspi_flash_type_cfm l p))
  else if p.byte 0 = FLASH_ERASE_CFM then returns (program_flash l)
  else if p.byte 0 = PROG_FLASH_CFM then returns (prog_flash_cfm l p)
  else if p.byte 0 = CALC_CRC32_CFM then calc_crc32_cfm l p
  else .running l

/-! ## One confirm -/

variable {l : Loader} {p : packet_t}

theorem dispatch_version (hp : p.byte 0 = READ_SW_VERSION_CFM) :
    flashloader_dispatch l p = .running (config_target l) := by
  unfold flashloader_dispatch
  rw [if_pos hp]

theorem dispatch_config (hp : p.byte 0 = WRITE_CONFIG_CFM) :
    flashloader_dispatch l p = .running (qspi_flash_type_req l) := by
  unfold flashloader_dispatch
  rw [hp, if_neg (by decide), if_pos rfl]

theorem dispatch_flash_type (hp : p.byte 0 = READ_PROPRIETARY_DATA_CFM) :
    flashloader_dispatch l p = returns (erase_flash (qspi_flash_type_cfm l p)) := by
  unfold flashloader_dispatch
  rw [hp, if_neg (by decide), if_neg (by decide), if_pos rfl]

theorem dispatch_erase (hp : p.byte 0 = FLASH_ERASE_CFM) :
    flashloader_dispatch l p = returns (program_flash l) := by
  unfold flashloader_dispatch
  rw [hp, if_neg (by decide), if_neg (by decide), if_neg (by decide), if_pos rfl]

theorem dispatch_program (hp : p.byte 0 = PROG_FLASH_CFM) :
    flashloader_dispatch l p = returns (prog_flash_cfm l p) := by
  unfold flashloader_dispatch
  rw [hp, if_neg (by decide), if_neg (by decide), if_neg (by decide), if_neg (by decide),
    if_pos rfl]

theorem dispatch_checksum (hp : p.byte 0 = CALC_CRC32_CFM) :
    flashloader_dispatch l p = calc_crc32_cfm l p := by
  unfold flashloader_dispatch
  rw [hp, if_neg (by decide), if_neg (by decide), if_neg (by decide), if_neg (by decide),
    if_neg (by decide), if_pos rfl]

/-- A packet with a primitive that is no confirm of the target. -/
def Unknown (p : packet_t) : Prop :=
  p.byte 0 ≠ READ_SW_VERSION_CFM ∧ p.byte 0 ≠ WRITE_CONFIG_CFM ∧
  p.byte 0 ≠ READ_PROPRIETARY_DATA_CFM ∧ p.byte 0 ≠ FLASH_ERASE_CFM ∧
  p.byte 0 ≠ PROG_FLASH_CFM ∧ p.byte 0 ≠ CALC_CRC32_CFM

theorem dispatch_unknown (hp : Unknown p) : flashloader_dispatch l p = .running l := by
  obtain ⟨h1, h2, h3, h4, h5, h6⟩ := hp
  unfold flashloader_dispatch
  rw [if_neg h1, if_neg h2, if_neg h3, if_neg h4, if_neg h5, if_neg h6]

/-- The seven cases of a dispatch. -/
theorem confirm_cases (p : packet_t) :
    p.byte 0 = READ_SW_VERSION_CFM ∨ p.byte 0 = WRITE_CONFIG_CFM ∨
    p.byte 0 = READ_PROPRIETARY_DATA_CFM ∨ p.byte 0 = FLASH_ERASE_CFM ∨
    p.byte 0 = PROG_FLASH_CFM ∨ p.byte 0 = CALC_CRC32_CFM ∨ Unknown p := by
  by_contra h
  simp only [not_or] at h
  obtain ⟨h1, h2, h3, h4, h5, h6, hunknown⟩ := h
  exact hunknown ⟨h1, h2, h3, h4, h5, h6⟩

end dect_prog.flashloader
