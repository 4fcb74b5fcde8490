-- Crc.c: the 16-bit CRC of the frames of the flash loader, and the 32-bit CRC
-- of the firmware image.
import DectProg.Memory
import Mathlib.Data.Nat.Init

namespace dect_prog.crc

/-- X^16 + X^12 + X^5 + 1. -/
def UpdateCrc (data : UInt8) (icrc : UInt16) : UInt16 :=
  let crc := icrc
  let crc := (crc >>> 8).toUInt8.toUInt16 ||| (crc <<< 8)
  let crc := crc ^^^ data.toUInt16
  let crc := crc ^^^ ((crc &&& 0xff).toUInt8 >>> 4).toUInt16
  let crc := crc ^^^ ((crc <<< 8) <<< 4)
  crc ^^^ (((crc &&& 0xff) <<< 4) <<< 1)

/-- The loop that both ends of the flash link run over a payload. -/
def crc16 (data : List UInt8) : UInt16 := data.foldl (fun crc x => UpdateCrc x crc) 0

/-- The `uint16_t` of two bytes, as the receivers put it together. -/
def word (lo hi : UInt8) : UInt16 := (hi.toUInt16 <<< 8) ||| lo.toUInt16

theorem toNat_word (lo hi : UInt8) : (word lo hi).toNat = 256 * hi.toNat + lo.toNat := by
  have hlo := lo.toNat_lt
  have hhi := hi.toNat_lt
  have h8 : (8 : UInt16).toNat % 16 = 8 := rfl
  rw [word, UInt16.toNat_or, UInt16.toNat_shiftLeft, UInt8.toNat_toUInt16, UInt8.toNat_toUInt16, h8,
    Nat.mod_eq_of_lt (by rw [Nat.shiftLeft_eq]; omega),
    ← Nat.shiftLeft_add_eq_or_of_lt (by omega), Nat.shiftLeft_eq]
  omega

/-- Two bytes are the word `c` when they are its low and its high byte. -/
theorem word_eq_iff (lo hi : UInt8) (c : UInt16) :
    word lo hi = c ↔ lo = c.toUInt8 ∧ hi = (c >>> 8).toUInt8 := by
  have hlo := lo.toNat_lt
  have hhi := hi.toNat_lt
  have hc := c.toNat_lt
  have h8 : (8 : UInt16).toNat % 16 = 8 := rfl
  have hshift : (c >>> 8).toNat = c.toNat / 256 := by
    rw [UInt16.toNat_shiftRight, h8, Nat.shiftRight_eq_div_pow]
  rw [← UInt16.toNat_inj, toNat_word, ← UInt8.toNat_inj, ← UInt8.toNat_inj,
    UInt16.toNat_toUInt8, UInt16.toNat_toUInt8, hshift]
  omega

/-! ## The checksum of the image

`uint32` is an `unsigned long` of the host, which may have 64 bits; no value here has more
than 32. -/

/-- One of the eight turns of the inner loop of `InitCrc32Table`. -/
def crc32Bit (crc : UInt32) : UInt32 :=
  if crc &&& 1 ≠ 0 then (crc >>> 1) ^^^ 0xEDB88320 else crc >>> 1

/-- An entry of the table that `InitCrc32Table` fills. -/
def crc32Table (i : UInt32) : UInt32 := Nat.repeat crc32Bit 8 i

/-- The loop over the entries. -/
def InitCrc32Table : List UInt32 := (List.range 256).map fun i => crc32Table (UInt32.ofNat i)

def InitCalculateCRC32 : UInt32 := 0xFFFFFFFF

def GetCRC32 (crc32 : UInt32) : UInt32 := crc32 ^^^ 0xFFFFFFFF

/-- The update by one byte. -/
def crc32Byte (crc32 : UInt32) (data : UInt8) : UInt32 :=
  ((crc32 >>> 8) &&& 0x00FFFFFF) ^^^ crc32Table ((crc32 ^^^ data.toUInt32) &&& 0xFF)

/-- `StartAddr` is the memory from the start address on. It is read in words of two bytes, the
low byte first; the second byte of the last word of an odd length is read and not used. -/
def BlockCalculateCRC32 (crc32 : UInt32) : List UInt8 → Nat → Option UInt32
  | _, 0 => some crc32
  | lo :: _ :: _, 1 => some (crc32Byte crc32 lo)
  | lo :: hi :: StartAddr, Length + 2 =>
    BlockCalculateCRC32 (crc32Byte (crc32Byte crc32 lo) hi) StartAddr Length
  | _, _ => none

/-- The loop over words is one over bytes, where the second byte of the last word is there to be
read. -/
theorem BlockCalculateCRC32.spec (crc : UInt32) (StartAddr : List UInt8) (Length : Nat)
    (h : Length + Length % 2 ≤ StartAddr.length) :
    BlockCalculateCRC32 crc StartAddr Length =
      some ((StartAddr.take Length).foldl crc32Byte crc) := by
  induction Length using Nat.twoStepInduction generalizing crc StartAddr with
  | zero =>
    unfold BlockCalculateCRC32
    rfl
  | one =>
    match StartAddr, h with
    | [_], h => simp at h
    | lo :: hi :: StartAddr, _ =>
      unfold BlockCalculateCRC32
      rfl
  | more n ih _ =>
    match StartAddr, h with
    | [], h => simp at h
    | [_], h =>
      simp only [List.length_singleton] at h
      omega
    | lo :: hi :: StartAddr, h =>
      have hrest : n + n % 2 ≤ StartAddr.length := by
        simp only [List.length_cons] at h
        omega
      unfold BlockCalculateCRC32
      rw [ih _ _ hrest]
      rfl

def CalculateCRC32 (StartAddr : List UInt8) (Length : Nat) : Option UInt32 := do
  let crc32 ← BlockCalculateCRC32 InitCalculateCRC32 StartAddr Length
  some (GetCRC32 crc32)

def CalculateEmptyBlockCRC32 (Length : Nat) : UInt32 :=
  GetCRC32 (Nat.repeat (fun crc32 => crc32Byte crc32 0xFF) Length InitCalculateCRC32)

end dect_prog.crc
