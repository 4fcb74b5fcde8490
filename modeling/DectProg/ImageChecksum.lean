-- The checksum of the firmware image (Crc.c, flashloader.c) is the CRC-32 of its
-- bytes: the table stands for eight turns of the register, the loop over words for
-- one over bytes, and the byte behind an image of odd size makes no difference.
import DectProg.BitErrors
import DectProg.Loader
import DectProg.MirroredRegister
import Mathlib.Algebra.Group.Nat.Even

open bit_errors mirrored_register dect_prog.flashloader

namespace dect_prog.crc

/-- The polynomial 0x04C11DB7, mirrored. -/
def polynomial : BitVec 32 := 0xEDB88320#32

/-- The bits of a byte, the bottom one first. -/
def bottomFirst (x : UInt8) : List Bool := lowBits 8 x.toBitVec

theorem bottomFirst_length (x : UInt8) : (bottomFirst x).length = 8 := rfl

/-- CRC-32, bit by bit. -/
def reflectedCrc32 (data : List UInt8) : UInt32 :=
  ⟨feed polynomial 0xFFFFFFFF#32 (message bottomFirst data) ^^^ 0xFFFFFFFF#32⟩

/-! ## One byte -/

theorem bottom_bit (crc : UInt32) : crc &&& 1 ≠ 0 ↔ crc.toBitVec.getLsbD 0 = true := by
  have hbit : (crc &&& 1).toBitVec = (BitVec.ofBool (crc.toBitVec.getLsbD 0)).setWidth 32 := by
    rw [UInt32.toBitVec_and]
    exact BitVec.and_one_eq_setWidth_ofBool_getLsbD
  rw [ne_eq, ← UInt32.toBitVec_inj, hbit]
  cases crc.toBitVec.getLsbD 0 <;> decide

theorem crc32Bit_eq (crc : UInt32) : (crc32Bit crc).toBitVec = turn polynomial crc.toBitVec := by
  unfold crc32Bit turn step
  by_cases hb : crc &&& 1 ≠ 0
  · have hbit := (bottom_bit crc).mp hb
    rw [if_pos hb, hbit]
    rfl
  · have hbit : crc.toBitVec.getLsbD 0 = false := by
      simpa using fun h => hb ((bottom_bit crc).mpr h)
    rw [if_neg hb, hbit]
    simp

/-- An entry of the table is what eight turns make of its index. -/
theorem crc32Table_eq (i : UInt32) :
    (crc32Table i).toBitVec = (turn polynomial)^[8] i.toBitVec := by
  simp only [crc32Table, Nat.repeat, crc32Bit_eq]
  rfl

/-- The mask behind the shift cuts nothing off. -/
theorem shifted_byte (crc : UInt32) : ((crc >>> 8) &&& 0x00FFFFFF).toBitVec = crc.toBitVec >>> 8 := by
  have hmask : ∀ i < 24, (0x00FFFFFF#32).getLsbD i = true := by decide
  have hshift : (crc >>> 8).toBitVec = crc.toBitVec >>> 8 := rfl
  have hconst : (0x00FFFFFF : UInt32).toBitVec = 0x00FFFFFF#32 := rfl
  rw [UInt32.toBitVec_and, hshift, hconst]
  apply BitVec.eq_of_getLsbD_eq
  intro i _
  rw [BitVec.getLsbD_and, BitVec.getLsbD_ushiftRight]
  by_cases hi : i < 24
  · rw [hmask i hi, Bool.and_true]
  · rw [BitVec.getLsbD_of_ge _ (8 + i) (by omega), Bool.false_and]

/-- The lookup in the table feeds the eight bits of the byte. -/
theorem crc32Byte_eq (crc : UInt32) (data : UInt8) :
    (crc32Byte crc data).toBitVec = feed polynomial crc.toBitVec (lowBits 8 data.toBitVec) := by
  have hmask : ∀ i < 32, (255#32).getLsbD i = decide (i < 8) := by decide
  have hhigh : data.toUInt32.toBitVec >>> 8 = 0#32 := by
    apply BitVec.eq_of_getLsbD_eq
    intro i _
    rw [UInt8.toBitVec_toUInt32, BitVec.getLsbD_ushiftRight, BitVec.getLsbD_setWidth,
      BitVec.getLsbD_of_ge _ (8 + i) (by omega), Bool.and_false, BitVec.getLsbD_zero]
  have hlow : lowBits 8 data.toUInt32.toBitVec = lowBits 8 data.toBitVec := by
    unfold lowBits
    apply List.map_congr_left
    intro i hi
    have hlt : i < 32 := by
      have := List.mem_range.mp hi
      omega
    rw [UInt8.toBitVec_toUInt32, BitVec.getLsbD_setWidth, decide_eq_true hlt, Bool.true_and]
  have hlookup := feed_lookup polynomial hmask crc.toBitVec data.toUInt32.toBitVec hhigh
  rw [← hlow, hlookup, crc32Byte, UInt32.toBitVec_xor, shifted_byte, crc32Table_eq]
  rfl

/-! ## The loops -/

theorem crc32_bytes_eq (data : List UInt8) :
    ∀ crc : UInt32, (data.foldl crc32Byte crc).toBitVec =
      feed polynomial crc.toBitVec (message bottomFirst data) := by
  induction data with
  | nil =>
    intro crc
    rfl
  | cons x data ih =>
    intro crc
    rw [List.foldl_cons, ih, crc32Byte_eq, message_cons, feed_append]
    rfl

/-- A split at an even place. -/
theorem BlockCalculateCRC32_add {m : Nat} (hm : Even m) (n : Nat) :
    ∀ (crc : UInt32) (StartAddr : List UInt8),
      BlockCalculateCRC32 crc StartAddr (m + n) =
        (BlockCalculateCRC32 crc StartAddr m).bind fun crc =>
          BlockCalculateCRC32 crc (StartAddr.drop m) n := by
  obtain ⟨k, rfl⟩ := hm
  induction k with
  | zero =>
    intro crc StartAddr
    simp [BlockCalculateCRC32]
  | succ k ih =>
    intro crc StartAddr
    have hplace : k + 1 + (k + 1) + n = (k + k + n) + 2 := by omega
    have hplace' : k + 1 + (k + 1) = (k + k) + 2 := by omega
    rw [hplace, hplace']
    match StartAddr with
    | [] => rfl
    | [_] => rfl
    | lo :: hi :: StartAddr =>
      simp only [BlockCalculateCRC32, List.drop_succ_cons]
      exact ih _ _

theorem CalculateCRC32.spec (StartAddr : List UInt8) (Length : Nat)
    (h : Length + Length % 2 ≤ StartAddr.length) :
    CalculateCRC32 StartAddr Length = some (reflectedCrc32 (StartAddr.take Length)) := by
  have hbits := crc32_bytes_eq (StartAddr.take Length) InitCalculateCRC32
  simp only [CalculateCRC32, BlockCalculateCRC32.spec _ _ _ h, Option.bind_eq_bind, Option.bind_some]
  congr 1
  apply UInt32.toBitVec_inj.mp
  rw [GetCRC32, UInt32.toBitVec_xor, hbits]
  rfl

theorem repeat_eq_foldl (n : Nat) :
    ∀ crc : UInt32, Nat.repeat (fun crc32 => crc32Byte crc32 0xFF) n crc =
      (List.replicate n 0xFF).foldl crc32Byte crc := by
  induction n with
  | zero =>
    intro crc
    rfl
  | succ n ih =>
    intro crc
    rw [Nat.repeat, ih, List.replicate_succ', List.foldl_append]
    rfl

/-- A block of 0xFF, and what is behind it. -/
theorem CalculateEmptyBlockCRC32.spec (n : Nat) :
    CalculateEmptyBlockCRC32 n = reflectedCrc32 (List.replicate n 0xFF) := by
  have hbits := crc32_bytes_eq (List.replicate n 0xFF) InitCalculateCRC32
  apply UInt32.toBitVec_inj.mp
  rw [CalculateEmptyBlockCRC32, repeat_eq_foldl, GetCRC32, UInt32.toBitVec_xor, hbits]
  rfl

/-- The index is one of the table. -/
theorem InitCrc32Table_lookup (x : UInt32) :
    InitCrc32Table[(x &&& 0xFF).toNat]? = some (crc32Table (x &&& 0xFF)) := by
  have hlt : (x &&& 0xFF).toNat < 256 := by
    rw [UInt32.toNat_and]
    exact Nat.lt_of_le_of_lt Nat.and_le_right (by decide)
  have hindex : UInt32.ofNat (x &&& 0xFF).toNat = x &&& 0xFF := UInt32.ofNat_toNat
  unfold InitCrc32Table
  rw [List.getElem?_map, List.getElem?_range hlt, Option.map_some, hindex]

end dect_prog.crc

namespace dect_prog.flashloader

open dect_prog.crc

/-- Every image, whatever its size and the three bytes behind it: the checksum is the CRC-32 of its
bytes, by a table that has every entry that is looked up. A calculation can be cut at an even place,
and the one for a block of 0xFF gives what the one over the block gives. -/
theorem the_image_checksum_is_the_reflected_crc :
    (∀ pr : bin_img, calculate_checksum pr =
      some { pr with checksum := reflectedCrc32 (pr.img.take pr.size.toNat) }) ∧
    (∀ (crc : UInt32) (data : UInt8),
      InitCrc32Table[((crc ^^^ data.toUInt32) &&& 0xFF).toNat]? =
        some (crc32Table ((crc ^^^ data.toUInt32) &&& 0xFF))) ∧
    (∀ (crc : UInt32) (StartAddr : List UInt8) (m n : Nat), Even m →
      BlockCalculateCRC32 crc StartAddr (m + n) =
        (BlockCalculateCRC32 crc StartAddr m).bind fun crc =>
          BlockCalculateCRC32 crc (StartAddr.drop m) n) ∧
    ∀ (n : Nat) (behind : List UInt8), n % 2 ≤ behind.length →
      CalculateCRC32 (List.replicate n 0xFF ++ behind) n = some (CalculateEmptyBlockCRC32 n) := by
  refine ⟨fun pr => ?_, fun crc data => InitCrc32Table_lookup _,
    fun crc StartAddr m n hm => BlockCalculateCRC32_add hm n crc StartAddr, fun n behind hn => ?_⟩
  · have h0 := pr.size_nonneg
    have hlen := pr.img_length
    simp only [calculate_checksum, CalculateCRC32.spec pr.img pr.size.toNat (by omega),
      Option.bind_eq_bind, Option.bind_some]
  · rw [CalculateCRC32.spec _ _ (by simp; omega), CalculateEmptyBlockCRC32.spec,
      List.take_left' (List.length_replicate)]

/-- Three bytes 0xFF with another byte behind them, and a split between the second and the third. -/
theorem the_image_checksum_is_the_reflected_crc_for_three_bytes :
    CalculateCRC32 (List.replicate 3 0xFF ++ [7]) 3 = some (CalculateEmptyBlockCRC32 3) ∧
    BlockCalculateCRC32 InitCalculateCRC32 [0xFF, 0xFF, 0xFF, 7] (2 + 1) =
      (BlockCalculateCRC32 InitCalculateCRC32 [0xFF, 0xFF, 0xFF, 7] 2).bind fun crc =>
        BlockCalculateCRC32 crc [0xFF, 7] 1 :=
  ⟨the_image_checksum_is_the_reflected_crc.2.2.2 3 [7] (by decide),
    the_image_checksum_is_the_reflected_crc.2.2.1 _ _ 2 1 (by decide)⟩

end dect_prog.flashloader
