-- What the C code needs of the machine: the conversions between `int` and
-- `uint32_t`, `memcpy` on byte arrays, and the fields of a packed struct. A
-- step with undefined behaviour gives `none`.
import Mathlib.Data.List.Basic
import Mathlib.Tactic.SplitIfs

namespace dect_prog

def INT_MAX : Int := 2147483647
def INT_MIN : Int := -2147483648

/-- The conversion to `uint32_t`. -/
def u32 (x : Int) : Int := x % 4294967296

/-- The conversion to `int`, two's complement. -/
def s32 (x : Int) : Int := if u32 x ≤ INT_MAX then u32 x else u32 x - 4294967296

/-- An addition of two `int`, undefined when the sum is no `int`. -/
def intAdd (x y : Int) : Option Int :=
  if INT_MIN ≤ x + y ∧ x + y ≤ INT_MAX then some (x + y) else none

theorem u32_of_range {x : Int} (h0 : 0 ≤ x) (h1 : x ≤ INT_MAX) : u32 x = x := by
  unfold u32 INT_MAX at *
  omega

theorem s32_of_range {x : Int} (h0 : 0 ≤ x) (h1 : x ≤ INT_MAX) : s32 x = x := by
  rw [s32, u32_of_range h0 h1, if_pos h1]

theorem intAdd_of_range {x y : Int} (h0 : 0 ≤ x + y) (h1 : x + y ≤ INT_MAX) :
    intAdd x y = some (x + y) := by
  unfold intAdd INT_MIN
  rw [if_pos ⟨by omega, h1⟩]

/-- What holds for the 256 bytes one by one holds for every byte. -/
theorem forall_byte {P : UInt8 → Prop} (h : ∀ n : Fin 256, P (UInt8.ofNat n)) (x : UInt8) :
    P x := by
  have := h ⟨x.toNat, x.toNat_lt⟩
  simpa using this

/-! ## memcpy -/

/-- `memcpy(dst + doff, src + soff, n)`. A negative count is a huge `size_t`,
and a copy that leaves one of the two arrays is undefined. -/
def memcpy (dst : List UInt8) (doff : Int) (src : List UInt8) (soff n : Int) :
    Option (List UInt8) :=
  if 0 ≤ n ∧ 0 ≤ doff ∧ doff + n ≤ dst.length ∧ 0 ≤ soff ∧ soff + n ≤ src.length then
    some (dst.take doff.toNat ++ (src.drop soff.toNat).take n.toNat ++
      dst.drop (doff + n).toNat)
  else none

/-- The array `dst` with the bytes `xs` from place `off` on. -/
def overwrite (dst : List UInt8) (off : Nat) (xs : List UInt8) : List UInt8 :=
  dst.take off ++ xs ++ dst.drop (off + xs.length)

/-- A copy inside both arrays is an overwrite. -/
theorem memcpy_eq (dst src : List UInt8) (doff soff n : Nat) (hd : doff + n ≤ dst.length)
    (hs : soff + n ≤ src.length) :
    memcpy dst doff src soff n = some (overwrite dst doff ((src.drop soff).take n)) := by
  have hend : ((doff : Int) + (n : Int)).toNat = doff + n := by omega
  have hlen : ((src.drop soff).take n).length = n := by
    simp only [List.length_take, List.length_drop]
    omega
  unfold memcpy overwrite
  rw [if_pos (by omega), hend, hlen]
  simp only [Int.toNat_natCast]

theorem overwrite_length {dst : List UInt8} {off : Nat} {xs : List UInt8}
    (h : off + xs.length ≤ dst.length) : (overwrite dst off xs).length = dst.length := by
  simp only [overwrite, List.length_append, List.length_take, List.length_drop]
  omega

@[simp] theorem overwrite_nil (dst : List UInt8) (off : Nat) : overwrite dst off [] = dst := by
  simp [overwrite]

/-- Two overwrites one after the other are one. -/
theorem overwrite_overwrite (dst : List UInt8) (off : Nat) (xs ys : List UInt8)
    (h : off ≤ dst.length) :
    overwrite (overwrite dst off xs) (off + xs.length) ys = overwrite dst off (xs ++ ys) := by
  have hlen : (dst.take off ++ xs).length = off + xs.length := by simp [h]
  unfold overwrite
  rw [← hlen, List.take_left, List.drop_append, List.drop_of_length_le (by omega), List.drop_drop]
  simp [hlen, Nat.add_assoc, List.append_assoc]

theorem memcpy_length {dst src out : List UInt8} {doff soff n : Int}
    (h : memcpy dst doff src soff n = some out) : out.length = dst.length := by
  unfold memcpy at h
  split at h
  · cases h
    simp only [List.length_append, List.length_take, List.length_drop]
    omega
  · cases h

/-- A copy looks at the part of its source that it copies. -/
theorem memcpy_congr {dst src src' : List UInt8} {doff soff n : Int} {k : Nat}
    (hlen : src.length = src'.length) (hk : src.take k = src'.take k) (hn : soff + n ≤ k) :
    memcpy dst doff src soff n = memcpy dst doff src' soff n := by
  unfold memcpy
  rw [hlen]
  split
  · have hpart : ∀ xs : List UInt8, (xs.drop soff.toNat).take n.toNat =
        ((xs.take k).drop soff.toNat).take n.toNat := by
      intro xs
      rw [List.drop_take, List.take_take, Nat.min_eq_left (by omega)]
    rw [hpart src, hk, ← hpart src']
  · rfl

/-! ## Little-endian fields -/

/-- The bytes of a `uint16_t`, lowest first. -/
def le16 (x : Int) : List UInt8 := [UInt8.ofNat x.toNat, UInt8.ofNat (x / 256).toNat]

/-- The bytes of a `uint32_t`, lowest first. -/
def le32 (x : Int) : List UInt8 :=
  [UInt8.ofNat x.toNat, UInt8.ofNat (x / 256).toNat, UInt8.ofNat (x / 65536).toNat,
    UInt8.ofNat (x / 16777216).toNat]

/-- The `uint16_t` of two bytes. -/
def ofLe16 (b0 b1 : UInt8) : Int := b0.toNat + 256 * b1.toNat

/-- The `uint32_t` of four bytes. -/
def ofLe32 (b0 b1 b2 b3 : UInt8) : Int :=
  b0.toNat + 256 * b1.toNat + 65536 * b2.toNat + 16777216 * b3.toNat

@[simp] theorem le16_length (x : Int) : (le16 x).length = 2 := rfl

@[simp] theorem le32_length (x : Int) : (le32 x).length = 4 := rfl

theorem ofLe32_nonneg (b0 b1 b2 b3 : UInt8) : 0 ≤ ofLe32 b0 b1 b2 b3 := by
  unfold ofLe32
  omega

theorem ofLe32_lt (b0 b1 b2 b3 : UInt8) : ofLe32 b0 b1 b2 b3 < 4294967296 := by
  unfold ofLe32
  have := b0.toNat_lt; have := b1.toNat_lt; have := b2.toNat_lt; have := b3.toNat_lt
  omega

end dect_prog
