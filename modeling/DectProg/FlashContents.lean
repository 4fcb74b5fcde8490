-- What can get into the flash (flashloader.c). The target may send what it likes
-- in any order, and carry out the requests in any order and as often as it likes:
-- where something is written after the last erase, it is the image.
import Mathlib.Data.List.TakeWhile
import DectProg.Flashing
import DectProg.SkipLoop
import DectProg.Overlay

open machine overlay dect_prog.package

namespace dect_prog.flashloader

/-! ## What is asked for -/

/-- A message holds whole words of the array from `of` on, and no more than one byte of them is
behind the image. -/
structure Part (pr : bin_img) (of : Nat) (m : prog_flash_t) : Prop where
  address : m.Address = of
  max : (of : Int) + 2048 ≤ INT_MAX
  length : m.Length = (m.Data.length / 2 : Nat)
  even : m.Data.length % 2 = 0
  le : m.Data.length ≤ 2048
  inside : m.Data ≠ [] → ((of + m.Data.length : Nat) : Int) ≤ pr.size + 1
  data : ∀ i < m.Data.length, m.Data[i]? = pr.img[of + i]?

theorem slice_length {mem data : List UInt8} {off n : Int} (h : slice mem off n = some data) :
    (data.length : Int) = n := by
  unfold slice at h
  split at h
  · cases h
    simp only [List.length_take, List.length_drop]
    omega
  · cases h

/-- Whatever the offset is, what is asked for is a part of the image. -/
theorem progFlash_part {pr : bin_img} {offset : Int} {m : prog_flash_t}
    (h : progFlash pr offset = some m) : ∃ of, Part pr of m := by
  have hnonneg : 0 ≤ offset := by
    by_contra hneg
    rw [progFlash_negative (by omega)] at h
    cases h
  obtain ⟨off, rfl⟩ := Int.eq_ofNat_of_zero_le hnonneg
  rw [progFlash] at h
  obtain ⟨of, hskip, h⟩ := Option.bind_eq_some_iff.mp h
  obtain ⟨next, hadd, h⟩ := Option.bind_eq_some_iff.mp h
  obtain ⟨k, rfl, -, -⟩ := skipDataFf_stops hskip
  generalize off + 2048 * k = of at *
  have hnext : next = (of : Int) + 2048 ∧ (of : Int) + 2048 ≤ INT_MAX := by
    unfold intAdd at hadd
    split at hadd
    · rename_i hrange
      cases hadd
      exact ⟨rfl, hrange.2⟩
    · cases hadd
  have hu : u32 (of : Int) = of := u32_of_range (by omega) (by omega)
  split at h
  · -- The last block, rounded up to words.
    obtain ⟨data, hdata, h⟩ := Option.bind_eq_some_iff.mp h
    cases h
    have hlen := slice_length hdata
    refine ⟨of, hu, hnext.2, ?_, ?_, ?_, fun _ => ?_, fun i hi => slice_getElem hdata i ?_⟩ <;>
      dsimp only at * <;> split at hlen <;> omega
  · obtain ⟨data, hdata, h⟩ := Option.bind_eq_some_iff.mp h
    cases h
    have hlen := slice_length hdata
    refine ⟨of, hu, hnext.2, ?_, ?_, ?_, fun _ => ?_, fun i hi => slice_getElem hdata i ?_⟩ <;>
      dsimp only at * <;> omega

/-- The requests that the loader of an image sends. -/
inductive Asks (pr : bin_img) : List UInt8 → Prop
  | opening {r : List UInt8} (h : r ∈ opening) : Asks pr r
  | program {of : Nat} {m : prog_flash_t} (h : Part pr of m) : Asks pr m.bytes
  | checksum : Asks pr ([CALC_CRC32_REQ] ++ le32 0 ++ le32 (u32 pr.size))

theorem Sends.asks {l l' : Loader} {p : packet_t} {o : List (List UInt8)} (h : Sends l p l' o) :
    ∀ r ∈ o, Asks l.pr r := by
  cases h with
  | config h hl =>
    intro r hr
    exact .opening (by simp [List.mem_singleton.mp hr, opening])
  | flash_type h hl =>
    intro r hr
    exact .opening (by simp [List.mem_singleton.mp hr, opening])
  | erase h hl =>
    intro r hr
    exact .opening (by simp [List.mem_singleton.mp hr, opening])
  | program offset m h hm hl =>
    intro r hr
    obtain ⟨of, hpart⟩ := progFlash_part hm
    rw [List.mem_singleton.mp hr]
    exact .program hpart
  | checksum h hc ha hl =>
    intro r hr
    rw [List.mem_singleton.mp hr]
    exact .checksum
  | nothing h hl =>
    intro r hr
    cases hr

def Clears (r : List UInt8) : Prop := r.head? = some FLASH_ERASE_REQ

/-- The words of a program request. -/
def words (r : List UInt8) : List UInt8 :=
  (r.drop 7).take (2 * ofLe16 (r.getD 5 0) (r.getD 6 0)).toNat

/-- The request is to program the place `i`. -/
def Programs (r : List UInt8) (i : Nat) : Prop :=
  r.head? = some PROG_FLASH_REQ ∧ (uint32Of r 1).toNat ≤ i ∧
    i < (uint32Of r 1).toNat + (words r).length

instance (r : List UInt8) : Decidable (Clears r) := inferInstanceAs (Decidable (_ = _))

instance (r : List UInt8) (i : Nat) : Decidable (Programs r i) := inferInstanceAs (Decidable (_ ∧ _))

/-- What a request that is carried out gives to the places of the flash. -/
def change (r : List UInt8) (i : Nat) : Option UInt8 :=
  if Clears r then some 0xff
  else if Programs r i then some ((words r).getD (i - (uint32Of r 1).toNat) 0)
  else none

theorem Part.words {pr : bin_img} {of : Nat} {m : prog_flash_t} (h : Part pr of m) :
    (uint32Of m.bytes 1).toNat = of ∧ words m.bytes = m.Data := by
  have haddress := h.address
  have hmax := h.max
  have hle := h.le
  have heven := h.even
  have hINT : INT_MAX = 2147483647 := rfl
  constructor
  · rw [bytes_Address (by omega) (by omega), haddress, Int.toNat_natCast]
  · have hlength : ofLe16 (m.bytes.getD 5 0) (m.bytes.getD 6 0) = (m.Data.length / 2 : Nat) := by
      rw [bytes_Length (by rw [h.length]; omega) (by rw [h.length]; omega), h.length]
    have hall : (2 * ((m.Data.length / 2 : Nat) : Int)).toNat = m.Data.length := by omega
    unfold flashloader.words
    rw [hlength, bytes_Data, hall, List.take_length]

/-- A request that is no erase gives each place that it covers what the image has there. -/
theorem Asks.change {pr : bin_img} {r : List UInt8} (h : Asks pr r) (herase : ¬ Clears r)
    {i : Nat} : (Programs r i → change r i = pr.img[i]? ∧ (i : Int) ≤ pr.size) ∧
      (¬ Programs r i → change r i = none) := by
  unfold flashloader.change
  rw [if_neg herase]
  refine ⟨fun hprograms => ?_, fun hprograms => if_neg hprograms⟩
  rw [if_pos hprograms]
  obtain ⟨hhead, h1, h2⟩ := hprograms
  cases h with
  | opening hr =>
    simp only [flashloader.opening, List.mem_cons, List.not_mem_nil, or_false] at hr
    rcases hr with rfl | rfl | rfl | rfl <;> cases hhead
  | @program of m hpart =>
    obtain ⟨haddress, hwords⟩ := hpart.words
    rw [haddress] at h1 h2 ⊢
    rw [hwords] at h2 ⊢
    have hdata := hpart.data (i - of) (by omega)
    have hinside := hpart.inside (List.ne_nil_of_length_pos (by omega))
    rw [Nat.add_sub_cancel' h1] at hdata
    refine ⟨?_, by omega⟩
    rw [← hdata, List.getD_eq_getElem?_getD, List.getElem?_eq_getElem (by omega), Option.getD_some]
  | checksum => cases hhead

/-! ## The last erase -/

/-- The file, and the byte that may be programmed behind it. -/
def padded (file : List UInt8) (behind : UInt8) : List UInt8 :=
  file ++ [if file.length % 2 = 1 then 0xff else behind]

end dect_prog.flashloader
