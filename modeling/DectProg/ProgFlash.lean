-- What prog_flash_req asks for (flashloader.c): the next block of the image that
-- is not all 0xFF, rounded up to words of two bytes.
import DectProg.Loader

open dect_prog.package dect_prog.crc

namespace dect_prog.flashloader

/-! ## Blocks of 0xFF -/

theorem load_natCast (mem : List UInt8) (i : Nat) : load mem i = mem[i]? := by
  unfold load
  rw [if_pos (by omega), Int.toNat_natCast]

/-- As long as a byte other than 0xFF is still ahead, the test finds out whether all the bytes
are 0xFF. -/
theorem is_data_ff.spec (img : List UInt8) (k : Nat) (hk : k < img.length) (hne : img[k] ≠ 0xff) :
    ∀ (n off : Nat), off ≤ k →
      is_data_ff img n off = some true ∧ (∀ i < n, img[off + i]? = some 0xff) ∨
      is_data_ff img n off = some false ∧ ∃ i < n, img[off + i]? ≠ some 0xff := by
  intro n
  induction n with
  | zero =>
    intro off _
    exact .inl ⟨rfl, fun i hi => absurd hi (Nat.not_lt_zero i)⟩
  | succ n ih =>
    intro off hoff
    have hload : load img off = some img[off] := by
      rw [load_natCast, List.getElem?_eq_getElem (by omega)]
    by_cases hff : img[off] = 0xff
    · have hlt : off ≠ k := by
        rintro rfl
        exact hne hff
      have hnext : ((off : Int) + 1) = (off + 1 : Nat) := by omega
      have hfirst : is_data_ff img (n + 1) off = is_data_ff img n (off + 1 : Nat) := by
        rw [is_data_ff, hload, Option.bind_eq_bind, Option.bind_some, if_neg (not_not.mpr hff), hnext]
      have hplace : ∀ i, off + (i + 1) = off + 1 + i := by omega
      rw [hfirst]
      rcases ih (off + 1) (by omega) with ⟨h, hall⟩ | ⟨h, i, hi, hi'⟩
      · refine .inl ⟨h, fun i hi => ?_⟩
        cases i with
        | zero => rw [Nat.add_zero, List.getElem?_eq_getElem (by omega), hff]
        | succ i =>
          rw [hplace]
          exact hall i (by omega)
      · refine .inr ⟨h, i + 1, by omega, ?_⟩
        rw [hplace]
        exact hi'
    · refine .inr ⟨by simp [is_data_ff, hload, hff], 0, by omega, ?_⟩
      rw [Nat.add_zero, List.getElem?_eq_getElem (by omega)]
      simpa using hff

/-- The loop stops at the first block that is not all 0xFF. -/
theorem skipDataFf.spec (img : List UInt8) (k : Nat) (hk : k < img.length) (hne : img[k] ≠ 0xff)
    (hmax : (k : Int) ≤ INT_MAX) :
    ∀ (fuel off : Nat), off ≤ k → k < off + fuel →
      ∃ of : Nat, skipDataFf img fuel off = some (of : Int) ∧ off ≤ of ∧ of ≤ k ∧
        2048 ∣ of - off ∧ ∀ i, off ≤ i → i < of → img[i]? = some 0xff := by
  intro fuel
  induction fuel with
  | zero =>
    intro off h1 h2
    omega
  | succ fuel ih =>
    intro off hoff hfuel
    rcases is_data_ff.spec img k hk hne 2048 off hoff with ⟨h, hall⟩ | ⟨h, -⟩
    · have hfar : off + 2048 ≤ k := by
        by_contra hlt
        have := hall (k - off) (by omega)
        rw [Nat.add_sub_cancel' hoff, List.getElem?_eq_getElem hk, Option.some.injEq] at this
        exact hne this
      have hadd : intAdd (off : Int) 2048 = some ((off + 2048 : Nat) : Int) :=
        intAdd_of_range (by omega) (by omega)
      obtain ⟨of, hskip, h1, h2, h3, h4⟩ := ih (off + 2048) hfar (by omega)
      have hstep : skipDataFf img (fuel + 1) off = skipDataFf img fuel (off + 2048 : Nat) := by
        simp only [skipDataFf, h, hadd, Option.bind_eq_bind, Option.bind_some, if_true]
      refine ⟨of, hstep.trans hskip, by omega, h2, ?_, ?_⟩
      · have : of - off = (of - (off + 2048)) + 2048 := by omega
        rw [this]
        exact Nat.dvd_add h3 (Nat.dvd_refl 2048)
      · intro i hi1 hi2
        by_cases hi : i < off + 2048
        · have := hall (i - off) (by omega)
          rw [Nat.add_sub_cancel' hi1] at this
          exact this
        · exact h4 i (by omega) hi2
    · refine ⟨off, by simp [skipDataFf, h], Nat.le_refl _, hoff, by simp, ?_⟩
      intro i h1 h2
      omega

/-- In front of the array there is no byte to look at. -/
theorem progFlash_negative {pr : bin_img} {offset : Int} (h : offset < 0) :
    progFlash pr offset = none := by
  have hload : load pr.img offset = none := by
    unfold load
    rw [if_neg (by omega)]
  have hff : is_data_ff pr.img 2048 offset = none := by
    rw [is_data_ff, hload]
    rfl
  unfold progFlash
  rw [skipDataFf, hff]
  rfl

/-! ## The image -/

/-- The loader has read the file. -/
structure Image (pr : bin_img) (file : List UInt8) : Prop where
  size : pr.size = file.length
  /-- Behind an image of odd size there is at least one byte 0xFF. -/
  img : ∃ g0 g1 g2, pr.img = file ++ [g0, g1, g2] ∧ (file.length % 2 = 1 → g0 = 0xff)

theorem read_firmware.spec (file : List UInt8) (g0 g1 g2 : UInt8)
    (h : (file.length : Int) + 3 ≤ INT_MAX) :
    ∃ pr, read_firmware file g0 g1 g2 = some pr ∧ Image pr file := by
  refine ⟨_, by rw [read_firmware, dif_pos h], rfl, ?_⟩
  by_cases hodd : file.length % 2 = 1
  · exact ⟨0xff, 0xff, 0xff, by simp [hodd], fun _ => rfl⟩
  · exact ⟨g0, g1, g2, by simp [hodd], fun h => absurd h hodd⟩

theorem calculate_checksum.spec {pr : bin_img} {file : List UInt8} (h : Image pr file) :
    ∃ pr', calculate_checksum pr = some pr' ∧ Image pr' file := by
  obtain ⟨g0, g1, g2, himg, hodd⟩ := h.img
  obtain ⟨c, hc⟩ : ∃ c, BlockCalculateCRC32 InitCalculateCRC32 pr.img file.length = some c :=
    ⟨_, BlockCalculateCRC32.spec _ _ _ (by simp [himg]; omega)⟩
  have hsize : pr.size.toNat = file.length := by rw [h.size, Int.toNat_natCast]
  refine ⟨{ pr with checksum := GetCRC32 c }, ?_, h.size, g0, g1, g2, himg, hodd⟩
  simp [calculate_checksum, CalculateCRC32, hsize, hc]

/-! ## The next block -/

/-- The memory that an image stands for: 0xFF behind its end. -/
def image (file : List UInt8) (i : Nat) : UInt8 := file.getD i 0xff

theorem image_of_le {file : List UInt8} {i : Nat} (h : file.length ≤ i) : image file i = 0xff := by
  simp [image, h]

/-- A message holds the words of the image from `of` on, up to the end of the block or of the
image. -/
structure Block (file : List UInt8) (of : Nat) (m : prog_flash_t) : Prop where
  address : m.Address = of
  length : m.Length = (m.Data.length / 2 : Nat)
  even : m.Data.length % 2 = 0
  le : m.Data.length ≤ 2048
  full : m.Data.length < 2048 → file.length ≤ of + m.Data.length
  inside : of + m.Data.length ≤ file.length + file.length % 2
  data : ∀ i < m.Data.length, m.Data[i]? = some (image file (of + i))

/-- The words that are programmed from a place of the image on. -/
def blockWords (file : List UInt8) (of : Nat) : Nat := min 1024 ((file.length - of + 1) / 2)

theorem Block.words {file : List UInt8} {of : Nat} {m : prog_flash_t} (h : Block file of m)
    (heven : 2048 ∣ of) : m.Length = blockWords file of := by
  have hwords := h.length
  have heven' := h.even
  have hle := h.le
  have hfull := h.full
  have hinside := h.inside
  unfold blockWords
  omega

theorem Image.data {pr : bin_img} {file : List UInt8} (h : Image pr file) (of n : Nat)
    (hof : of % 2 = 0) (hn : of + n ≤ file.length + file.length % 2) :
    ∃ data, slice pr.img of n = some data ∧ data.length = n ∧
      ∀ i < n, data[i]? = some (image file (of + i)) := by
  obtain ⟨g0, g1, g2, himg, hodd⟩ := h.img
  have hlen : pr.img.length = file.length + 3 := by simp [himg]
  refine ⟨(pr.img.drop of).take n, ?_, ?_, ?_⟩
  · unfold slice
    rw [if_pos (by omega), Int.toNat_natCast, Int.toNat_natCast]
  · simp only [List.length_take, List.length_drop]
    omega
  · intro i hi
    rw [List.getElem?_take_of_lt hi, List.getElem?_drop, himg]
    by_cases hin : of + i < file.length
    · simp [image, List.getElem?_append_left hin, List.getElem?_eq_getElem hin]
    · -- The byte that fills up the last word of an image of odd size.
      have hlast : of + i = file.length := by omega
      rw [image_of_le (by omega), List.getElem?_append_right (by omega), hlast, Nat.sub_self,
        ← hodd (by omega)]
      rfl

/-- `prog_flash_req` from a place inside the image on: it asks for the block at the first place
from there on where the image is not all 0xFF. -/
theorem progFlash.spec {pr : bin_img} {file : List UInt8} (h : Image pr file)
    (hmax : (file.length : Int) + 2048 ≤ INT_MAX) (hlast : file.getLast? ≠ some 0xff) {off : Nat}
    (hoff : off < file.length) (heven : 2048 ∣ off) :
    ∃ of m, progFlash pr off = some m ∧ Block file of m ∧ off ≤ of ∧ of < file.length ∧
      2048 ∣ of ∧ ∀ i, off ≤ i → i < of → image file i = 0xff := by
  obtain ⟨g0, g1, g2, himg, -⟩ := h.img
  have hlen : pr.img.length = file.length + 3 := by simp [himg]
  have hk : pr.img[file.length - 1] ≠ 0xff := by
    intro hff
    apply hlast
    rw [List.getLast?_eq_getElem?, List.getElem?_eq_getElem (by omega), ← hff]
    simp only [himg]
    rw [List.getElem_append_left]
  obtain ⟨of, hskip, h1, h2, h3, h4⟩ := skipDataFf.spec pr.img (file.length - 1) (by omega) hk
    (by omega) (pr.img.length + 1) off (by omega) (by omega)
  have hof : 2048 ∣ of := by
    rw [← Nat.sub_add_cancel h1]
    exact Nat.dvd_add h3 heven
  have hadd : intAdd (of : Int) 2048 = some ((of : Int) + 2048) :=
    intAdd_of_range (by omega) (by omega)
  have hu : u32 (of : Int) = of := u32_of_range (by omega) (by omega)
  have hgap : ∀ i, off ≤ i → i < of → image file i = 0xff := by
    intro i hi1 hi2
    have := h4 i hi1 hi2
    rw [himg, List.getElem?_append_left (by omega)] at this
    simp [image, this]
  have hsize := h.size
  by_cases hend : of + 2048 > file.length
  · -- The last block: its size is rounded up to words.
    obtain ⟨data, hslice, hdlen, hdata⟩ := h.data of
      (file.length - of + (file.length - of) % 2) (by omega) (by omega)
    have hround : (if ((file.length : Int) - of) % 2 ≠ 0 then (file.length : Int) - of + 1
        else (file.length : Int) - of) = (file.length - of + (file.length - of) % 2 : Nat) := by
      split <;> omega
    refine ⟨of, ⟨of, (data.length / 2 : Nat), data⟩, ?_, ?_, h1, by omega, hof, hgap⟩
    · have hhalf : ((file.length - of + (file.length - of) % 2 : Nat) : Int) / 2 =
          (data.length / 2 : Nat) := by omega
      rw [progFlash, hskip, Option.bind_eq_bind, Option.bind_some, hadd, Option.bind_eq_bind,
        Option.bind_some, hsize, if_pos (by omega)]
      dsimp only
      rw [hround, hslice, Option.bind_some, hu, hhalf]
    · refine ⟨rfl, rfl, ?_, ?_, fun _ => ?_, ?_, fun i hi => hdata i ?_⟩ <;> dsimp only at * <;> omega
  · obtain ⟨data, hslice, hdlen, hdata⟩ := h.data of 2048 (by omega) (by omega)
    refine ⟨of, ⟨of, (data.length / 2 : Nat), data⟩, ?_, ?_, h1, by omega, hof, hgap⟩
    · rw [Int.cast_ofNat_Int] at hslice
      have hhalf : (2048 : Int) / 2 = (data.length / 2 : Nat) := by omega
      rw [progFlash, hskip, Option.bind_eq_bind, Option.bind_some, hadd, Option.bind_eq_bind,
        Option.bind_some, hsize, if_neg (by omega), hslice, Option.bind_some, hu, hhalf]
    · refine ⟨rfl, rfl, ?_, ?_, fun _ => ?_, ?_, fun i hi => hdata i ?_⟩ <;> dsimp only at * <;> omega

end dect_prog.flashloader
