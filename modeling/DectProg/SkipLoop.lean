-- The loop of prog_flash_req that skips blocks of 0xFF (flashloader.c), for any
-- image: it has no bound on the offset, so it stops inside the image only where
-- a byte other than 0xFF is still ahead in a block that begins there.
import DectProg.ProgFlash

open dect_prog.package dect_prog.crc

namespace dect_prog.flashloader

/-! ## What the loop has seen when it stops -/

theorem is_data_ff_true {img : List UInt8} {n : Nat} :
    ∀ {off : Nat}, is_data_ff img n off = some true → ∀ i < n, img[off + i]? = some 0xff := by
  induction n with
  | zero =>
    intro off _ i hi
    exact absurd hi (Nat.not_lt_zero i)
  | succ n ih =>
    intro off h i hi
    rw [is_data_ff, load_natCast] at h
    obtain ⟨x, hx, h⟩ := Option.bind_eq_some_iff.mp h
    have hnext : ((off : Int) + 1) = (off + 1 : Nat) := by omega
    split at h
    · cases h
    · rename_i hff
      cases i with
      | zero => rw [Nat.add_zero, hx, not_not.mp hff]
      | succ i =>
        rw [hnext] at h
        have hplace : off + (i + 1) = off + 1 + i := by omega
        rw [hplace]
        exact ih h i (by omega)

theorem is_data_ff_false {img : List UInt8} {n : Nat} :
    ∀ {off : Nat}, is_data_ff img n off = some false →
      ∃ i < n, ∃ x, img[off + i]? = some x ∧ x ≠ 0xff := by
  induction n with
  | zero =>
    intro off h
    cases h
  | succ n ih =>
    intro off h
    rw [is_data_ff, load_natCast] at h
    obtain ⟨x, hx, h⟩ := Option.bind_eq_some_iff.mp h
    have hnext : ((off : Int) + 1) = (off + 1 : Nat) := by omega
    split at h
    · rename_i hne
      exact ⟨0, by omega, x, hx, hne⟩
    · rw [hnext] at h
      obtain ⟨i, hi, y, hy, hne⟩ := ih h
      have hplace : off + 1 + i = off + (i + 1) := by omega
      exact ⟨i + 1, by omega, y, by rw [← hplace]; exact hy, hne⟩

/-- The loop goes on block by block, over bytes that are all 0xFF, and stops in front of a block
that is not. -/
theorem skipDataFf_stops {img : List UInt8} {of : Int} {fuel : Nat} :
    ∀ {off : Nat}, skipDataFf img fuel off = some of →
      ∃ k : Nat, of = (off + 2048 * k : Nat) ∧
        (∀ i, off ≤ i → i < off + 2048 * k → img[i]? = some 0xff) ∧
        ∃ j < 2048, ∃ x, img[off + 2048 * k + j]? = some x ∧ x ≠ 0xff := by
  induction fuel with
  | zero =>
    intro off h
    cases h
  | succ fuel ih =>
    intro off h
    rw [skipDataFf] at h
    obtain ⟨ff, hff, h⟩ := Option.bind_eq_some_iff.mp h
    cases ff with
    | false =>
      cases h
      obtain ⟨j, hj, x, hx, hne⟩ := is_data_ff_false hff
      rw [← Nat.add_zero off, ← Nat.mul_zero 2048] at hx
      refine ⟨0, by simp, fun i h1 h2 => ?_, j, hj, x, hx, hne⟩
      rw [Nat.mul_zero] at h2
      omega
    | true =>
      rw [if_pos rfl] at h
      obtain ⟨next, hadd, h⟩ := Option.bind_eq_some_iff.mp h
      have hnext : next = (off + 2048 : Nat) := by
        unfold intAdd at hadd
        split at hadd
        · cases hadd
          rfl
        · cases hadd
      rw [hnext] at h
      obtain ⟨k, hof, hall, j, hj, x, hx, hne⟩ := ih h
      have hplace : off + 2048 + 2048 * k = off + 2048 * (k + 1) := by omega
      rw [hplace] at hof hall hx
      refine ⟨k + 1, hof, fun i h1 h2 => ?_, j, hj, x, hx, hne⟩
      by_cases hi : i < off + 2048
      · have := is_data_ff_true hff (i - off) (by omega)
        rw [Nat.add_sub_cancel' h1] at this
        exact this
      · exact hall i (by omega) h2

/-- A message asks for the block at `of`, with all its bytes that are in the image. -/
structure Requests (pr : bin_img) (of : Nat) (m : prog_flash_t) : Prop where
  address : m.Address = of
  data : ∀ i < 2048, (of + i : Nat) < pr.size → m.Data[i]? = pr.img[of + i]?

theorem slice_getElem {mem data : List UInt8} {of : Nat} {n : Int}
    (h : slice mem of n = some data) (i : Nat) (hi : i < n) : data[i]? = mem[of + i]? := by
  unfold slice at h
  split at h
  · cases h
    rw [List.getElem?_take_of_lt (by omega), List.getElem?_drop, Int.toNat_natCast]
  · cases h

/-- The block that is requested begins a number of blocks behind the offset; before it there is
nothing but 0xFF, and in it, or in the bytes behind the image, something else. -/
theorem progFlash_asks {pr : bin_img} {off : Nat} {m : prog_flash_t}
    (h : progFlash pr off = some m) :
    ∃ of k : Nat, of = off + 2048 * k ∧ Requests pr of m ∧ (of : Int) + 2048 ≤ INT_MAX ∧
      (∀ i, off ≤ i → i < of → pr.img[i]? = some 0xff) ∧
      ∃ j < 2048, ∃ x, pr.img[of + j]? = some x ∧ x ≠ 0xff := by
  rw [progFlash] at h
  obtain ⟨of, hskip, h⟩ := Option.bind_eq_some_iff.mp h
  obtain ⟨next, hadd, h⟩ := Option.bind_eq_some_iff.mp h
  obtain ⟨k, rfl, hall, hstop⟩ := skipDataFf_stops hskip
  generalize hof : off + 2048 * k = of at *
  have hnext : next = (of : Int) + 2048 ∧ (of : Int) + 2048 ≤ INT_MAX := by
    unfold intAdd at hadd
    split at hadd
    · rename_i hrange
      cases hadd
      exact ⟨rfl, hrange.2⟩
    · cases hadd
  have hu : u32 (of : Int) = of := u32_of_range (by omega) (by omega)
  refine ⟨of, k, hof.symm, ?_, hnext.2, hall, hstop⟩
  split at h
  · obtain ⟨data, hdata, h⟩ := Option.bind_eq_some_iff.mp h
    cases h
    refine ⟨hu, fun i hi hin => slice_getElem hdata i ?_⟩
    split <;> omega
  · obtain ⟨data, hdata, h⟩ := Option.bind_eq_some_iff.mp h
    cases h
    exact ⟨hu, fun i hi _ => slice_getElem hdata i (by omega)⟩

/-! ## The loop stays inside the image -/

/-- The loop stops, and every byte that it looked at is one of the array. Then a block is requested
that begins inside the image and is not empty, or nothing but 0xFF is left and nothing is sent. -/
structure StaysInside (l : Loader) (offset : Int) : Prop where
  stops : ∃ fuel of, skipDataFf l.pr.img fuel offset = some of
  asks : (∃ m, progFlash l.pr offset = some m ∧
      prog_flash_req l offset = some (send_packet l m.bytes) ∧
      0 ≤ m.Address ∧ m.Address < l.pr.size ∧ 1 ≤ m.Data.length ∧ m.Data.length ≤ 2048) ∨
    (∀ i : Nat, offset ≤ i → i < l.pr.size → l.pr.img[i]? = some 0xff) ∧
      ∃ l', prog_flash_req l offset = some l' ∧ l'.tty = l.tty

theorem send_packet_tty_ne (l : Loader) (data : List UInt8) : (send_packet l data).tty ≠ l.tty := by
  simp [send_packet, make_tx_packet]

/-- A block that begins inside the image is requested with one byte at least. -/
theorem progFlash_inside {pr : bin_img} {off of fuel : Nat} (hfuel : fuel = pr.img.length + 1)
    (hskip : skipDataFf pr.img fuel off = some (of : Int)) (hof : (of : Int) < pr.size)
    (hmax : (of : Int) + 2048 ≤ INT_MAX) :
    ∃ m, progFlash pr off = some m ∧ m.Address = of ∧ 1 ≤ m.Data.length ∧
      m.Data.length ≤ 2048 := by
  have himg := pr.img_length
  have hadd : intAdd (of : Int) 2048 = some ((of : Int) + 2048) :=
    intAdd_of_range (by omega) hmax
  have hu : u32 (of : Int) = of := u32_of_range (by omega) (by omega)
  have hslice : ∀ n : Int, 1 ≤ n → of + n ≤ pr.img.length →
      ∃ data, slice pr.img of n = some data ∧ (data.length : Int) = n := by
    intro n hn hle
    refine ⟨_, by unfold slice; rw [if_pos (by omega)], ?_⟩
    simp only [List.length_take, List.length_drop]
    omega
  subst hfuel
  by_cases hend : (of : Int) + 2048 > pr.size
  · obtain ⟨data, hdata, hlen⟩ := hslice
      (if (pr.size - of) % 2 ≠ 0 then pr.size - of + 1 else pr.size - of)
      (by split <;> omega) (by split <;> omega)
    refine ⟨⟨u32 of, (if (pr.size - of) % 2 ≠ 0 then pr.size - of + 1 else pr.size - of) / 2, data⟩,
      ?_, hu, ?_, ?_⟩
    · unfold progFlash
      rw [hskip, Option.bind_eq_bind, Option.bind_some, hadd, Option.bind_eq_bind,
        Option.bind_some, if_pos hend]
      dsimp only
      rw [hdata, Option.bind_some]
    · dsimp only
      split at hlen <;> omega
    · dsimp only
      split at hlen <;> omega
  · obtain ⟨data, hdata, hlen⟩ := hslice 2048 (by omega) (by omega)
    refine ⟨⟨u32 of, 2048 / 2, data⟩, ?_, hu, ?_, ?_⟩
    · unfold progFlash
      rw [hskip, Option.bind_eq_bind, Option.bind_some, hadd, Option.bind_eq_bind,
        Option.bind_some, if_neg hend, hdata, Option.bind_some]
    · dsimp only
      omega
    · dsimp only
      omega

/-- The skip loop stays inside the image exactly when, from the offset on, there is a byte other
than 0xFF in a block that begins inside the image; a block is then requested, also when all that is
left of the image is 0xFF. -/
theorem the_skip_loop_stays_inside_iff (l : Loader) (offset : Nat) :
    StaysInside l offset ↔
      ∃ (i : Nat) (x : UInt8), offset ≤ i ∧ l.pr.img[i]? = some x ∧ x ≠ 0xff ∧
        (offset + 2048 * ((i - offset) / 2048) : Nat) < l.pr.size ∧
        (offset + 2048 * ((i - offset) / 2048) : Nat) + 2048 ≤ INT_MAX := by
  have himg := l.pr.img_length
  have hle := l.pr.size_le
  constructor
  · rintro ⟨-, ⟨m, hm, -, -, haddress, -⟩ | ⟨-, l', hl', htty⟩⟩
    · obtain ⟨of, k, hof, hrequests, hmax, -, j, hj, x, hx, hne⟩ := progFlash_asks hm
      have haddress' := hrequests.address
      have hblock : (of + j - offset) / 2048 = k := by omega
      refine ⟨of + j, x, by omega, hx, hne, ?_, ?_⟩
      · rw [hblock]
        omega
      · rw [hblock]
        omega
    · obtain ⟨m, -, hm⟩ := Option.bind_eq_some_iff.mp hl'
      cases hm
      exact absurd htty (send_packet_tty_ne l m.bytes)
  · rintro ⟨i, x, hi, hx, hne, hin, hmax⟩
    obtain ⟨hlt, hx'⟩ := List.getElem?_eq_some_iff.mp hx
    obtain ⟨of, hskip, h1, h2, ⟨k, hk⟩, -⟩ := skipDataFf.spec l.pr.img i hlt
      (by rw [hx']; exact hne) (by omega) (l.pr.img.length + 1) offset hi (by omega)
    -- The loop stops in the block of the byte, or before it.
    have hblock : of ≤ offset + 2048 * ((i - offset) / 2048) := by omega
    obtain ⟨m, hm, haddress, h3, h4⟩ := progFlash_inside rfl hskip (by omega) (by omega)
    refine ⟨⟨_, _, hskip⟩, .inl ⟨m, hm, ?_, by omega, by omega, h3, h4⟩⟩
    unfold prog_flash_req
    rw [hm]
    rfl

/-- An image of one byte that is not 0xFF. -/
theorem the_skip_loop_stays_inside_iff_for_one_byte :
    ∃ pr, read_firmware [7] 0 0 0 = some pr ∧
      StaysInside ⟨pr, ⟨0, 0, 0, 0, 0, 0, 0, 0⟩, 0, 0, []⟩ (0 : Nat) := by
  refine ⟨_, rfl, (the_skip_loop_stays_inside_iff _ 0).mpr ?_⟩
  exact ⟨0, 7, by decide, rfl, by decide, by decide, by decide⟩

/-- An image of one byte 0xFF: the loop leaves the four bytes of the array. -/
theorem the_skip_loop_leaves_an_image_of_0xff :
    ∃ pr, read_firmware [0xff] 0 0 0 = some pr ∧
      (∀ fuel, skipDataFf pr.img fuel 0 = none) ∧
      ¬ StaysInside ⟨pr, ⟨0, 0, 0, 0, 0, 0, 0, 0⟩, 0, 0, []⟩ (0 : Nat) := by
  have hskip : ∀ fuel, skipDataFf [0xff, 0xff, 0xff, 0xff] fuel 0 = none := by
    intro fuel
    cases fuel with
    | zero => rfl
    | succ fuel =>
      have hff : is_data_ff [0xff, 0xff, 0xff, 0xff] 2048 0 = none := by decide
      unfold skipDataFf
      rw [hff]
      rfl
  refine ⟨_, rfl, hskip, ?_⟩
  rintro ⟨⟨fuel, of, h⟩, -⟩
  cases (hskip fuel).symm.trans h

end dect_prog.flashloader
