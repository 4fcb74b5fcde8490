-- What the last request of the flash loader finds out: the target reports the CRC-32
-- of what its flash holds, and the process ends with 0 only where that is the one of
-- the image. Errors within 32 bits next to each other never pass.
import DectProg.ImageChecksum
import DectProg.Success

open bit_errors machine mirrored_register dect_prog.package

namespace dect_prog.crc

/-- A byte is its eight bits. -/
theorem bottomFirst_inj {x y : UInt8} (h : bottomFirst x = bottomFirst y) : x = y := by
  apply UInt8.toBitVec_inj.mp
  apply BitVec.eq_of_getLsbD_eq
  intro i hi
  unfold bottomFirst lowBits at h
  exact List.map_inj_left.mp h i (List.mem_range.mpr hi)

/-! ## Two checksums -/

/-- Two contents have the same checksum when the generator divides the flipped bits. -/
theorem same_crc32_iff {a b : List UInt8} (h : a.length = b.length) :
    reflectedCrc32 a = reflectedCrc32 b ↔ feed polynomial 0#32 (flips bottomFirst a b) = 0#32 := by
  have hlen : (message bottomFirst a).length = (message bottomFirst b).length := by
    rw [message_length bottomFirst_length, message_length bottomFirst_length, h]
  have hfeed := feed_xor polynomial (message bottomFirst a) (message bottomFirst b) 0xFFFFFFFF#32
    0xFFFFFFFF#32 hlen
  rw [BitVec.xor_self] at hfeed
  have hcrc : ∀ x : List UInt8, (reflectedCrc32 x).toBitVec =
      feed polynomial 0xFFFFFFFF#32 (message bottomFirst x) ^^^ 0xFFFFFFFF#32 := fun _ => rfl
  rw [flips, hfeed, BitVec.xor_eq_zero_iff, ← UInt32.toBitVec_inj, hcrc, hcrc,
    BitVec.xor_left_inj]

/-- Errors within 32 bits next to each other. -/
theorem burst_changes_crc32 {a b : List UInt8} (h : a.length = b.length) {bs : List Bool}
    {m n : Nat} (hflips : flips bottomFirst a b = List.replicate m false ++ bs ++ List.replicate n false)
    (hlen : bs.length ≤ 32) (hone : true ∈ bs) : reflectedCrc32 a ≠ reflectedCrc32 b := by
  rw [Ne, same_crc32_iff h, hflips]
  exact burst_ne_zero (by decide) hlen hone m n

/-- Errors within four bytes next to each other. -/
theorem bytes_change_crc32 {a m m' c : List UInt8} (h : m.length = m'.length) (hlen : m.length ≤ 4)
    (hne : m ≠ m') : reflectedCrc32 (a ++ m ++ c) ≠ reflectedCrc32 (a ++ m' ++ c) := by
  have hflips : flips bottomFirst (a ++ m ++ c) (a ++ m' ++ c) =
      List.replicate (8 * a.length) false ++ flips bottomFirst m m' ++ List.replicate (8 * c.length) false := by
    rw [flips_append bottomFirst_length c c (by simp [h]), flips_append bottomFirst_length m m' rfl,
      flips_self, flips_self, message_length bottomFirst_length, message_length bottomFirst_length]
  apply burst_changes_crc32 _ hflips
  · rw [flips_length bottomFirst_length h]
    omega
  · exact exists_flip bottomFirst_length bottomFirst_inj h hne
  · simp [h]

end dect_prog.crc

namespace dect_prog.flashloader

open dect_prog.crc

/-! ## The checksum of the image -/

theorem init_checksum {tty file : List UInt8} {g0 g1 g2 : UInt8} {l : Loader}
    (h : init_flashloader_state tty file g0 g1 g2 = some l) :
    l.pr.checksum = reflectedCrc32 file := by
  unfold init_flashloader_state at h
  by_cases hfits : (file.length : Int) + 3 ≤ INT_MAX
  · obtain ⟨pr, hpr, himage⟩ := read_firmware.spec file g0 g1 g2 hfits
    obtain ⟨x, y, z, himg, -⟩ := himage.img
    have hsize : pr.size.toNat = file.length := by rw [himage.size, Int.toNat_natCast]
    have hlen := pr.img_length
    have hcrc := CalculateCRC32.spec pr.img pr.size.toNat (by omega)
    rw [hsize, himg, List.take_left] at hcrc
    simp only [hpr, calculate_checksum, hsize, himg, hcrc, Option.bind_eq_bind, Option.bind_some,
      Option.some.injEq] at h
    rw [← h]
  · rw [read_firmware, dif_neg hfits] at h
    cases h

theorem run_checksum {l l' : Loader} {ps : List packet_t} {os : List (List (List UInt8))}
    (h : run flashStep l ps = some (l', os)) : l'.pr = l.pr := by
  have hstep : ∀ (s : Loader) (p : packet_t) (s' : Loader) (o : List (List UInt8)),
      s.pr = l.pr → flashStep s p = some (s', o) → s'.pr = l.pr :=
    fun _ _ _ _ hs hd => (flashStep_sends hd).pr.trans hs
  exact run_invariant hstep ps l l' os rfl h

/-! ## The law -/

/-- The target reports the CRC-32 of what its flash holds at the places of the image. In every run
the process ends with 0 on this report exactly when the generator divides the bits in which the
flash differs from the image, and with -1 otherwise. So it never ends with 0 when they differ in
bits that all lie within 32, or in bytes that all lie within four. -/
theorem a_burst_in_the_flash_is_found (tty file flash : List UInt8) (g0 g1 g2 : UInt8)
    (l0 l : Loader) (ps : List packet_t) (os : List (List (List UInt8))) (p : packet_t)
    (hinit : init_flashloader_state tty file g0 g1 g2 = some l0)
    (hrun : run flashStep l0 ps = some (l, os)) (hp : p.byte 0 = CALC_CRC32_CFM)
    (hcrc : cfmCrc32 p = (reflectedCrc32 flash).toNat) (hlen : flash.length = file.length) :
    flashloader_dispatch l p =
      .exited (if feed polynomial 0#32 (flips bottomFirst flash file) = 0#32 then 0 else -1) l ∧
    (∀ a bs c, flips bottomFirst flash file = List.replicate a false ++ bs ++ List.replicate c false →
      bs.length ≤ 32 → true ∈ bs → flashloader_dispatch l p = .exited (-1) l) ∧
    ∀ a m m' c, flash = a ++ m ++ c → file = a ++ m' ++ c → m.length ≤ 4 → m ≠ m' →
      flashloader_dispatch l p = .exited (-1) l := by
  have hsum : l.pr.checksum = reflectedCrc32 file := by
    rw [run_checksum hrun, init_checksum hinit]
  have hfield : cfmCrc32 p = l.pr.checksum.toNat ↔ reflectedCrc32 flash = reflectedCrc32 file := by
    rw [hcrc, hsum, Int.ofNat_inj, UInt32.toNat_inj]
  have hrefused : reflectedCrc32 flash ≠ reflectedCrc32 file →
      flashloader_dispatch l p = .exited (-1) l := by
    intro hne
    rw [dispatch_checksum hp, calc_crc32_cfm, if_neg (hfield.not.mpr hne)]
  refine ⟨?_, fun a bs c hflips hbs hone => ?_, fun a m m' c hflash hfile hm hne => ?_⟩
  · split
    · rename_i hdivides
      rw [dispatch_checksum hp, calc_crc32_cfm, if_pos (hfield.mpr ((same_crc32_iff hlen).mpr hdivides))]
    · rename_i hrest
      apply hrefused
      rw [Ne, same_crc32_iff hlen]
      exact hrest
  · apply hrefused
    exact burst_changes_crc32 hlen hflips hbs hone
  · apply hrefused
    have hsame : m.length = m'.length := by
      rw [hflash, hfile] at hlen
      simp only [List.length_append] at hlen
      omega
    rw [hflash, hfile]
    exact bytes_change_crc32 hsame hm hne

/-- One flipped bit in the image of one byte, which was erased and programmed. -/
theorem a_burst_in_the_flash_is_found_in_one_byte :
    ∃ l l' p os, init_flashloader_state [] [1] 0 0 0 = some l ∧
      run flashStep l [blank.carry [0x16] (by decide), firstBlock] = some (l', os) ∧
      cfmCrc32 p = (reflectedCrc32 [3]).toNat ∧ flashloader_dispatch l' p = .exited (-1) l' := by
  obtain ⟨l, hinit, himg, -⟩ := init_flashloader_state.spec [1] 0 0 0 (by decide)
  obtain ⟨m, -, hrun⟩ := one_block_run himg
  have hsize : ([CALC_CRC32_CFM] ++ le32 0 ++ le32 1 ++ le32 (reflectedCrc32 [3]).toNat).length ≤
      PACKET_SIZE := show 13 ≤ PACKET_SIZE by decide
  have hsum := (reflectedCrc32 [3]).toNat_lt
  have hcrc : cfmCrc32 (blank.carry _ hsize) = (reflectedCrc32 [3]).toNat := by
    unfold cfmCrc32
    rw [carry_uint32 blank hsize (by decide)]
    exact ofLe32_le32 (by omega) (by omega)
  have hlaw := (a_burst_in_the_flash_is_found [] [1] [3] 0 0 0 l _ _ _ (blank.carry _ hsize) hinit
    hrun (carry_head _ _ rfl) hcrc rfl).2.2 [] [3] [1] [] rfl rfl (by decide) (by decide)
  exact ⟨l, _, _, _, hinit, hrun, hcrc, hlaw⟩

end dect_prog.flashloader
