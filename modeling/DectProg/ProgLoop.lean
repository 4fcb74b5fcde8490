-- PROG mode as a whole process: before the flash loader is in charge only first bytes
-- count; then the loop of main.c, the ring buffer and the packet function do what the
-- dispatcher does with one frame after the other. So the first frame that is a checksum
-- confirm, or that breaks the program, says how the process ends.
import DectProg.FrameRuns
import DectProg.Programming
import DectProg.WireValues

open tape framing dect_prog.package dect_prog.buffer

namespace dect_prog.flashloader

/-! ## The frames that break the flash loader -/

/-- A frame with which the flash loader does what C does not define. -/
inductive Breaks (pr : bin_img) (p : packet_t) : Prop
  /-- The payload is copied over the end of the packet. -/
  | long (h : PACKET_SIZE < p.size)
  /-- A division by zero. -/
  | sector (hp : p.byte 0 = READ_PROPRIETARY_DATA_CFM) (h : uint32At p 11 = 0)
  /-- The search for a block to program, or the copy of it, leaves the image. -/
  | first (hp : p.byte 0 = FLASH_ERASE_CFM) (h : progFlash pr 0 = none)
  | next (hp : p.byte 0 = PROG_FLASH_CFM)
      (hmore : ¬ (cfmConfirm p = TRUE ∧ ¬ u32 (cfmAddress p + 0x800) < pr.size))
      (h : progFlash pr (s32 (confirmOffset p)) = none)

variable {l : Loader} {p : packet_t}

theorem request_returns (l : Loader) (offset : Int) :
    (progFlash l.pr offset = none ∧ returns (prog_flash_req l offset) = .undefined) ∨
      progFlash l.pr offset ≠ none ∧ ∃ l', returns (prog_flash_req l offset) = .running l' := by
  unfold prog_flash_req
  cases progFlash l.pr offset with
  | none => exact .inl ⟨rfl, rfl⟩
  | some m => exact .inr ⟨by simp, _, rfl⟩

/-- A program confirm asks for the checksum, or for the block that it leads to. -/
theorem dispatch_program_offset (hp : p.byte 0 = PROG_FLASH_CFM) :
    flashloader_dispatch l p =
      if cfmConfirm p = TRUE ∧ ¬ u32 (cfmAddress p + 0x800) < l.pr.size then
        .running (calc_crc32_req l)
      else returns (prog_flash_req l (s32 (confirmOffset p))) := by
  have h0 := l.pr.size_nonneg
  have hle := l.pr.size_le
  have hINT : INT_MAX = 2147483647 := rfl
  have hsize : u32 l.pr.size = l.pr.size := u32_of_range h0 (by omega)
  have hnext : s32 (u32 (cfmAddress p + 0x800)) = s32 (cfmAddress p + 0x800) := by
    unfold s32 u32
    rw [Int.emod_emod_of_dvd _ (Int.dvd_refl _)]
  rw [dispatch_program hp, prog_flash_cfm, confirmOffset, hsize]
  by_cases hc : cfmConfirm p = TRUE
  · rw [if_pos hc, if_pos hc, hnext]
    by_cases ha : u32 (cfmAddress p + 0x800) < l.pr.size
    · rw [if_pos ha, if_neg fun h => h.2 ha]
    · rw [if_neg ha, if_pos ⟨hc, ha⟩]
      rfl
  · rw [if_neg hc, if_neg hc, if_neg fun h => hc h.1]

/-- Breaking is a matter of the primitive. -/
theorem not_breaks {pr : bin_img} (hsize : p.size ≤ PACKET_SIZE)
    (hsector : p.byte 0 = READ_PROPRIETARY_DATA_CFM → uint32At p 11 ≠ 0)
    (hfirst : p.byte 0 = FLASH_ERASE_CFM → progFlash pr 0 ≠ none)
    (hnext : p.byte 0 = PROG_FLASH_CFM →
      ¬ (cfmConfirm p = TRUE ∧ ¬ u32 (cfmAddress p + 0x800) < pr.size) →
      progFlash pr (s32 (confirmOffset p)) ≠ none) : ¬ Breaks pr p := by
  intro h
  cases h with
  | long h => exact absurd hsize (by omega)
  | sector hp h => exact hsector hp h
  | first hp h => exact hfirst hp h
  | next hp hmore h => exact hnext hp hmore h

/-- What a frame of the right size does: it breaks the flash loader, or it is a checksum confirm and
ends it, or the flash loader goes on. -/
theorem dispatch_ends (l : Loader) (hsize : p.size ≤ PACKET_SIZE) :
    (Breaks l.pr p ∧ flashloader_dispatch l p = .undefined) ∨
    (¬ Breaks l.pr p ∧ p.byte 0 = CALC_CRC32_CFM ∧ flashloader_dispatch l p =
      .exited (if cfmCrc32 p = l.pr.checksum.toNat then 0 else -1) l) ∨
    ¬ Breaks l.pr p ∧ p.byte 0 ≠ CALC_CRC32_CFM ∧ ∃ l', flashloader_dispatch l p = .running l' := by
  have hother : ∀ {x y : UInt8} {P : Prop}, p.byte 0 = x → x ≠ y → p.byte 0 = y → P :=
    fun hx hne hy => absurd (hx.symm.trans hy) hne
  rcases confirm_cases p with hp | hp | hp | hp | hp | hp | hp
  · refine .inr (.inr ⟨?_, hother hp (by decide), _, dispatch_version hp⟩)
    exact not_breaks hsize (hother hp (by decide)) (hother hp (by decide)) (hother hp (by decide))
  · refine .inr (.inr ⟨?_, hother hp (by decide), _, dispatch_config hp⟩)
    exact not_breaks hsize (hother hp (by decide)) (hother hp (by decide)) (hother hp (by decide))
  · by_cases hzero : uint32At p 11 = 0
    · exact .inl ⟨.sector hp hzero, dispatch_sector_zero hp hzero⟩
    · have hsector : ¬ (qspi_flash_type_cfm l p).f.SectorSize = 0 := hzero
      have hd := dispatch_flash_type (l := l) hp
      rw [erase_flash, if_neg hsector] at hd
      refine .inr (.inr ⟨?_, hother hp (by decide), _, hd⟩)
      exact not_breaks hsize (fun _ => hzero) (hother hp (by decide)) (hother hp (by decide))
  · have hd := dispatch_erase (l := l) hp
    rw [program_flash] at hd
    rcases request_returns l 0 with ⟨hnone, hundef⟩ | ⟨hsome, l', hrun⟩
    · exact .inl ⟨.first hp hnone, hd.trans hundef⟩
    · refine .inr (.inr ⟨?_, hother hp (by decide), l', hd.trans hrun⟩)
      exact not_breaks hsize (hother hp (by decide)) (fun _ => hsome) (hother hp (by decide))
  · have hd := dispatch_program_offset (l := l) hp
    by_cases hlast : cfmConfirm p = TRUE ∧ ¬ u32 (cfmAddress p + 0x800) < l.pr.size
    · rw [if_pos hlast] at hd
      refine .inr (.inr ⟨?_, hother hp (by decide), _, hd⟩)
      exact not_breaks hsize (hother hp (by decide)) (hother hp (by decide))
        fun _ hmore => absurd hlast hmore
    · rw [if_neg hlast] at hd
      rcases request_returns l (s32 (confirmOffset p)) with
        ⟨hnone, hundef⟩ | ⟨hsome, l', hrun⟩
      · exact .inl ⟨.next hp hlast hnone, hd.trans hundef⟩
      · refine .inr (.inr ⟨?_, hother hp (by decide), l', hd.trans hrun⟩)
        exact not_breaks hsize (hother hp (by decide)) (hother hp (by decide)) fun _ _ => hsome
  · refine .inr (.inl ⟨?_, hp, ?_⟩)
    · exact not_breaks hsize (hother hp (by decide)) (hother hp (by decide)) (hother hp (by decide))
    · rw [dispatch_checksum hp, calc_crc32_cfm]
      split <;> rfl
  · obtain ⟨h1, h2, h3, h4, h5, h6⟩ := id hp
    refine .inr (.inr ⟨?_, h6, l, dispatch_unknown hp⟩)
    exact not_breaks hsize (fun h => absurd h h3) (fun h => absurd h h4) fun h => absurd h h5

/-- The same for any frame. The image stays as it is. -/
theorem deliver_ends (l : Loader) (p : packet_t) :
    (Breaks l.pr p ∧ deliver flashloader_dispatch l p = .undefined) ∨
    (¬ Breaks l.pr p ∧ p.byte 0 = CALC_CRC32_CFM ∧ deliver flashloader_dispatch l p =
      .exited (if cfmCrc32 p = l.pr.checksum.toNat then 0 else -1) l) ∨
    ¬ Breaks l.pr p ∧ p.byte 0 ≠ CALC_CRC32_CFM ∧
      ∃ l', deliver flashloader_dispatch l p = .running l' ∧ l'.pr = l.pr := by
  unfold deliver
  by_cases hsize : p.size ≤ PACKET_SIZE
  · rw [if_pos hsize]
    rcases dispatch_ends l hsize with h | h | ⟨hbreaks, hp, l', hd⟩
    · exact .inl h
    · exact .inr (.inl h)
    · exact .inr (.inr ⟨hbreaks, hp, l', hd, (dispatch_sends hd).pr⟩)
  · rw [if_neg hsize]
    exact .inl ⟨.long (by omega), rfl⟩

/-- A frame with which the flash loader goes on. -/
def Passes (pr : bin_img) (p : packet_t) : Prop := ¬ Breaks pr p ∧ p.byte 0 ≠ CALC_CRC32_CFM

/-- The first frame that does not pass says how the flash loader ends. -/
theorem dispatchEach_ends (ps : List packet_t) : ∀ l : Loader,
    ((∀ p ∈ ps, Passes l.pr p) ∧
      ∃ l', dispatchEach (deliver flashloader_dispatch) l ps = .running l' ∧ l'.pr = l.pr) ∨
    ∃ ps1 p ps2, ps = ps1 ++ p :: ps2 ∧ (∀ q ∈ ps1, Passes l.pr q) ∧
      ((Breaks l.pr p ∧ dispatchEach (deliver flashloader_dispatch) l ps = .undefined) ∨
        ¬ Breaks l.pr p ∧ p.byte 0 = CALC_CRC32_CFM ∧
          ∃ l', dispatchEach (deliver flashloader_dispatch) l ps =
            .exited (if cfmCrc32 p = l.pr.checksum.toNat then 0 else -1) l') := by
  induction ps with
  | nil => exact fun l => .inl ⟨by simp, l, rfl, rfl⟩
  | cons p ps ih =>
    intro l
    rw [dispatchEach]
    rcases deliver_ends l p with ⟨hbreaks, hd⟩ | ⟨hbreaks, hp, hd⟩ | ⟨hbreaks, hp, l1, hd, hpr⟩
    · rw [hd]
      exact .inr ⟨[], p, ps, rfl, by simp, .inl ⟨hbreaks, rfl⟩⟩
    · rw [hd]
      exact .inr ⟨[], p, ps, rfl, by simp, .inr ⟨hbreaks, hp, l, rfl⟩⟩
    · rw [hd]
      dsimp only
      have hpass : Passes l.pr p := ⟨hbreaks, hp⟩
      have hrest := ih l1
      rw [hpr] at hrest
      rcases hrest with ⟨hall, hrun⟩ | ⟨ps1, q, ps2, rfl, hall, hend⟩
      · exact .inl ⟨List.forall_mem_cons.mpr ⟨hpass, hall⟩, hrun⟩
      · exact .inr ⟨p :: ps1, q, ps2, rfl, List.forall_mem_cons.mpr ⟨hpass, hall⟩, hend⟩

end dect_prog.flashloader

namespace dect_prog.programming

open dect_prog.event_loop dect_prog.main
open dect_prog.flashloader (Loader Breaks Passes flashloader_dispatch format cfmCrc32
  CALC_CRC32_CFM)

variable {files : Files} {m : Main} {l : Loader} {b : buffer_t} {t : Tape UInt8}

/-! ## The flash loader in the loop -/

/-- The flash loader is in charge, with these variables. -/
def InCharge (m : Main) (l : Loader) : Prop :=
  m.current_state = .FLASHLOADER_STATE ∧ m.tty = l.tty ∧ ∃ b, m.loader = some (l, b)

theorem Loading.in_charge (hl : Loading files m l b) : InCharge m l :=
  ⟨hl.state, hl.tty.symm, b, hl.loader⟩

/-- The image stays as it is. -/
theorem dispatchEach_pr (ps : List packet_t) : ∀ {l l' : Loader},
    dispatchEach (deliver flashloader_dispatch) l ps = .running l' → l'.pr = l.pr := by
  intro l l' h
  rcases flashloader.dispatchEach_ends ps l with ⟨-, l1, hrun, hpr⟩ | ⟨ps1, p, ps2, -, -, hend⟩
  · cases hrun.symm.trans h
    exact hpr
  · rcases hend with ⟨-, hundef⟩ | ⟨-, -, l1, hexit⟩
    · cases hundef.symm.trans h
    · cases hexit.symm.trans h

/-- The loop does with the reads what the dispatcher does with their frames. -/
theorem prog_loop (as : List Arrival) : ∀ {m : Main} {l : Loader} {b : buffer_t} {t : Tape UInt8},
    Loading files m l b → Holds b t → t.size = 5000 → Succeeds as →
      Outcome.Rel InCharge (mainLoop (progMode files) m .cleared as)
        (dispatchEach (deliver flashloader_dispatch) l (frames format t (events as))) := by
  induction as with
  | nil => exact fun hl _ _ _ => hl.in_charge
  | cons a as ih =>
    intro m l b t hl hb ht hreads
    obtain ⟨hread, hreads⟩ := List.forall_mem_cons.mp hreads
    have hends := handlePackage_each flashloader_dispatch l
      (flashloader.flash_gets (read .cleared a)) hb ht flashloader.flash_capacity
      (Arrival.incount_nonneg hread)
    have hstep := mainStep_flashloader (a := a) hl
    have hhandler : flashloader.handle_flashloader_package flashloader_dispatch l b
          (read .cleared a) =
        handlePackage flashloader.flashpacket_get flashloader_dispatch l b (read .cleared a) := rfl
    rw [hhandler] at hstep
    have hframes : frames format t (events (a :: as)) =
        carried { (read .cleared a).packet with size := 0 }
          (format.drain (t.write (read .cleared a).bytes).ahead).1 ++
            frames format (package.left format (t.write (read .cleared a).bytes)) (events as) := rfl
    rw [hframes, dispatchEach_append, mainLoop]
    cases hd : dispatchEach (deliver flashloader_dispatch) l
      (carried { (read .cleared a).packet with size := 0 }
        (format.drain (t.write (read .cleared a).bytes).ahead).1) with
    | running l1 =>
      rw [hd] at hends
      obtain ⟨m1, b1, hrun, hl1, hb1⟩ := main_goes_on hl hends (dispatchEach_pr _ hd)
      rw [hrun]
      apply ih hl1 hb1 _ hreads
      rw [left_size, Tape.size_write, ht]
    | exited status l1 =>
      rw [hd] at hends
      obtain ⟨b1, hrun⟩ := hends
      rw [hstep, hrun]
      exact ⟨rfl, hl.state, rfl, b1, rfl⟩
    | aborted l1 =>
      rw [hd] at hends
      obtain ⟨b1, hrun⟩ := hends
      rw [hstep, hrun]
      exact ⟨hl.state, rfl, b1, rfl⟩
    | undefined =>
      rw [hd] at hends
      have hrun : handlePackage flashloader.flashpacket_get flashloader_dispatch l b
        (read .cleared a) = .undefined := hends
      rw [hstep, hrun]
      trivial

/-! ## Before it is in charge -/

/-- Reads after which the flash loader is in charge for the first time. -/
structure Starts (files : Files) (m : Main) (e : event_t) (m1 : Main) (as : List Arrival) (l : Loader)
    (b : buffer_t) : Prop where
  some_read : as ≠ []
  run : mainLoop (progMode files) m e as = .running m1
  loading : Loading files m1 l b
  holds : Holds b (newTape 5000)
  init : ∃ tty, initLoader files tty = some (l, b)

/-- The file is too long for the `int` that its size and three more bytes are counted in. -/
def TooLong (files : Files) : Prop := INT_MAX < (files.target_bin.length : Int) + 3

theorem initLoader_too_long (h : TooLong files) (tty : List UInt8) :
    initLoader files tty = none := by
  have hread : flashloader.read_firmware files.target_bin files.behind.1 files.behind.2.1
      files.behind.2.2 = none := dif_neg (Int.not_le.mpr h)
  simp only [initLoader, flashloader.init_flashloader_state, hread, Option.bind_eq_bind,
    Option.bind_none]

/-- How the handshakes can go on: they do, or the flash loader comes into charge, or its file does
not fit. -/
inductive Handshakes (files : Files) (m : Main) (e : event_t) (as : List Arrival) : Prop
  | more {m' : Main} (hrun : mainLoop (progMode files) m e as = .running m')
      (hs : m'.current_state ≠ .FLASHLOADER_STATE)
  | too_long (hrun : mainLoop (progMode files) m e as = .undefined) (h : TooLong files)
  | starts (as1 as2 : List Arrival) {m1 : Main} {l : Loader} {b : buffer_t} (has : as = as1 ++ as2)
      (h : Starts files m e m1 as1 l b)

/-- One more turn before. -/
theorem Handshakes.cons {m1 : Main} {e : event_t} {a : Arrival} {as : List Arrival}
    (hstep : mainStep (progMode files) m e a = .running m1)
    (h : Handshakes files m1 .cleared as) : Handshakes files m e (a :: as) := by
  cases h with
  | more hrun hs => exact .more ((mainLoop_cons hstep).trans hrun) hs
  | too_long hrun hlong => exact .too_long ((mainLoop_cons hstep).trans hrun) hlong
  | starts as1 as2 has hstarts =>
    rw [has]
    exact .starts (a :: as1) as2 rfl ⟨List.cons_ne_nil a as1,
      (mainLoop_cons hstep).trans hstarts.run, hstarts.loading, hstarts.holds, hstarts.init⟩

theorem handshake_ends (as : List Arrival) : ∀ {m : Main}, Loaded files m →
    m.current_state ≠ .FLASHLOADER_STATE → Handshakes files m .cleared as := by
  induction as with
  | nil => exact fun _ hs => .more rfl hs
  | cons a as ih =>
    intro m hm hs
    cases hstate : m.current_state with
    | BOOT_STATE =>
      obtain ⟨bytes, hr⟩ := boot_replies_some (m := m) (e := event_t.cleared)
        (in0 (read .cleared a)) (.inl (Int.natCast_nonneg BUF_SIZE))
      have hstep := boot_turn hm hstate hr
      refine (ih (mainStep_loaded hm hstep) ?_).cons hstep
      show (boot.serves files m (in0 (read .cleared a))).current_state ≠ _
      rw [boot_serves_state, hstate]
      split <;> decide
    | PRELOADER_STATE =>
      by_cases hmoves : preloader.Moves files (in0 (read .cleared a))
      · by_cases hmax : (files.target_bin.length : Int) + 3 ≤ INT_MAX
        · obtain ⟨m1, l, b, hstep, -, hl, hb, hinit⟩ := main_starts hmax hstate hm hmoves
          exact .starts [a] as rfl ⟨List.cons_ne_nil a [], mainLoop_one.trans hstep, hl, hb,
            m.tty, hinit⟩
        · have hlong := Int.not_le.mp hmax
          have hstep : mainStep (progMode files) m .cleared a = _ :=
            mainStep_silent (preloader_call hm hstate) (Int.le_refl 0)
          rw [preloader_serves_moves hmoves, init_flashloader_state,
            initLoader_too_long hlong] at hstep
          exact .too_long (by rw [mainLoop, hstep]; rfl) hlong
      · obtain ⟨m1, hserves, -⟩ := preloader_serves_other (m := m) hmoves
        have hstep := preloader_turn hm hstate hserves reply_cleared
        refine (ih (mainStep_loaded hm hstep) ?_).cons hstep
        show m1.current_state ≠ _
        rw [preloader_serves_state hstate hserves, if_neg hmoves]
        decide
    | FLASHLOADER_STATE => exact absurd hstate hs

/-- The first event is written from beyond its end. -/
def LeftTooMuch (e0 : event_t) : Prop := (BUF_SIZE : Int) < e0.outcount

/-- The reads before the flash loader is in charge, and those that are for it. -/
theorem progMode_parts (files : Files) (e0 : event_t) (as : List Arrival) :
    Handshakes files (progInit files) e0 as ∨
      mainLoop (progMode files) (progInit files) e0 as = .undefined ∧ LeftTooMuch e0 := by
  cases as with
  | nil => exact .inl (.more rfl fun h => by cases h)
  | cons a as =>
    -- What the stack held counts in the first turn only.
    have hloaded : Loaded files (progInit files) := rfl
    by_cases he : e0.outcount ≤ BUF_SIZE ∨ in0 (read e0 a) = STX
    · obtain ⟨bytes, hr⟩ := boot_replies_some (m := progInit files) (in0 (read e0 a)) he
      have hstep := boot_turn hloaded rfl hr
      refine .inl ((handshake_ends as (mainStep_loaded hloaded hstep) ?_).cons hstep)
      show (boot.serves files (progInit files) (in0 (read e0 a))).current_state ≠ _
      rw [boot_serves_state]
      split <;> exact states.noConfusion
    · rw [not_or, Int.not_le] at he
      refine .inr ⟨?_, he.1⟩
      rw [mainLoop, boot_turn_undefined hloaded rfl he.2 he.1]

/-- What the process does behind the start of the flash loader. -/
theorem Starts.refines {m m1 : Main} {e : event_t} {as1 as2 : List Arrival}
    (h : Starts files m e m1 as1 l b) (hreads : Succeeds as2) :
    Outcome.Rel InCharge (mainLoop (progMode files) m e (as1 ++ as2))
      (dispatchEach (deliver flashloader_dispatch) l
        (frames format (newTape 5000) (events as2))) := by
  rw [mainLoop_append h.some_read h.run]
  exact prog_loop as2 h.loading h.holds (Tape.size_new 5000 0) hreads

/-! ## The laws -/

/-- For all reads and whatever the stack held, either the process is still in the handshakes, or C
does not define what it does before they end, or they end with a read after which the flash loader is
in charge. From there on, when no read fails, the process does what the dispatcher does with the
frames of the other reads, one after the other: the same bytes on the tty, the same variables, and
the same end, also where C does not define one. -/
theorem the_prog_mode_refines_the_flash_loader (files : Files) (e0 : event_t) (as : List Arrival) :
    (∃ m, mainLoop (progMode files) (progInit files) e0 as = .running m ∧
      m.current_state ≠ .FLASHLOADER_STATE) ∨
    (mainLoop (progMode files) (progInit files) e0 as = .undefined ∧
      (LeftTooMuch e0 ∨ TooLong files)) ∨
    ∃ as1 as2 m1 l b, as = as1 ++ as2 ∧ Starts files (progInit files) e0 m1 as1 l b ∧
      (Succeeds as2 → Outcome.Rel InCharge (mainLoop (progMode files) (progInit files) e0 as)
        (dispatchEach (deliver flashloader_dispatch) l
          (frames format (newTape 5000) (events as2)))) := by
  rcases progMode_parts files e0 as with hparts | ⟨hundef, hleft⟩
  · cases hparts with
    | more hrun hs => exact .inl ⟨_, hrun, hs⟩
    | too_long hrun hlong => exact .inr (.inl ⟨hrun, .inr hlong⟩)
    | starts as1 as2 has hstarts =>
      rw [has]
      exact .inr (.inr ⟨as1, as2, _, _, _, rfl, hstarts, hstarts.refines⟩)
  · exact .inr (.inl ⟨hundef, .inl hleft⟩)

/-- How a process with a flash loader ends is a matter of the frames. As long as they all pass it
runs. The first one that does not is either one that breaks it, and then C does not define what it
does, or it is a checksum confirm, and the process exits: with 0 exactly when the confirm has the
CRC-32 of the file. -/
theorem the_first_frame_that_does_not_pass_ends_the_prog_mode (files : Files) (e0 : event_t)
    (as1 as2 : List Arrival) (m1 : Main) (l : Loader) (b : buffer_t)
    (h : Starts files (progInit files) e0 m1 as1 l b) (hreads : Succeeds as2) :
    ((∀ p ∈ frames format (newTape 5000) (events as2), Passes l.pr p) ∧
      ∃ m, mainLoop (progMode files) (progInit files) e0 (as1 ++ as2) = .running m ∧
        m.current_state = .FLASHLOADER_STATE) ∨
    ∃ ps1 p ps2, frames format (newTape 5000) (events as2) = ps1 ++ p :: ps2 ∧
      (∀ q ∈ ps1, Passes l.pr q) ∧
      ((Breaks l.pr p ∧
          mainLoop (progMode files) (progInit files) e0 (as1 ++ as2) = .undefined) ∨
        ¬ Breaks l.pr p ∧ p.byte 0 = CALC_CRC32_CFM ∧
          ∃ m, mainLoop (progMode files) (progInit files) e0 (as1 ++ as2) = .exited
            (if cfmCrc32 p = (crc.reflectedCrc32 files.target_bin).toNat then 0 else -1) m) := by
  have hrefines := h.refines hreads
  rcases flashloader.dispatchEach_ends (frames format (newTape 5000) (events as2)) l with
    ⟨hall, l', hrun, -⟩ | ⟨ps1, p, ps2, hps, hall, hend⟩
  · rw [hrun] at hrefines
    obtain ⟨m, hm, hcharge⟩ := hrefines.to_running
    exact .inl ⟨hall, m, hm, hcharge.1⟩
  · refine .inr ⟨ps1, p, ps2, hps, hall, ?_⟩
    rcases hend with ⟨hbreaks, hundef⟩ | ⟨hbreaks, hp, l', hexit⟩
    · rw [hundef] at hrefines
      exact .inl ⟨hbreaks, hrefines.to_undefined⟩
    · rw [hexit] at hrefines
      obtain ⟨m, hm, -⟩ := hrefines.to_exited
      rw [h.loading.checksum] at hm
      exact .inr ⟨hbreaks, hp, m, hm⟩

/-- The checksums of two images of one byte, the shortest way into the flash loader. -/
def checksums : List Arrival :=
  [arrivalOf [0x5A] (short_le (Nat.le_succ 1)), arrivalOf [0x77] (short_le (Nat.le_succ 1))]

theorem checksums_start (e0 : event_t) (he : e0.outcount ≤ BUF_SIZE) : ∃ m l b,
    Starts oneByteFiles (progInit oneByteFiles) e0 m checksums l b := by
  have hboot : boot.Moves oneByteFiles 0x5A := by decide
  have hpreloader : preloader.Moves oneByteFiles
      (in0 (read .cleared (arrivalOf [0x77] (short_le (Nat.le_succ 1))))) := by
    rw [in0_read rfl]
    decide
  obtain ⟨m, hsettled, hfirst⟩ := first_read oneByteFiles (b := 0x5A) (.inl he)
  have hstep := hfirst (arrivalOf [0x5A] (short_le (Nat.le_succ 1))) rfl
  have hstate := hsettled.state
  rw [if_pos hboot] at hstate
  obtain ⟨m1, l, b, hstep1, -, hl, hb, hinit⟩ := main_starts (by decide) hstate
    hsettled.loaded hpreloader
  exact ⟨m1, l, b, List.cons_ne_nil _ _, (mainLoop_cons hstep).trans (mainLoop_one.trans hstep1),
    hl, hb, _, hinit⟩

/-- The CRC-32 of the image of one byte, in one frame and one read. -/
theorem the_first_frame_that_does_not_pass_ends_the_prog_mode_with_the_checksum :
    ∃ (a : Arrival) (m : Main), a.bytes = flashloader.make_tx_packet
        ([CALC_CRC32_CFM] ++ le32 0 ++ le32 1 ++ le32 (crc.reflectedCrc32 [1]).toNat) ∧
      mainLoop (progMode oneByteFiles) (progInit oneByteFiles) .cleared
        (checksums ++ [a]) = .exited 0 m := by
  obtain ⟨m1, l, b, hstarts⟩ := checksums_start .cleared (Int.natCast_nonneg BUF_SIZE)
  generalize hc : [CALC_CRC32_CFM] ++ le32 0 ++ le32 1 ++ le32 (crc.reflectedCrc32 [1]).toNat = c
  have hlen : c.length = 13 := by rw [← hc]; rfl
  have hsize : c.length ≤ PACKET_SIZE := by rw [hlen]; decide
  have hframe : (format.encode c).length = 18 := by rw [format.encode_length, hlen]; rfl
  have hfits : (format.encode c).length ≤ BUF_SIZE := by rw [hframe]; decide
  obtain ⟨a, hbytes, hread⟩ : ∃ a : Arrival, a.bytes = format.encode c ∧ a.received.isSome :=
    ⟨arrivalOf (format.encode c) hfits, rfl, rfl⟩
  have hframes := frames_encode (e := read .cleared a) (t := newTape 5000) hsize
    (Nat.le_trans hsize (by decide)) rfl (by rw [hframe, newTape, List.length_replicate]; omega)
    ((read_bytes .cleared a).trans hbytes)
  have hhead : c.head? = some CALC_CRC32_CFM := by rw [← hc]; rfl
  have hbyte := flashloader.carry_head { (read .cleared a).packet with size := 0 } hsize hhead
  have hsum := (crc.reflectedCrc32 [1]).toNat_lt
  have hcrc : cfmCrc32 (packet_t.carry { (read .cleared a).packet with size := 0 } c hsize) =
      (crc.reflectedCrc32 [1]).toNat := by
    unfold cfmCrc32
    rw [flashloader.carry_uint32 _ hsize (by omega), ← hc]
    exact flashloader.ofLe32_le32 (by omega) (by omega)
  rcases the_first_frame_that_does_not_pass_ends_the_prog_mode oneByteFiles .cleared checksums [a]
    m1 l b hstarts (List.forall_mem_singleton.mpr hread) with
    ⟨hall, -⟩ | ⟨ps1, p, ps2, hps, hall, hend⟩
  · rw [show events [a] = [read .cleared a] from rfl, hframes] at hall
    exact absurd hbyte (hall _ (List.mem_singleton_self _)).2
  · rw [show events [a] = [read .cleared a] from rfl, hframes] at hps
    cases ps1 with
    | nil =>
      obtain ⟨rfl, -⟩ := List.cons.inj hps
      rcases hend with ⟨hbreaks, -⟩ | ⟨-, -, m, hexit⟩
      · cases hbreaks with
        | long h => exact absurd hsize (Nat.not_le.mpr h)
        | sector hp => exact absurd (hbyte.symm.trans hp) (by decide)
        | first hp => exact absurd (hbyte.symm.trans hp) (by decide)
        | next hp => exact absurd (hbyte.symm.trans hp) (by decide)
      · rw [show oneByteFiles.target_bin = [1] from rfl, if_pos hcrc] at hexit
        exact ⟨a, m, hbytes, hexit⟩
    | cons q qs =>
      obtain ⟨rfl, -⟩ := List.cons.inj hps
      exact absurd hbyte (hall _ List.mem_cons_self).2

end dect_prog.programming
