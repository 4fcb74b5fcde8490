-- When the handshakes of boot.c and preloader.c depend on where the reads end.
-- Both handlers look at the first byte of a read only; the package handlers take
-- them all. So a byte behind the first one counts in some cuts and not in others,
-- unless it is one that nothing is done for.
import DectProg.Boot

open dect_prog.package dect_prog.buffer dect_prog.event_loop

namespace dect_prog.main

/-! ## What the handlers act on -/

/-- The checksum of the preloader, where no label of the switch has its value. -/
def boot.Moves (files : Files) (b : UInt8) : Prop :=
  b = chk files.PreBootPrgm441_20MHz ∧ b ∉ [SOH, STX, ETX, ACK, NACK]

def boot.Acts (files : Files) (b : UInt8) : Prop :=
  b = STX ∨ (b = ACK ∧ files.PreBootPrgm441_20MHz ≠ []) ∨ boot.Moves files b

/-- The checksum of the flash loader, where no label of the switch has its value. -/
def preloader.Moves (files : Files) (b : UInt8) : Prop :=
  b = chk files.FlashLoader441 ∧ b ∉ [PRELOADER_READY, PRELOADER_NEW_BAUDRATE_READY]

def preloader.Acts (files : Files) (b : UInt8) : Prop :=
  b = PRELOADER_READY ∨ b = PRELOADER_NEW_BAUDRATE_READY ∨ preloader.Moves files b

instance (files : Files) (b : UInt8) : Decidable (boot.Moves files b) :=
  inferInstanceAs (Decidable (_ ∧ _))

instance (files : Files) (b : UInt8) : Decidable (boot.Acts files b) :=
  inferInstanceAs (Decidable (_ ∨ _))

instance (files : Files) (b : UInt8) : Decidable (preloader.Moves files b) :=
  inferInstanceAs (Decidable (_ ∧ _))

instance (files : Files) (b : UInt8) : Decidable (preloader.Acts files b) :=
  inferInstanceAs (Decidable (_ ∨ _))

/-- The handler in charge acts on the byte. -/
def Acts (files : Files) : states → UInt8 → Prop
  | .BOOT_STATE, b => boot.Acts files b
  | .PRELOADER_STATE, b => preloader.Acts files b
  | .FLASHLOADER_STATE, _ => True

instance (files : Files) (s : states) (b : UInt8) : Decidable (Acts files s b) :=
  match s with
  | .BOOT_STATE => inferInstanceAs (Decidable (boot.Acts files b))
  | .PRELOADER_STATE => inferInstanceAs (Decidable (preloader.Acts files b))
  | .FLASHLOADER_STATE => inferInstanceAs (Decidable True)

/-- The image of the handler in charge is the one that is compiled in. -/
def Loaded (files : Files) (m : Main) : Prop :=
  match m.current_state with
  | .BOOT_STATE => m.preloader = calculate_checksum (read_preloader files)
  | .PRELOADER_STATE => m.flashloader = calculate_checksum (read_flashloader files)
  | .FLASHLOADER_STATE => True

/-! ## One call -/

variable {files : Files} {m m' : Main} {e e' : event_t} {ev : Event} {a : Arrival}

theorem checksum_eq (array : List UInt8) :
    (calculate_checksum (readImage array)).checksum = (chk array).toUInt32 := by
  simp [calculate_checksum, readImage]

/-- What boot.c makes of the first byte of a read, but for its reply. -/
def boot.serves (files : Files) (m : Main) (b : UInt8) : Main :=
  if b = ACK then boot.send_preloader m
  else if boot.Moves files b then
    init_preloader_state files (state_add_handler (boot.send_ack m) .PRELOADER_STATE)
  else m

/-- What the loop writes when boot.c is back: the size, or what was in the event before. -/
def boot.replies (m : Main) (e : event_t) (b : UInt8) : Option (List UInt8) :=
  if b = STX then some [SOH, m.preloader.size_lsb, m.preloader.size_msb] else reply e

/-- What preloader.c makes of the first byte of a read. -/
def preloader.serves (files : Files) (m : Main) (b : UInt8) : Outcome Main :=
  if b = PRELOADER_READY then .running (preloader.set_baudrate m)
  else if b = PRELOADER_NEW_BAUDRATE_READY then
    .running (preloader.send_flashloader (preloader.send_size m))
  else if preloader.Moves files b then
    init_flashloader_state files (state_add_handler m .FLASHLOADER_STATE)
  else .running m

/-- The switch of boot.c, when it has the image that is compiled in. -/
theorem boot_handles (hm : m.preloader = calculate_checksum (read_preloader files)) :
    boot.handle_boot_package files m e ev = .running (boot.serves files m (in0 ev),
      if in0 ev = STX then boot.send_size m e else e) := by
  unfold boot.handle_boot_package
  generalize in0 ev = b
  have hchk : b.toUInt32 = m.preloader.checksum ↔ b = chk files.PreBootPrgm441_20MHz := by
    rw [hm, read_preloader, checksum_eq, UInt8.toUInt32_inj]
  have hlabel : b ∈ [SOH, STX, ETX, ACK, NACK] → ¬ boot.Moves files b := fun h hmoves => hmoves.2 h
  unfold boot.serves
  by_cases h1 : b = SOH
  · rw [if_pos h1, if_neg (by rw [h1]; decide), if_neg (hlabel (by simp [h1])),
      if_neg (by rw [h1]; decide)]
  by_cases h2 : b = STX
  · rw [if_neg h1, if_pos h2, if_neg (by rw [h2]; decide), if_neg (hlabel (by simp [h2])),
      if_pos h2]
  by_cases h3 : b = ETX
  · rw [if_neg h1, if_neg h2, if_pos h3, if_neg (by rw [h3]; decide),
      if_neg (hlabel (by simp [h3])), if_neg h2]
  by_cases h4 : b = ACK
  · rw [if_neg h1, if_neg h2, if_neg h3, if_pos h4, if_pos h4, if_neg h2]
  by_cases h5 : b = NACK
  · rw [if_neg h1, if_neg h2, if_neg h3, if_neg h4, if_pos h5, if_neg h4,
      if_neg (hlabel (by simp [h5])), if_neg h2]
  have hmoves : boot.Moves files b ↔ b.toUInt32 = m.preloader.checksum := by
    rw [hchk, boot.Moves]
    simp [h1, h2, h3, h4, h5]
  rw [if_neg h1, if_neg h2, if_neg h3, if_neg h4, if_neg h5, if_neg h4, if_neg h2]
  by_cases hb : boot.Moves files b
  · rw [if_pos (hmoves.mp hb), if_pos hb]
    rfl
  · rw [if_neg (mt hmoves.mpr hb), if_neg hb]

/-- The switch of preloader.c, when it has the image that is compiled in. -/
theorem preloader_handles (hm : m.flashloader = calculate_checksum (read_flashloader files)) :
    preloader.handle_preloader_package files m e ev =
      (preloader.serves files m (in0 ev)).map fun m => (m, e) := by
  unfold preloader.handle_preloader_package silent preloader.serves
  dsimp only
  generalize in0 ev = b
  by_cases h1 : b = PRELOADER_READY
  · rw [if_pos h1, if_pos h1]
  by_cases h2 : b = PRELOADER_NEW_BAUDRATE_READY
  · rw [if_neg h1, if_pos h2, if_neg h1, if_pos h2]
  have hmoves : preloader.Moves files b ↔ b.toUInt32 = m.flashloader.checksum := by
    rw [hm, read_flashloader, checksum_eq, UInt8.toUInt32_inj, preloader.Moves]
    simp [h1, h2]
  rw [if_neg h1, if_neg h2, if_neg h1, if_neg h2]
  by_cases hb : preloader.Moves files b
  · rw [if_pos (hmoves.mp hb), if_pos hb]
    rfl
  · rw [if_neg (mt hmoves.mpr hb), if_neg hb]

theorem boot_serves_state (m : Main) (b : UInt8) : (boot.serves files m b).current_state =
    if boot.Moves files b then .PRELOADER_STATE else m.current_state := by
  unfold boot.serves
  by_cases hack : b = ACK
  · have hnot : ¬ boot.Moves files b := fun h => h.2 (by simp [hack])
    rw [if_pos hack, if_neg hnot]
    rfl
  · rw [if_neg hack]
    split <;> rfl

theorem boot_serves_stx (m : Main) : boot.serves files m STX = m := by
  unfold boot.serves
  rw [if_neg (by decide), if_neg fun h => h.2 (by simp)]

theorem boot_serves_loaded (hm : m.preloader = calculate_checksum (read_preloader files))
    (hs : m.current_state = .BOOT_STATE) (b : UInt8) : Loaded files (boot.serves files m b) := by
  unfold boot.serves
  split_ifs
  · unfold Loaded
    rw [show (boot.send_preloader m).current_state = .BOOT_STATE from hs]
    exact hm
  · rfl
  · unfold Loaded
    rw [hs]
    exact hm

theorem setLoader_running {o : Option (dect_prog.flashloader.Loader × buffer_t)}
    (h : setLoader m o = .running m') : m'.current_state = m.current_state := by
  cases o with
  | none => cases h
  | some r =>
    cases h
    rfl

theorem preloader_serves_state {b : UInt8} (hs : m.current_state = .PRELOADER_STATE)
    (h : preloader.serves files m b = .running m') : m'.current_state =
      if preloader.Moves files b then .FLASHLOADER_STATE else .PRELOADER_STATE := by
  unfold preloader.serves at h
  have hlabel : b ∈ [PRELOADER_READY, PRELOADER_NEW_BAUDRATE_READY] → ¬ preloader.Moves files b :=
    fun h hmoves => hmoves.2 h
  split_ifs at h with h1 h2 hmoves
  · cases h
    rw [if_neg (hlabel (by simp [h1]))]
    exact hs
  · cases h
    rw [if_neg (hlabel (by simp [h2]))]
    exact hs
  · rw [if_pos hmoves, setLoader_running h]
    rfl
  · cases h
    rw [if_neg hmoves]
    exact hs

theorem preloader_serves_moves {b : UInt8} (hmoves : preloader.Moves files b) :
    preloader.serves files m b =
      init_flashloader_state files (state_add_handler m .FLASHLOADER_STATE) := by
  have hlabel : ∀ c ∈ [PRELOADER_READY, PRELOADER_NEW_BAUDRATE_READY], b ≠ c := by
    rintro c hc rfl
    exact hmoves.2 hc
  rw [preloader.serves, if_neg (hlabel PRELOADER_READY (by simp)),
    if_neg (hlabel PRELOADER_NEW_BAUDRATE_READY (by simp)), if_pos hmoves]

/-- As long as the preloader stays in charge, its image does. -/
theorem preloader_serves_other {b : UInt8} (hb : ¬ preloader.Moves files b) :
    ∃ m', preloader.serves files m b = .running m' ∧ m'.flashloader = m.flashloader := by
  unfold preloader.serves
  split_ifs
  · exact ⟨_, rfl, rfl⟩
  · exact ⟨_, rfl, rfl⟩
  · exact ⟨_, rfl, rfl⟩

theorem boot_serves_idle (hm : m.preloader = calculate_checksum (read_preloader files)) {b : UInt8}
    (hb : ¬ boot.Acts files b) : boot.serves files m b = m ∧ boot.replies m e b = reply e := by
  unfold boot.Acts at hb
  simp only [not_or, not_and, not_not] at hb
  obtain ⟨hstx, hack, hmoves⟩ := hb
  refine ⟨?_, if_neg hstx⟩
  unfold boot.serves
  by_cases h : b = ACK
  · -- The image has no bytes.
    rw [if_pos h]
    unfold boot.send_preloader
    rw [hm, read_preloader, hack h]
    exact congrArg (fun tty => { m with tty }) (List.append_nil m.tty)
  · rw [if_neg h, if_neg hmoves]

theorem boot_replies_some (b : UInt8) (he : e.outcount ≤ BUF_SIZE ∨ b = STX) :
    ∃ bytes, boot.replies m e b = some bytes := by
  unfold boot.replies
  by_cases hstx : b = STX
  · exact ⟨_, if_pos hstx⟩
  · exact ⟨_, (if_neg hstx).trans (reply_some (he.resolve_right hstx))⟩

theorem preloader_serves_idle {b : UInt8} (hb : ¬ preloader.Acts files b) :
    preloader.serves files m b = .running m := by
  unfold preloader.Acts at hb
  simp only [not_or] at hb
  unfold preloader.serves
  rw [if_neg hb.1, if_neg hb.2.1, if_neg hb.2.2]

/-! ## One turn -/

theorem boot_call (hl : Loaded files m) (hs : m.current_state = .BOOT_STATE) :
    mainStep (progMode files) m e a =
      writeReply (progMode files) (boot.serves files m (in0 (read e a)))
        (if in0 (read e a) = STX then boot.send_size m e else e) := by
  rw [Loaded, hs] at hl
  have hcall : (progMode files).handler m e (read e a) = .running
      (boot.serves files m (in0 (read e a)),
        if in0 (read e a) = STX then boot.send_size m e else e) := by
    show state_event_handler files m e (read e a) = _
    simp only [state_event_handler, hs, boot_handles hl]
  rw [mainStep, hcall]

theorem boot_turn (hl : Loaded files m) (hs : m.current_state = .BOOT_STATE) {bytes : List UInt8}
    (hr : boot.replies m e (in0 (read e a)) = some bytes) :
    mainStep (progMode files) m e a =
      .running ((boot.serves files m (in0 (read e a))).write bytes) := by
  rw [boot_call hl hs, writeReply]
  unfold boot.replies at hr
  by_cases hstx : in0 (read e a) = STX
  · rw [if_pos hstx] at hr ⊢
    rw [reply_send_size, hr]
    rfl
  · rw [if_neg hstx] at hr ⊢
    rw [hr]
    rfl

/-- A turn of boot.c that would write more than the array holds. -/
theorem boot_turn_undefined (hl : Loaded files m) (hs : m.current_state = .BOOT_STATE)
    (hstx : in0 (read e a) ≠ STX) (he : (BUF_SIZE : Int) < e.outcount) :
    mainStep (progMode files) m e a = .undefined := by
  rw [boot_call hl hs, if_neg hstx, writeReply, reply_none he]

theorem preloader_call (hl : Loaded files m) (hs : m.current_state = .PRELOADER_STATE) :
    (progMode files).handler m e (read e a) =
      (preloader.serves files m (in0 (read e a))).map fun m => (m, e) := by
  rw [Loaded, hs] at hl
  show state_event_handler files m e (read e a) = _
  simp only [state_event_handler, hs, preloader_handles hl]

theorem preloader_turn (hl : Loaded files m) (hs : m.current_state = .PRELOADER_STATE)
    (hserves : preloader.serves files m (in0 (read e a)) = .running m') {bytes : List UInt8}
    (hr : reply e = some bytes) : mainStep (progMode files) m e a = .running (m'.write bytes) := by
  rw [mainStep, preloader_call hl hs, hserves]
  show writeReply (progMode files) m' e = _
  rw [writeReply, hr]
  rfl

theorem turn_idle (hl : Loaded files m) (hb : ¬ Acts files m.current_state (in0 (read .cleared a))) :
    mainStep (progMode files) m .cleared a = .running m := by
  cases hs : m.current_state with
  | BOOT_STATE =>
    rw [hs] at hb
    have hm := hl
    rw [Loaded, hs] at hm
    obtain ⟨hserves, hreplies⟩ := boot_serves_idle (e := event_t.cleared) hm hb
    rw [boot_turn hl hs (hreplies.trans reply_cleared), hserves]
    exact congrArg Outcome.running ((progMode files).write_nil m)
  | PRELOADER_STATE =>
    rw [hs] at hb
    rw [preloader_turn hl hs (preloader_serves_idle hb) reply_cleared]
    exact congrArg Outcome.running ((progMode files).write_nil m)
  | FLASHLOADER_STATE =>
    rw [hs] at hb
    exact absurd trivial hb

/-- What a turn does whose byte the handler acts on: the state changes, or something is written. -/
def Changes (m m' : Main) : Prop :=
  m'.current_state ≠ m.current_state ∨ m.tty.length < m'.tty.length

theorem Changes.ne (h : Changes m m') : m' ≠ m := by
  rintro rfl
  rcases h with hstate | htty
  · exact hstate rfl
  · exact Nat.lt_irrefl _ htty

theorem boot_changes (hm : m.preloader = calculate_checksum (read_preloader files))
    (hs : m.current_state = .BOOT_STATE) {b : UInt8} (hb : boot.Acts files b) {bytes : List UInt8}
    (hr : boot.replies m e b = some bytes) :
    Changes m ((boot.serves files m b).write bytes) := by
  rcases hb with rfl | ⟨rfl, himage⟩ | hmoves
  · refine .inr ?_
    cases hr
    rw [boot_serves_stx]
    simp [Main.write]
  · refine .inr ?_
    have hpos := List.length_pos_iff.mpr himage
    rw [boot.serves, if_pos rfl]
    unfold boot.send_preloader
    rw [hm]
    simp only [Main.write, calculate_checksum, read_preloader, readImage, Int.toNat_natCast,
      List.take_length, List.length_append]
    omega
  · refine .inl ?_
    show (boot.serves files m b).current_state ≠ m.current_state
    rw [boot_serves_state, if_pos hmoves, hs]
    decide

theorem preloader_changes (hs : m.current_state = .PRELOADER_STATE) {b : UInt8}
    (hb : preloader.Acts files b) (hserves : preloader.serves files m b = .running m')
    (bytes : List UInt8) : Changes m (m'.write bytes) := by
  rcases hb with rfl | rfl | hmoves
  · refine .inr ?_
    cases hserves
    simp only [preloader.set_baudrate, Main.write, tty_set_baud, List.length_append,
      List.length_cons, List.length_nil]
    omega
  · refine .inr ?_
    cases hserves
    simp only [preloader.send_flashloader, preloader.send_size, Main.write, List.length_append,
      List.length_cons, List.length_nil]
    omega
  · refine .inl ?_
    show m'.current_state ≠ m.current_state
    rw [preloader_serves_state hs hserves, if_pos hmoves, hs]
    decide

theorem turn_acts (hs : m.current_state ≠ .FLASHLOADER_STATE) (hl : Loaded files m)
    (hb : Acts files m.current_state (in0 (read .cleared a))) :
    mainStep (progMode files) m .cleared a ≠ .running m := by
  cases hstate : m.current_state with
  | BOOT_STATE =>
    rw [hstate] at hb
    have hm := hl
    rw [Loaded, hstate] at hm
    obtain ⟨bytes, hr⟩ := boot_replies_some (m := m) (e := event_t.cleared)
      (in0 (read .cleared a)) (.inl (Int.natCast_nonneg BUF_SIZE))
    rw [boot_turn hl hstate hr, Ne, Outcome.running.injEq]
    exact (boot_changes hm hstate hb hr).ne
  | PRELOADER_STATE =>
    rw [hstate] at hb
    intro h
    obtain ⟨m1, e1, bytes, hcall, -, hm⟩ := mainStep_running h
    rw [preloader_call hl hstate] at hcall
    obtain ⟨m2, hserves, heq⟩ := Outcome.of_map_running hcall
    cases heq
    exact (preloader_changes hstate hb hserves bytes).ne hm.symm
  | FLASHLOADER_STATE => exact absurd hstate hs

/-! ## What a call leads to -/

/-- The handler that is in charge after a call that returned, when the images are loaded. -/
theorem handler_state (hl : Loaded files m)
    (h : state_event_handler files m e ev = .running (m', e')) :
    Loaded files m' ∧ m'.current_state = match m.current_state with
      | .BOOT_STATE => if boot.Moves files (in0 ev) then .PRELOADER_STATE else .BOOT_STATE
      | .PRELOADER_STATE =>
        if preloader.Moves files (in0 ev) then .FLASHLOADER_STATE else .PRELOADER_STATE
      | .FLASHLOADER_STATE => .FLASHLOADER_STATE := by
  cases hs : m.current_state with
  | BOOT_STATE =>
    rw [Loaded, hs] at hl
    simp only [state_event_handler, hs, boot_handles hl] at h
    cases h
    refine ⟨boot_serves_loaded hl hs _, ?_⟩
    rw [boot_serves_state, hs]
  | PRELOADER_STATE =>
    rw [Loaded, hs] at hl
    simp only [state_event_handler, hs, preloader_handles hl] at h
    obtain ⟨m1, hserves, heq⟩ := Outcome.of_map_running h
    cases heq
    have hstate := preloader_serves_state hs hserves
    refine ⟨?_, hstate⟩
    unfold Loaded
    rw [hstate]
    by_cases hmoves : preloader.Moves files (in0 ev)
    · rw [if_pos hmoves]
      trivial
    · obtain ⟨m2, hm2, hkept⟩ := preloader_serves_other (m := m) hmoves
      cases hserves.symm.trans hm2
      rw [if_neg hmoves]
      exact hkept.trans hl
  | FLASHLOADER_STATE =>
    simp only [state_event_handler, hs] at h
    obtain ⟨m1, hcall, heq⟩ := Outcome.of_map_running h
    cases heq
    have hstate : m'.current_state = .FLASHLOADER_STATE := by
      dsimp only at hcall
      cases hloader : m.loader with
      | none =>
        rw [hloader] at hcall
        cases hcall
      | some r =>
        rw [hloader] at hcall
        obtain ⟨r', -, rfl⟩ := Outcome.of_map_running hcall
        exact hs
    refine ⟨?_, hstate⟩
    unfold Loaded
    rw [hstate]
    trivial

theorem mainStep_loaded (hl : Loaded files m)
    (h : mainStep (progMode files) m e a = .running m') : Loaded files m' := by
  obtain ⟨m1, e1, bytes, hcall, -, rfl⟩ := mainStep_running h
  exact (handler_state hl hcall).1

theorem mainLoop_loaded (as : List Arrival) : ∀ {m m' : Main} {e : event_t}, Loaded files m →
    mainLoop (progMode files) m e as = .running m' → Loaded files m' := by
  induction as with
  | nil =>
    intro m m' e hl h
    cases h
    exact hl
  | cons a as ih =>
    intro m m' e hl h
    rw [mainLoop] at h
    cases hstep : mainStep (progMode files) m e a with
    | running m1 =>
      rw [hstep] at h
      exact ih (mainStep_loaded hl hstep) h
    | exited | aborted | undefined =>
      rw [hstep] at h
      cases h

/-! ## The first read -/

/-- After the first byte the preloader is in charge or still the boot handler. -/
structure Settled (files : Files) (b : UInt8) (m : Main) : Prop where
  state : m.current_state = if boot.Moves files b then .PRELOADER_STATE else .BOOT_STATE
  loaded : Loaded files m

theorem Settled.not_flashloader {b : UInt8} (h : Settled files b m) :
    m.current_state ≠ .FLASHLOADER_STATE := by
  rw [h.state]
  split <;> decide

/-- Every read that begins with the byte makes the same of the first turn. -/
def Opens (files : Files) (e0 : event_t) (b : UInt8) (m : Main) : Prop :=
  ∀ a : Arrival, a.bytes.head? = some b →
    mainStep (progMode files) (progInit files) e0 a = .running m

theorem in0_read {b : UInt8} (h : a.bytes.head? = some b) : in0 (read e a) = b := by
  have hne : a.bytes ≠ [] := fun hnil => by rw [hnil] at h; cases h
  rw [in0, read_head e hne, List.headD_eq_head?_getD, h]
  rfl

/-- What the first read does: it depends on its first byte only. -/
theorem first_read (files : Files) {e0 : event_t} {b : UInt8}
    (he : e0.outcount ≤ BUF_SIZE ∨ b = STX) :
    ∃ m, Settled files b m ∧ Opens files e0 b m := by
  have hboot : (progInit files).current_state = .BOOT_STATE := rfl
  have hloaded : Loaded files (progInit files) := rfl
  obtain ⟨bytes, hr⟩ := boot_replies_some (m := progInit files) b he
  refine ⟨(boot.serves files (progInit files) b).write bytes, ⟨?_, ?_⟩, fun a ha => ?_⟩
  · exact boot_serves_state (progInit files) b
  · exact boot_serves_loaded rfl hboot b
  · rw [← in0_read (e := e0) ha] at hr ⊢
    exact boot_turn hloaded hboot hr

/-! ## Cuts -/

/-- Reads that bring the stream, each of them with some bytes. -/
def Cut (s : List UInt8) (as : List Arrival) : Prop :=
  as.flatMap Arrival.bytes = s ∧ ∀ a ∈ as, a.bytes ≠ []

/-- No byte behind the first one is one that the handler in charge after the first byte acts on. -/
def Quiet (files : Files) : List UInt8 → Prop
  | [] => True
  | b :: s => ∀ c ∈ s,
      ¬ Acts files (if boot.Moves files b then .PRELOADER_STATE else .BOOT_STATE) c

/-- All the cuts of the stream, and of what was sent of it so far, do the same. -/
def CutFree (files : Files) (e0 : event_t) (s : List UInt8) : Prop :=
  ∀ p, p <+: s → ∀ as as', Cut p as → Cut p as' →
    mainLoop (progMode files) (progInit files) e0 as =
      mainLoop (progMode files) (progInit files) e0 as'

/-- The loop never writes more than the array of the first event holds: its count is no larger, or
the size is asked for. -/
def Defined (e0 : event_t) (s : List UInt8) : Prop :=
  e0.outcount ≤ BUF_SIZE ∨ ∀ b ∈ s.head?, b = STX

/-- Reads whose first bytes nothing is done for. -/
theorem mainLoop_idle (hl : Loaded files m) (as : List Arrival)
    (has : ∀ a ∈ as, ¬ Acts files m.current_state (in0 (read .cleared a))) :
    mainLoop (progMode files) m .cleared as = .running m := by
  induction as with
  | nil => rfl
  | cons a as ih =>
    rw [mainLoop_cons (turn_idle hl (has a List.mem_cons_self))]
    exact ih fun a' ha' => has a' (List.mem_cons_of_mem a ha')

theorem cut_nil (h : Cut [] as) : as = [] := by
  cases as with
  | nil => rfl
  | cons a as =>
    have hnil := h.1
    rw [List.flatMap_cons, List.append_eq_nil_iff] at hnil
    exact absurd hnil.1 (h.2 a List.mem_cons_self)

theorem in0_mem (h : a.bytes ≠ []) : in0 (read e a) ∈ a.bytes := by
  rw [in0, read_head e h]
  cases hb : a.bytes with
  | nil => exact absurd hb h
  | cons b bytes => exact List.mem_cons_self

/-- The first byte of a stream is the first one of the first read. -/
theorem cut_cons {b : UInt8} {s : List UInt8} (h : Cut (b :: s) as) :
    ∃ a as', as = a :: as' ∧ a.bytes.head? = some b ∧
      ∀ a' ∈ as', in0 (read .cleared a') ∈ s := by
  obtain ⟨hbytes, hreads⟩ := h
  cases as with
  | nil => cases hbytes
  | cons a as =>
    rw [List.flatMap_cons] at hbytes
    cases hb : a.bytes with
    | nil => exact absurd hb (hreads a List.mem_cons_self)
    | cons c bytes =>
      rw [hb, List.cons_append, List.cons.injEq] at hbytes
      refine ⟨a, as, rfl, by rw [hb, List.head?_cons, hbytes.1], fun a' ha' => ?_⟩
      rw [← hbytes.2]
      refine List.mem_append_right _ (List.mem_flatMap.mpr ⟨a', ha', ?_⟩)
      exact in0_mem (hreads a' (List.mem_cons_of_mem a ha'))

variable {e0 : event_t}

/-- Every cut of a quiet stream does what the first byte alone does. -/
theorem quiet_cut {b : UInt8} {s : List UInt8} (hm : Settled files b m)
    (hfirst : Opens files e0 b m) (hs : ∀ c ∈ s, ¬ Acts files m.current_state c)
    (h : Cut (b :: s) as) :
    mainLoop (progMode files) (progInit files) e0 as = .running m := by
  obtain ⟨a, as', rfl, hb, hrest⟩ := cut_cons h
  rw [mainLoop_cons (hfirst a hb)]
  exact mainLoop_idle hm.loaded as' fun a' ha' => hs _ (hrest a' ha')

theorem Quiet.cuts {s : List UInt8} (hs : Quiet files s) (he : Defined e0 s)
    {as as' : List Arrival} (h : Cut s as) (h' : Cut s as') :
    mainLoop (progMode files) (progInit files) e0 as =
      mainLoop (progMode files) (progInit files) e0 as' := by
  cases s with
  | nil => rw [cut_nil h, cut_nil h']
  | cons b s =>
    obtain ⟨m, hm, hfirst⟩ := first_read files (he.imp_right fun h => h b rfl)
    have hquiet : ∀ c ∈ s, ¬ Acts files m.current_state c := by
      intro c hc
      rw [hm.state]
      exact hs c hc
    rw [quiet_cut hm hfirst hquiet h, quiet_cut hm hfirst hquiet h']

theorem Quiet.of_prefix {s p : List UInt8} (hs : Quiet files s) (hp : p <+: s) : Quiet files p := by
  obtain ⟨t, rfl⟩ := hp
  cases p with
  | nil => trivial
  | cons b p => exact fun c hc => hs c (List.mem_append_left t hc)

theorem Defined.of_prefix {s p : List UInt8} (hs : Defined e0 s) (hp : p <+: s) : Defined e0 p := by
  obtain ⟨t, rfl⟩ := hp
  refine hs.imp_right fun h b hb => h b ?_
  cases p with
  | nil => cases hb
  | cons c p => exact hb

/-- A first event with a larger count is written from beyond its end, in every cut. -/
theorem undefined_cut {s : List UInt8} (hs : ¬ Defined e0 s) (h : Cut s as) :
    mainLoop (progMode files) (progInit files) e0 as = .undefined := by
  unfold Defined at hs
  rw [not_or, Int.not_le] at hs
  obtain ⟨hcount, hhead⟩ := hs
  cases s with
  | nil => exact absurd (fun b hb => by cases hb) hhead
  | cons b s =>
    obtain ⟨a, as', rfl, hb, -⟩ := cut_cons h
    have hstx : in0 (read e0 a) ≠ STX := by
      rw [in0_read hb]
      exact fun hb => hhead fun c hc => by cases hc; exact hb
    have hloaded : Loaded files (progInit files) := rfl
    rw [mainLoop, boot_turn_undefined hloaded rfl hstx hcount]

/-! ## Two cuts of a stream that is not quiet -/

theorem cut_one {s : List UInt8} (hs : s ≠ []) (hlen : s.length ≤ BUF_SIZE) :
    Cut s [arrivalOf s hlen] := by
  refine ⟨List.append_nil s, fun a ha => ?_⟩
  obtain rfl := List.mem_singleton.mp ha
  exact hs

theorem Cut.append {s s' : List UInt8} (h : Cut s as) (h' : Cut s' as') :
    Cut (s ++ s') (as ++ as') := by
  refine ⟨by rw [List.flatMap_append, h.1, h'.1], fun a ha => ?_⟩
  rcases List.mem_append.mp ha with ha | ha
  · exact h.2 a ha
  · exact h'.2 a ha

theorem short_le {s : List UInt8} (h : s.length ≤ 2) : s.length ≤ BUF_SIZE :=
  Nat.le_trans h (by decide)

/-- Each byte in a read of its own. -/
theorem cut_singles (s : List UInt8) : ∃ as, Cut s as := by
  induction s with
  | nil => exact ⟨[], rfl, by simp⟩
  | cons c s ih =>
    obtain ⟨as, h⟩ := ih
    exact ⟨_, (cut_one (List.cons_ne_nil c []) (short_le (by simp))).append h⟩

theorem cut_ne_nil {b : UInt8} {s : List UInt8} (h : Cut (b :: s) as) : as ≠ [] := by
  rintro rfl
  cases h.1

section

variable {b y : UInt8} {u : List UInt8} (hm : Settled files b m) (hfirst : Opens files e0 b m)
  (hu : ∀ c ∈ u, ¬ Acts files m.current_state c)

include hm hfirst hu

/-- The byte stands first in a read. -/
theorem first_counts (hy : Acts files m.current_state y) (h : Cut (b :: u) as)
    (ha : a.bytes.head? = some y) :
    mainLoop (progMode files) (progInit files) e0 (as ++ [a]) ≠ .running m := by
  rw [mainLoop_append (cut_ne_nil h) (quiet_cut hm hfirst hu h), mainLoop_one]
  refine turn_acts hm.not_flashloader hm.loaded ?_
  rw [in0_read ha]
  exact hy

/-- The byte stands behind the one before it. -/
theorem second_is_lost (y : UInt8) : ∃ as, Cut (b :: u ++ [y]) as ∧
    mainLoop (progMode files) (progInit files) e0 as = .running m := by
  have hpair : ∀ c, Cut [c, y] [arrivalOf [c, y] (short_le (by simp))] :=
    fun c => cut_one (List.cons_ne_nil c [y]) (short_le (by simp))
  rcases List.eq_nil_or_concat u with rfl | ⟨w, z, rfl⟩
  · refine ⟨_, hpair b, ?_⟩
    rw [mainLoop_one]
    exact hfirst _ rfl
  · obtain ⟨as, hw⟩ := cut_singles (b :: w)
    refine ⟨as ++ [arrivalOf [z, y] (short_le (by simp))], ?_, ?_⟩
    · have h := hw.append (hpair z)
      simpa using h
    · rw [mainLoop_append (cut_ne_nil hw)
        (quiet_cut hm hfirst (fun c hc => hu c (by simp [hc])) hw)]
      refine mainLoop_idle hm.loaded _ fun a ha => ?_
      obtain rfl := List.mem_singleton.mp ha
      exact hu z (by simp)

end

/-- Where a stream is not quiet, some byte behind the first one is the first that counts. -/
theorem not_quiet {s : List UInt8} (hs : ¬ Quiet files s) (he : Defined e0 s) :
    ∃ b u y v m, s = b :: u ++ y :: v ∧ Settled files b m ∧ Opens files e0 b m ∧
      (∀ c ∈ u, ¬ Acts files m.current_state c) ∧ Acts files m.current_state y := by
  cases s with
  | nil => exact absurd trivial hs
  | cons b s =>
    obtain ⟨m, hm, hfirst⟩ := first_read files (he.imp_right fun h => h b rfl)
    simp only [Quiet, ← hm.state, not_forall, not_not] at hs
    obtain ⟨c, hc, hacts⟩ := hs
    obtain ⟨y, hy⟩ : ∃ y, s.find? (fun c => decide (Acts files m.current_state c)) = some y :=
      Option.isSome_iff_exists.mp (List.find?_isSome.mpr ⟨c, hc, decide_eq_true hacts⟩)
    obtain ⟨hcounts, u, v, rfl, hu⟩ := List.find?_eq_some_iff_append.mp hy
    refine ⟨b, u, y, v, m, rfl, hm, hfirst, fun c hc => ?_, of_decide_eq_true hcounts⟩
    simpa using hu c hc

theorem CutFree.quiet {s : List UInt8} (he : Defined e0 s) (h : CutFree files e0 s) :
    Quiet files s := by
  by_contra hs
  obtain ⟨b, u, y, v, m, rfl, hm, hfirst, hu, hy⟩ := not_quiet hs he
  obtain ⟨as, hcut, hrun⟩ := second_is_lost hm hfirst hu y
  obtain ⟨as', hsingles⟩ := cut_singles (b :: u)
  have hone : Cut [y] [arrivalOf [y] (short_le (by simp))] :=
    cut_one (List.cons_ne_nil y []) (short_le (by simp))
  have hsame := h (b :: u ++ [y]) ⟨v, by simp⟩ _ as (hsingles.append hone) hcut
  exact first_counts hm hfirst hu hy hsingles rfl (hsame.trans hrun)

/-- A stream that fits in one read. -/
theorem quiet_of_cuts {s : List UInt8} (he : Defined e0 s) (hlen : s.length ≤ BUF_SIZE)
    (h : ∀ as as', Cut s as → Cut s as' →
      mainLoop (progMode files) (progInit files) e0 as =
        mainLoop (progMode files) (progInit files) e0 as') :
    Quiet files s := by
  by_contra hs
  obtain ⟨b, u, y, v, m, rfl, hm, hfirst, hu, hy⟩ := not_quiet hs he
  have hwhole := cut_one (List.cons_ne_nil b (u ++ y :: v)) hlen
  have hfront : (b :: u).length ≤ BUF_SIZE :=
    Nat.le_trans (by rw [List.length_append]; exact Nat.le_add_right _ _) hlen
  have hback : (y :: v).length ≤ BUF_SIZE :=
    Nat.le_trans (by rw [List.length_append]; exact Nat.le_add_left _ _) hlen
  have hcut := cut_one (List.cons_ne_nil b u) hfront
  have hsame := h _ _ (hcut.append (cut_one (List.cons_ne_nil y v) hback)) hwhole
  have hrun := (mainLoop_one (e := e0)).trans (hfirst (arrivalOf (b :: u ++ y :: v) hlen) rfl)
  exact first_counts hm hfirst hu hy hcut rfl (hsame.trans hrun)

/-! ## The law -/

/-- The read leaves the handler in charge. -/
def Stays (files : Files) (m : Main) (e : event_t) (a : Arrival) : Prop :=
  ∃ m', mainStep (progMode files) m e a = .running m' ∧ m'.current_state = m.current_state

theorem boot_stays_iff (hl : Loaded files m) (hs : m.current_state = .BOOT_STATE)
    (he : e.outcount ≤ BUF_SIZE) :
    Stays files m e a ↔ ¬ boot.Moves files (in0 (read e a)) := by
  obtain ⟨bytes, hr⟩ := boot_replies_some (m := m) (in0 (read e a)) (.inl he)
  have hstate : ((boot.serves files m (in0 (read e a))).write bytes).current_state =
      if boot.Moves files (in0 (read e a)) then .PRELOADER_STATE else m.current_state :=
    boot_serves_state m (in0 (read e a))
  unfold Stays
  rw [boot_turn hl hs hr]
  by_cases hmoves : boot.Moves files (in0 (read e a))
  · rw [if_pos hmoves] at hstate
    refine iff_of_false ?_ (not_not.mpr hmoves)
    rintro ⟨m', hm', hkept⟩
    cases hm'
    rw [hstate, hs] at hkept
    cases hkept
  · rw [if_neg hmoves] at hstate
    exact iff_of_true ⟨_, rfl, hstate⟩ hmoves

theorem preloader_stays_iff (hl : Loaded files m) (hs : m.current_state = .PRELOADER_STATE)
    (he : e.outcount ≤ BUF_SIZE) :
    Stays files m e a ↔ ¬ preloader.Moves files (in0 (read e a)) := by
  unfold Stays
  constructor
  · rintro ⟨m', hm', hkept⟩ hmoves
    obtain ⟨m1, e1, bytes, hcall, -, rfl⟩ := mainStep_running hm'
    have hstate := (handler_state hl hcall).2
    rw [hs] at hkept hstate
    simp only [if_pos hmoves] at hstate
    exact absurd (hstate.symm.trans hkept) (by decide)
  · intro hmoves
    obtain ⟨m1, hserves, -⟩ := preloader_serves_other (m := m) hmoves
    have hstate := preloader_serves_state hs hserves
    rw [if_neg hmoves, ← hs] at hstate
    exact ⟨_, preloader_turn hl hs hserves (reply_some he), hstate⟩

theorem head_bytes (h : a.bytes ≠ []) : a.bytes.head? = some (in0 (read e a)) := by
  rw [in0, read_head e h]
  cases hb : a.bytes with
  | nil => exact absurd hb h
  | cons b bytes => rfl

theorem no_label_iff {b c : UInt8} {labels : List UInt8} :
    (b = c ∧ b ∉ labels) ↔ (b = c ∧ c ∉ labels) := by
  constructor
  · rintro ⟨rfl, h⟩
    exact ⟨rfl, h⟩
  · rintro ⟨rfl, h⟩
    exact ⟨rfl, h⟩

/-- The handshakes do the same for every cut of what the target sends if and only if the stream is
quiet: no byte behind the first one is one that the handler in charge acts on. For a stream that
fits in one read its own cuts say so. (Where the first event makes the loop write beyond its array,
every cut does.) And a read ends a state if and only if the checksum of the image stands first in it
and has not the value of a label. -/
theorem the_handshakes_are_free_of_the_cuts_iff (files : Files) (e0 : event_t) (s : List UInt8) :
    (Defined e0 s → (CutFree files e0 s ↔ Quiet files s) ∧
      (s.length ≤ BUF_SIZE → ((∀ as as', Cut s as → Cut s as' →
        mainLoop (progMode files) (progInit files) e0 as =
          mainLoop (progMode files) (progInit files) e0 as') ↔ Quiet files s))) ∧
    (¬ Defined e0 s → ∀ as, Cut s as →
      mainLoop (progMode files) (progInit files) e0 as = .undefined) ∧
    ∀ (as : List Arrival) (m : Main) (e : event_t) (a : Arrival),
      mainLoop (progMode files) (progInit files) e0 as = .running m →
      a.bytes ≠ [] → e.outcount ≤ BUF_SIZE →
      (m.current_state = .BOOT_STATE → (¬ Stays files m e a ↔
        a.bytes.head? = some (chk files.PreBootPrgm441_20MHz) ∧
          chk files.PreBootPrgm441_20MHz ∉ [SOH, STX, ETX, ACK, NACK])) ∧
      (m.current_state = .PRELOADER_STATE → (¬ Stays files m e a ↔
        a.bytes.head? = some (chk files.FlashLoader441) ∧
          chk files.FlashLoader441 ∉ [PRELOADER_READY, PRELOADER_NEW_BAUDRATE_READY])) := by
  refine ⟨fun he => ⟨⟨CutFree.quiet he, fun hs p hp as as' =>
    (hs.of_prefix hp).cuts (he.of_prefix hp)⟩, fun hlen => ⟨quiet_of_cuts he hlen,
    fun hs as as' => hs.cuts he⟩⟩, fun hs as => undefined_cut hs, ?_⟩
  intro as m e a hrun hne he
  have hinit : Loaded files (progInit files) := rfl
  have hl := mainLoop_loaded as hinit hrun
  rw [head_bytes (e := e) hne]
  constructor
  · intro hs
    rw [boot_stays_iff hl hs he, not_not, Option.some.injEq]
    exact no_label_iff
  · intro hs
    rw [preloader_stays_iff hl hs he, not_not, Option.some.injEq]
    exact no_label_iff

/-- Images of one byte. The target asks for the preloader and sends its checksum: in one read, and
in two. -/
theorem a_checksum_behind_an_acknowledgement_is_lost :
    ¬ ∀ (files : Files) (s : List UInt8) (as as' : List Arrival), Cut s as → Cut s as' →
      mainLoop (progMode files) (progInit files) .cleared as =
        mainLoop (progMode files) (progInit files) .cleared as' := by
  intro h
  have hquiet : Quiet ⟨[0x5A], [0x77], [1], 0, 0, 0⟩ [ACK, 0x5A] :=
    quiet_of_cuts (.inl (Int.natCast_nonneg BUF_SIZE)) (short_le (by decide)) (h _ _)
  exact hquiet 0x5A (by simp) (by decide)

end dect_prog.main
