-- What main.c writes after a call of a handler. The loop resets the event behind
-- each turn and not before the first, so what was in `outcount` can be sent as a
-- reply that no handler asked for.
import DectProg.Handshakes
import DectProg.Linked

open dect_prog.package dect_prog.buffer dect_prog.main

namespace dect_prog.event_loop

variable {σ : Type}

/-! ## The modes that take whole reads -/

open busmail.linked in
/-- The variables of busmail.c and of the application, and the input buffer. -/
abbrev Bus (κ : Type) := Process κ × buffer_t

variable {κ : Type}

/-- `handle_app_package` and `handle_nvs_package`, which are the same but for the callback. -/
def handleBusmailPackage (application_frame : busmail.Callback κ) (s : Bus κ) (ev : Event) :
    Outcome (Bus κ) :=
  busmail.handleBusmailPackage (busmail.linked.busmail_dispatch application_frame) s.1 s.2 ev

def busmailMode (application_frame : busmail.Callback κ) : Mode (Bus κ) where
  handler := silent (handleBusmailPackage application_frame)
  tty s := s.1.vars.tty
  write s bytes := ({ s.1 with vars := { s.1.vars with tty := s.1.vars.tty ++ bytes } }, s.2)
  write_nil s := by rw [List.append_nil]
  tty_write _ _ := rfl
  leaves_or_replies s ev := .inl (silent_leaves _ s ev)

def appMode (api : busmail.Api) : Mode (Bus Int) := busmailMode (app.application_frame api)

def nvsMode (api : busmail.Api) : Mode (Bus Int) := busmailMode (nvs.application_frame api)

/-- The state before the loop in APP and in NVS mode. -/
def busmail_init : Option (Bus Int) := do
  let buf ← buffer_new 500
  some (⟨busmail.linked.busmail_init, 0⟩, buf)

/-! ## What the loop writes -/

variable (mode : Mode σ)

/-- What a call places in `out`: the reply that it leaves where there was none before. -/
def placed (s : σ) (ev : Event) : List UInt8 :=
  match mode.handler s .cleared ev with
  | .running (_, e) => (reply e).getD []
  | _ => []

/-- After each call that returns, what is written is what this call placed. -/
def WritesWhatWasPlaced : σ → event_t → List Arrival → Prop
  | _, _, [] => True
  | s, e, a :: as =>
    ∀ s' e', mode.handler s e (read e a) = .running (s', e') →
      reply e' = some (placed mode s (read e a)) ∧
        WritesWhatWasPlaced (mode.write s' (placed mode s (read e a))) .cleared as

/-- At the end and before it, the tty has got what it gets from an event of zeros. -/
def DependsOnTheReads (s : σ) (e : event_t) (as : List Arrival) : Prop :=
  ∀ n, (mainLoop mode s e (as.take n)).map mode.tty =
    (mainLoop mode s .cleared (as.take n)).map mode.tty

/-- `main` replies only what the handler asked for. -/
def Faithful (s : σ) (e : event_t) (as : List Arrival) : Prop :=
  WritesWhatWasPlaced mode s e as ∧ DependsOnTheReads mode s e as

def Returns {α : Type} (o : Outcome α) : Prop := ∃ r, o = .running r

/-- The call does not let through what was in `outcount` before. -/
def Covers (s : σ) (e : event_t) (ev : Event) : Prop :=
  e.outcount ≤ 0 ∨ (∃ bytes ≠ [], Replies mode.handler s ev bytes) ∨
    ¬ Returns (mode.handler s e ev)

variable {mode} {s : σ} {e : event_t} {ev : Event} {a : Arrival} {as : List Arrival}

/-- A call that leaves the reply returns with the event that it found. -/
theorem Leaves.of_running {handler : Handler σ} (hl : Leaves handler s ev) {s' : σ} {e' : event_t}
    (h : handler s e ev = .running (s', e')) :
    e' = e ∧ handler s .cleared ev = .running (s', .cleared) := by
  rw [hl] at h
  obtain ⟨r, hr, heq⟩ := Outcome.of_map_running h
  cases heq
  have hcleared := hl .cleared
  rw [hr] at hcleared
  exact ⟨rfl, hr.trans hcleared⟩

theorem placed_leaves (hl : Leaves mode.handler s ev) : placed mode s ev = [] := by
  unfold placed
  cases h : mode.handler s .cleared ev with
  | running r =>
    obtain ⟨hr, -⟩ := hl.of_running h
    show (reply r.2).getD [] = []
    rw [hr]
    rfl
  | exited | aborted | undefined => rfl

theorem placed_replies {bytes : List UInt8} (hr : Replies mode.handler s ev bytes) :
    placed mode s ev = bytes := by
  obtain ⟨s', hr⟩ := hr
  obtain ⟨e', hcall, hreply⟩ := hr .cleared
  simp only [placed, hcall, hreply, Option.getD_some]

theorem Replies.of_running {handler : Handler σ} {bytes : List UInt8}
    (hr : Replies handler s ev bytes) {s' : σ} {e' : event_t}
    (h : handler s e ev = .running (s', e')) : reply e' = some bytes := by
  obtain ⟨s1, hr⟩ := hr
  obtain ⟨e1, hcall, hreply⟩ := hr e
  rw [h] at hcall
  cases hcall
  exact hreply

/-- One call: what is written behind it is what it placed, unless garbage is let through. -/
theorem writes_iff : (∀ s' e', mode.handler s e ev = .running (s', e') →
    reply e' = some (placed mode s ev)) ↔ Covers mode s e ev := by
  rcases mode.leaves_or_replies s ev with hl | ⟨bytes, hne, hr⟩
  · constructor
    · intro hwrites
      by_cases hreturns : Returns (mode.handler s e ev)
      · obtain ⟨⟨s', e'⟩, hcall⟩ := hreturns
        have hreply := hwrites s' e' hcall
        rw [(hl.of_running hcall).1, placed_leaves hl] at hreply
        exact .inl (Int.not_lt.mp fun hpos => reply_of_pos hpos hreply)
      · exact .inr (.inr hreturns)
    · rintro (hle | ⟨bytes, -, hr⟩ | hreturns) s' e' hcall
      · rw [(hl.of_running hcall).1, placed_leaves hl]
        exact reply_of_le hle
      · rw [placed_replies hr]
        exact hr.of_running hcall
      · exact absurd ⟨_, hcall⟩ hreturns
  · refine ⟨fun _ => .inr (.inl ⟨bytes, hne, hr⟩), fun _ s' e' hcall => ?_⟩
    rw [placed_replies hr]
    exact hr.of_running hcall

/-- Behind the first turn the event is reset, and nothing is let through. -/
theorem writes_of_le (as : List Arrival) :
    ∀ {s : σ} {e : event_t}, e.outcount ≤ 0 → WritesWhatWasPlaced mode s e as := by
  induction as with
  | nil => exact fun _ => trivial
  | cons a as ih =>
    intro s e hle s' e' hcall
    exact ⟨writes_iff.mpr (.inl hle) s' e' hcall, ih (Int.le_refl 0)⟩

theorem writes_cons_iff :
    WritesWhatWasPlaced mode s e (a :: as) ↔ Covers mode s e (read e a) := by
  rw [← writes_iff]
  constructor
  · exact fun h s' e' hcall => (h s' e' hcall).1
  · exact fun h s' e' hcall => ⟨h s' e' hcall, writes_of_le as (Int.le_refl 0)⟩

/-! ## Two runs -/

/-- Where nothing is let through, a turn does what it does from an event of zeros, if the handler
does. -/
theorem mainStep_covered (hc : Covers mode s e (read e a))
    (hread : mode.handler s .cleared (read e a) = mode.handler s .cleared (read .cleared a)) :
    mainStep mode s e a = mainStep mode s .cleared a := by
  unfold mainStep
  rw [← hread]
  rcases mode.leaves_or_replies s (read e a) with hl | ⟨bytes, -, s', hr⟩
  · cases hcall : mode.handler s .cleared (read e a) with
    | running r =>
      obtain ⟨s', e'⟩ := r
      obtain ⟨rfl, -⟩ := hl.of_running hcall
      have hcall' : mode.handler s e (read e a) = .running (s', e) := by rw [hl, hcall]; rfl
      have hreply := writes_iff.mpr hc s' e hcall'
      rw [placed_leaves hl] at hreply
      simp only [hcall', writeReply, hreply, reply_cleared]
    | exited | aborted | undefined => rw [hl, hcall]; rfl
  · obtain ⟨e1, hcall, hreply⟩ := hr e
    obtain ⟨e2, hcall', hreply'⟩ := hr .cleared
    simp only [hcall, hcall', writeReply, hreply, hreply']

theorem mainLoop_congr (h : mainStep mode s e a = mainStep mode s .cleared a) (n : Nat) :
    mainLoop mode s e ((a :: as).take n) = mainLoop mode s .cleared ((a :: as).take n) := by
  cases n with
  | zero => rfl
  | succ n => simp only [List.take_succ_cons, mainLoop, h]

theorem faithful_nil : Faithful mode s e [] := by
  refine ⟨trivial, fun n => ?_⟩
  rw [List.take_nil]
  rfl

theorem faithful_of_covers (hc : Covers mode s e (read e a))
    (hread : mode.handler s .cleared (read e a) = mode.handler s .cleared (read .cleared a)) :
    Faithful mode s e (a :: as) :=
  ⟨writes_cons_iff.mpr hc, fun n =>
    congrArg (Outcome.map mode.tty) (mainLoop_congr (mainStep_covered hc hread) n)⟩

theorem Leaves.not_replies {handler : Handler σ} (hl : Leaves handler s ev) {bytes : List UInt8}
    (hne : bytes ≠ []) : ¬ Replies handler s ev bytes := by
  rintro ⟨s', hr⟩
  obtain ⟨e', hcall, hreply⟩ := hr .cleared
  rw [(hl.of_running hcall).1, reply_cleared] at hreply
  exact hne (Option.some.inj hreply).symm

theorem silent_returns {handle : σ → Event → Outcome σ} :
    Returns (silent handle s e ev) ↔ Returns (handle s ev) := by
  unfold silent
  constructor
  · rintro ⟨r, h⟩
    obtain ⟨s', hs', -⟩ := Outcome.of_map_running h
    exact ⟨s', hs'⟩
  · rintro ⟨s', h⟩
    exact ⟨(s', e), by rw [h]; rfl⟩

theorem silent_covers {handle : σ → Event → Outcome σ} (hmode : mode.handler = silent handle) :
    Covers mode s e ev ↔ e.outcount ≤ 0 ∨ ¬ Returns (handle s ev) := by
  have hl : Leaves mode.handler s ev := by
    rw [hmode]
    exact silent_leaves handle s ev
  rw [← silent_returns (e := e), ← hmode]
  constructor
  · rintro (hle | ⟨bytes, hne, hr⟩ | hreturns)
    · exact .inl hle
    · exact absurd hr (hl.not_replies hne)
    · exact .inr hreturns
  · rintro (hle | hreturns)
    · exact .inl hle
    · exact .inr (.inr hreturns)

theorem busmail_faithful_iff (application_frame : busmail.Callback κ) (s : Bus κ) (e : event_t)
    (a : Arrival) (as : List Arrival) :
    Faithful (busmailMode application_frame) s e (a :: as) ↔
      e.outcount ≤ 0 ∨ ¬ Returns (handleBusmailPackage application_frame s (read e a)) := by
  have hcovers : Covers (busmailMode application_frame) s e (read e a) ↔ _ := silent_covers rfl
  rw [← hcovers]
  refine ⟨fun h => writes_cons_iff.mp h.1, fun hc => faithful_of_covers hc ?_⟩
  exact congrArg (Outcome.map fun s => (s, event_t.cleared)) (package_read s.1 e .cleared a)

/-! ## PROG mode -/

namespace prog

variable (files : Files)

/-- What boot.c and the loop write for a byte in the first turn. -/
def bootWrites (b : UInt8) : List UInt8 :=
  if b = STX then [SOH, (progInit files).preloader.size_lsb, (progInit files).preloader.size_msb]
  else if b = ACK then files.PreBootPrgm441_20MHz
  else if boot.Moves files b then [ACK, PRELOADER_START]
  else []

theorem bootWrites_nil_iff (b : UInt8) : bootWrites files b = [] ↔ ¬ boot.Acts files b := by
  unfold bootWrites boot.Acts
  split_ifs with hstx hack hmoves
  · simp [hstx]
  · simp [hack, boot.Moves, show ACK ≠ STX by decide]
  · simp [hmoves]
  · simp [hstx, hack, hmoves]

/-- No other byte makes boot.c write what it writes for a zero, where it writes something for
one of the two. -/
theorem bootWrites_zero_iff (b : UInt8) : bootWrites files b = bootWrites files 0 ↔
    b = 0 ∨ ¬ boot.Acts files b ∧ ¬ boot.Acts files 0 := by
  have hacts : boot.Acts files 0 ↔ boot.Moves files 0 := by
    unfold boot.Acts
    simp [show (0 : UInt8) ≠ STX by decide, show (0 : UInt8) ≠ ACK by decide]
  constructor
  · intro heq
    by_cases h0 : boot.Acts files 0
    · -- The checksum is zero.
      left
      have hmoves := hacts.mp h0
      have hchk := hmoves.1
      have hwrites : bootWrites files 0 = [ACK, PRELOADER_START] := by
        unfold bootWrites
        rw [if_neg (by decide), if_neg (by decide), if_pos hmoves]
      rw [hwrites, bootWrites] at heq
      split_ifs at heq with hstx hack hb
      · simp at heq
      · rw [heq] at hchk
        exact absurd hchk (by decide)
      · rw [hb.1, ← hchk]
    · right
      rw [(bootWrites_nil_iff files 0).mpr h0] at heq
      exact ⟨(bootWrites_nil_iff files b).mp heq, h0⟩
  · rintro (rfl | ⟨hb, h0⟩)
    · rfl
    · rw [(bootWrites_nil_iff files b).mpr hb, (bootWrites_nil_iff files 0).mpr h0]

/-- The first call. -/
theorem handler_init (e : event_t) (ev : Event) :
    (progMode files).handler (progInit files) e ev =
      .running (boot.serves files (progInit files) (in0 ev),
        if in0 ev = STX then boot.send_size (progInit files) e else e) :=
  boot_handles rfl

theorem handler_idle (hb : ¬ boot.Acts files (in0 ev)) :
    (progMode files).handler (progInit files) e ev = .running (progInit files, e) := by
  have hstx : in0 ev ≠ STX := fun h => hb (.inl h)
  rw [handler_init, (boot_serves_idle (e := e) rfl hb).1, if_neg hstx]

theorem init_leaves (hstx : in0 ev ≠ STX) :
    Leaves (progMode files).handler (progInit files) ev := boot_leaves hstx

theorem covers_iff : Covers (progMode files) (progInit files) e ev ↔
    e.outcount ≤ 0 ∨ in0 ev = STX := by
  constructor
  · rintro (hle | ⟨bytes, hne, hr⟩ | hreturns)
    · exact .inl hle
    · by_cases hstx : in0 ev = STX
      · exact .inr hstx
      · exact absurd hr ((init_leaves files hstx).not_replies hne)
    · exact absurd ⟨_, handler_init files e ev⟩ hreturns
  · rintro (hle | hstx)
    · exact .inl hle
    · exact .inr (.inl ⟨_, by simp, boot_replies hstx⟩)

theorem mainStep_tty (hc : e.outcount ≤ 0 ∨ in0 (read e a) = STX) :
    (mainStep (progMode files) (progInit files) e a).map (progMode files).tty =
      .running (bootWrites files (in0 (read e a))) := by
  have hcall := handler_init files e (read e a)
  by_cases hstx : in0 (read e a) = STX
  · rw [if_pos hstx] at hcall
    rw [mainStep_tty_eq hcall (reply_send_size _ e), bootWrites, if_pos hstx, hstx,
      boot_serves_stx]
    rfl
  · rw [if_neg hstx] at hcall
    rw [mainStep_tty_eq hcall (reply_of_le (hc.resolve_right hstx)), bootWrites, if_neg hstx,
      List.append_nil]
    refine congrArg Outcome.running ?_
    show (boot.serves files (progInit files) (in0 (read e a))).tty = _
    unfold boot.serves
    by_cases hack : in0 (read e a) = ACK
    · rw [if_pos hack, if_pos hack]
      show [] ++ files.PreBootPrgm441_20MHz.take
        (files.PreBootPrgm441_20MHz.length : Int).toNat = _
      rw [Int.toNat_natCast, List.take_length, List.nil_append]
    · rw [if_neg hack, if_neg hack]
      by_cases hmoves : boot.Moves files (in0 (read e a))
      · rw [if_pos hmoves, if_pos hmoves]
        rfl
      · rw [if_neg hmoves, if_neg hmoves]
        rfl

theorem in0_cleared (h : a.bytes = []) : in0 (read .cleared a) = 0 := read_head_cleared h

theorem faithful_iff (e : event_t) (a : Arrival) (as : List Arrival) :
    Faithful (progMode files) (progInit files) e (a :: as) ↔
      (e.outcount ≤ 0 ∨ in0 (read e a) = STX) ∧
      (a.bytes ≠ [] ∨ in0 (read e a) = 0 ∨
        ¬ boot.Acts files (in0 (read e a)) ∧ ¬ boot.Acts files 0) := by
  constructor
  · rintro ⟨hwrites, hdepends⟩
    have hc := (covers_iff files).mp (writes_cons_iff.mp hwrites)
    refine ⟨hc, or_iff_not_imp_left.mpr fun hnil => ?_⟩
    -- The first turn already tells the two events apart.
    have hfirst := hdepends 1
    rw [List.take_succ_cons, List.take_zero, mainLoop_one, mainLoop_one, mainStep_tty files hc,
      mainStep_tty files (.inl (Int.le_refl 0)), in0_cleared (not_not.mp hnil)] at hfirst
    exact (bootWrites_zero_iff files _).mp (Outcome.running.inj hfirst)
  · rintro ⟨hc, hread⟩
    refine faithful_of_covers ((covers_iff files).mpr hc) ?_
    by_cases hsame : in0 (read e a) = in0 (read .cleared a)
    · rw [handler_init, handler_init, hsame]
    · have hnil : a.bytes = [] := not_not.mp fun hne =>
        hsame ((read_head e hne).trans (read_head .cleared hne).symm)
      rcases hread with hne | h0 | ⟨hb, h0⟩
      · exact absurd hnil hne
      · exact absurd (h0.trans (in0_cleared hnil).symm) hsame
      · rw [← in0_cleared hnil] at h0
        rw [handler_idle files hb, handler_idle files h0]

end prog

/-! ## The reply that nobody asked for -/

/-- An event with a count that the stack held. -/
def garbage : event_t where
  input := List.replicate BUF_SIZE 0
  out := List.replicate BUF_SIZE 0x55
  outcount := 1
  input_length := zeros_length
  out_length := List.length_replicate

/-- Images without a byte. -/
def noFiles : Files := ⟨[], [], [], 0, 0, 0⟩

/-- In each mode, what `main` writes after the calls is what these calls placed, and the tty gets
what it gets from an event of zeros, if and only if the first read finds no count above zero or the
first call hides it: it is asked for the size, or it does not return. In PROG mode the handler also
looks at the array where the first read brings nothing. -/
theorem main_replies_what_was_asked_for_iff (files : Files) (api : busmail.Api) (e : event_t)
    (as : List Arrival) :
    (Faithful (progMode files) (progInit files) e as ↔ ∀ a ∈ as.head?,
      (e.outcount ≤ 0 ∨ in0 (read e a) = STX) ∧
      (a.bytes ≠ [] ∨ in0 (read e a) = 0 ∨
        ¬ boot.Acts files (in0 (read e a)) ∧ ¬ boot.Acts files 0)) ∧
    ∃ s, busmail_init = some s ∧
      (Faithful (appMode api) s e as ↔ ∀ a ∈ as.head?, e.outcount ≤ 0 ∨
        ¬ Returns (handleBusmailPackage (app.application_frame api) s (read e a))) ∧
      (Faithful (nvsMode api) s e as ↔ ∀ a ∈ as.head?, e.outcount ≤ 0 ∨
        ¬ Returns (handleBusmailPackage (nvs.application_frame api) s (read e a))) := by
  obtain ⟨buf, hbuf, -⟩ := buffer_new.spec 500 (by decide) (by decide)
  have hinit : busmail_init = some (⟨busmail.linked.busmail_init, 0⟩, buf) := by
    unfold busmail_init
    rw [show buffer_new 500 = some buf from hbuf]
    rfl
  cases as with
  | nil =>
    exact ⟨iff_of_true faithful_nil (by simp), _, hinit, iff_of_true faithful_nil (by simp),
      iff_of_true faithful_nil (by simp)⟩
  | cons a as =>
    simp only [List.head?_cons, Option.mem_def, Option.some.injEq, forall_eq']
    exact ⟨prog.faithful_iff files e a as, _, hinit, busmail_faithful_iff _ _ e a as,
      busmail_faithful_iff _ _ e a as⟩

/-- `SOH` asks for nothing, and the byte in `out` is sent. -/
theorem garbage_is_sent_as_a_reply :
    ∃ a : Arrival, a.received = some [SOH] ∧
      placed (progMode noFiles) (progInit noFiles) (read garbage a) = [] ∧
      (mainLoop (progMode noFiles) (progInit noFiles) garbage [a]).map Main.tty =
        .running [0x55] ∧
      ¬ Faithful (progMode noFiles) (progInit noFiles) garbage [a] := by
  have hin0 : in0 (read garbage (arrivalOf [SOH] (by decide))) = SOH :=
    read_head garbage (List.cons_ne_nil SOH [])
  have hstx : in0 (read garbage (arrivalOf [SOH] (by decide))) ≠ STX := by
    rw [hin0]
    decide
  have hcall : (progMode noFiles).handler (progInit noFiles) garbage
      (read garbage (arrivalOf [SOH] (by decide))) = .running (progInit noFiles, garbage) := by
    refine prog.handler_idle noFiles ?_
    rw [hin0]
    decide
  have hreply : reply garbage = some [0x55] := by
    rw [reply, if_pos (by decide), if_pos (by decide)]
    show some ((List.replicate BUF_SIZE 0x55).take 1) = some [0x55]
    rw [List.take_replicate]
    rfl
  refine ⟨arrivalOf [SOH] (by decide), rfl, ?_, ?_, ?_⟩
  · exact placed_leaves (prog.init_leaves noFiles hstx)
  · rw [mainLoop_one]
    exact mainStep_tty_eq hcall hreply
  · rintro ⟨hwrites, -⟩
    rcases (prog.covers_iff noFiles).mp (writes_cons_iff.mp hwrites) with hle | hask
    · exact absurd hle (by decide)
    · exact hstx hask

end dect_prog.event_loop
