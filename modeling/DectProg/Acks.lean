-- The acknowledgements of busmail.c. Their header has the type bits of an
-- information frame, so the other end takes them for one, and answers them.
import DectProg.AckNumbers
import DectProg.Machine

open dect_prog.buffer dect_prog.package framing machine tape Relation

namespace dect_prog.busmail

/-- A header that is routed to `supervisory_control_frame`, and that acknowledges `rx_seq_l`. -/
def IsSupervisory (h rx_seq_l : UInt8) : Prop :=
  h &&& PACKET_TYPE_MASK = CONTROL_FRAME ∧ h &&& CONTROL_FRAME_MASK = SUPERVISORY_CONTROL_FRAME ∧
  (h &&& SUID_MASK) >>> SUID_OFFSET = SUID_RR ∧ (h &&& PF_MASK) >>> PF_OFFSET = NO_PF ∧
  (h &&& RX_SEQ_MASK) >>> RX_SEQ_OFFSET = rx_seq_l

theorem not_isSupervisory {h rx_seq_l : UInt8} (hh : h &&& PACKET_TYPE_MASK = INFORMATION_FRAME) :
    ¬ IsSupervisory h rx_seq_l := by
  rintro ⟨hcontrol, -⟩
  rw [hh] at hcontrol
  cases hcontrol

theorem ack_header_type {s : Session} (h : s.rx_seq_l.toNat ≤ 8) :
    make_supervisory_frame s SUID_RR NO_PF &&& PACKET_TYPE_MASK = INFORMATION_FRAME := by
  have : ∀ r : Fin 9, ((SUID_RR <<< SUID_OFFSET) ||| (NO_PF <<< PF_OFFSET) ||| UInt8.ofNat r) &&&
      PACKET_TYPE_MASK = INFORMATION_FRAME := by decide
  have hr := this ⟨s.rx_seq_l.toNat, by omega⟩
  rw [UInt8.ofNat_toNat] at hr
  exact hr

theorem one_byte_fits (h : UInt8) : [h].length ≤ PACKET_SIZE := by
  rw [List.length_singleton]
  decide

/-- The frame itself is a good one. -/
theorem ack_is_got (l : Locals) (hstart : l.start = 0) (p : packet_t) {b : buffer_t}
    {t : Tape UInt8} (hb : Holds b t) (ht : t.size = 500) {h : UInt8}
    (hframe : t.ahead = (Sent.acknowledgement h).bytes) :
    ∃ b', busmail_get l p b = some (0, p.carry [h] (one_byte_fits h), b') := by
  have hget := busmail_get.spec l hstart 500 (by decide) (by decide) p b t hb ht
  have hparse : format.parse t.ahead = .frame [h] [] := by
    have := format.parse_encode [h] [] (by simp [format])
    rw [List.append_nil] at this
    rw [hframe]
    exact this
  simp only [getTape, hparse, List.length_singleton] at hget
  rw [dif_pos (by decide)] at hget
  obtain ⟨b', hget, -⟩ := hget
  exact ⟨b', hget⟩

/-! ## What holds of the acknowledgements -/

/-- The acknowledgements that were sent, and the one that would be sent now. -/
structure Mistyped (s : Session) : Prop where
  rx_seq_l : s.rx_seq_l.toNat ≤ 8
  acks : ∀ h, .acknowledgement h ∈ s.tty → h &&& PACKET_TYPE_MASK = INFORMATION_FRAME

theorem Mistyped.tx {s : Session} (h : Mistyped s) (data : List UInt8) (pf task_id : UInt8) :
    Mistyped (busmail_tx s data pf task_id) :=
  ⟨h.rx_seq_l, fun hd hmem => h.acks hd (by simpa [busmail_tx] using hmem)⟩

theorem Mistyped.emits {s s' : Session} (h : Mistyped s) (hs : Emits s s') : Mistyped s' := by
  cases hs with
  | fifo tx_fifo => exact ⟨h.rx_seq_l, h.acks⟩
  | tx data task_id => exact h.tx data PF task_id
  | ack =>
    refine ⟨h.rx_seq_l, fun hd hmem => ?_⟩
    rcases List.mem_append.mp hmem with hmem | hmem
    · exact h.acks hd hmem
    · cases List.mem_singleton.mp hmem
      exact ack_header_type h.rx_seq_l

theorem Mistyped.handles {s s' : Session} {p : packet_t} (h : Mistyped s) (hs : Handles s p s') :
    Mistyped s' := by
  cases hs with
  | accepted hp hemits =>
    have hlt := txSeq_lt p
    have hstart : Mistyped (accept s (p.byte 0)) := by
      refine ⟨?_, h.acks⟩
      rw [accept_rx_seq_l]
      unfold txSeq at hlt
      split <;> omega
    induction hemits with
    | refl => exact hstart
    | tail _ hlast ih => exact ih.emits hlast
  | reset hp => exact ⟨by simp, fun hd hmem => h.acks hd (by simpa using hmem)⟩
  | supervisory hp => exact ⟨h.rx_seq_l, h.acks⟩
  | nothing hp => exact h

theorem mistyped_init : Mistyped busmail_init := ⟨by decide, by simp [busmail_init]⟩

/-! ## Two ends -/

variable {κ : Type}

/-- Two ends of a link, and how many frames each has taken from the tty of the other. -/
structure Pair (κ : Type) where
  link : Bool → Link κ
  taken : Bool → Nat

def pairInit (app : Bool → κ) : Pair κ := ⟨fun i => ⟨busmail_init, app i⟩, fun _ => 0⟩

/-- The next frame for an end. -/
def Pair.next (s : Pair κ) (i : Bool) : Option Sent := (s.link !i).session.tty[s.taken i]?

/-- What the ends do. -/
inductive Move
  /-- The end dispatches its next frame, over the bytes that a packet held before. -/
  | deliver (i : Bool) (stale : packet_t)
  /-- The end sends a mail of its own accord. -/
  | tx (i : Bool) (data : List UInt8) (pf task_id : UInt8)

/-- One move, and the frame that was delivered in it. -/
def pairStep (application_frame : Bool → Callback κ) (s : Pair κ) :
    Move → Option (Pair κ × Option Sent)
  | .deliver i stale =>
    match s.next i with
    | none => none
    | some f =>
      if h : f.data.length ≤ PACKET_SIZE then
        match busmail_dispatch (application_frame i) (s.link i) (stale.carry f.data h) with
        | .running l =>
          some (⟨Function.update s.link i l, Function.update s.taken i (s.taken i + 1)⟩, some f)
        | _ => none
      else none
  | .tx i data pf task_id =>
    let l := s.link i
    some (⟨Function.update s.link i { l with session := busmail_tx l.session data pf task_id },
      s.taken⟩, none)

theorem update_mistyped {s : Pair κ} (hs : ∀ i, Mistyped (s.link i).session) {i : Bool} {l : Link κ}
    (hl : Mistyped l.session) : ∀ j, Mistyped (Function.update s.link i l j).session := by
  intro j
  by_cases hj : j = i
  · subst hj
    rw [Function.update_self]
    exact hl
  · rw [Function.update_of_ne hj]
    exact hs j

theorem pairStep_mistyped (application_frame : Bool → Callback κ) (s : Pair κ) (move : Move)
    (s' : Pair κ) (o : Option Sent) (hs : ∀ i, Mistyped (s.link i).session)
    (hstep : pairStep application_frame s move = some (s', o)) :
    ∀ i, Mistyped (s'.link i).session := by
  cases move with
  | deliver i stale =>
    simp only [pairStep] at hstep
    split at hstep
    · cases hstep
    · split at hstep
      · split at hstep
        · rename_i l hd
          cases hstep
          exact update_mistyped hs ((hs i).handles (dispatch_handles (by rw [hd]; rfl)))
        · cases hstep
      · cases hstep
  | tx i data pf task_id =>
    cases hstep
    exact update_mistyped hs ((hs i).tx data pf task_id)

/-- In every run the acknowledgements on both ttys look like information frames. -/
theorem pair_mistyped (application_frame : Bool → Callback κ) (app : Bool → κ) (moves : List Move)
    (s : Pair κ) (fs : List (Option Sent))
    (h : run (pairStep application_frame) (pairInit app) moves = some (s, fs)) :
    ∀ i, Mistyped (s.link i).session :=
  run_invariant (pairStep_mistyped application_frame) moves _ s fs (fun _ => mistyped_init) h

/-! ## The law -/

theorem dispatch_information {application_frame : Callback κ} {s : Link κ} {p : packet_t}
    (h : p.byte 0 &&& PACKET_TYPE_MASK = INFORMATION_FRAME) :
    busmail_dispatch application_frame s p = information_frame application_frame s p := if_pos h

/-- The frame of an acknowledgement is a good one. But in no state of a session is it a supervisory
frame, and between two ends each acknowledgement is handled as an information frame. Where the byte
that lies behind it in the packet is the program id, it is answered. -/
theorem no_acknowledgement_is_supervisory (application_frame : Bool → Callback κ)
    (app : Bool → κ) :
    (∀ l p b t h, l.start = 0 → Holds b t → t.size = 500 →
      t.ahead = (Sent.acknowledgement h).bytes →
      ∃ b', busmail_get l p b = some (0, p.carry [h] (one_byte_fits h), b')) ∧
    (∀ i ps s, (linkRun (application_frame i) ⟨busmail_init, app i⟩ ps).last = some s →
      ¬ IsSupervisory (make_supervisory_frame s.session SUID_RR NO_PF) s.session.rx_seq_l) ∧
    ∀ moves s fs, run (pairStep application_frame) (pairInit app) moves = some (s, fs) →
      ∀ i h, s.next i = some (.acknowledgement h) → ∀ stale : packet_t,
        busmail_dispatch (application_frame i) (s.link i)
            (stale.carry [h] (one_byte_fits h)) =
          information_frame (application_frame i) (s.link i)
            (stale.carry [h] (one_byte_fits h)) ∧
        (stale.byte 1 = API_PROG_ID → ∀ l, busmail_dispatch (application_frame i) (s.link i)
            (stale.carry [h] (one_byte_fits h)) = .running l →
          (s.link i).session.tty.length < l.session.tty.length) := by
  refine ⟨fun l p b t h hstart hb ht hframe => ack_is_got l hstart p hb ht hframe, ?_, ?_⟩
  · intro i ps s hrun
    have hs : Mistyped s.session := linkRun_invariant (fun _ _ _ hs hh => hs.handles hh)
      (application_frame i) ps mistyped_init hrun
    exact not_isSupervisory (ack_header_type hs.rx_seq_l)
  · intro moves s fs hrun i h hnext stale
    have hs := pair_mistyped application_frame app moves s fs hrun (!i)
    have htype := hs.acks h (List.mem_of_getElem? hnext)
    have hbyte : (stale.carry [h] (one_byte_fits h)).byte 0 = h :=
      carry_byte stale [h] _ (by simp)
    rw [← hbyte] at htype
    refine ⟨dispatch_information htype, fun hstale l hd => accepted_is_answered ⟨htype, ?_⟩ hd⟩
    exact (carry_byte_stale stale [h] _ (by simp)).trans hstale

/-- One mail between two silent ends. Its acknowledgement is answered. -/
theorem no_acknowledgement_is_supervisory_after_one_mail :
    ∃ s fs l, run (pairStep fun _ => silent) (pairInit fun _ => ())
        [.tx true [1] PF API_TEST, .deliver false blank] = some (s, fs) ∧
      s.next true = some (.acknowledgement 0x01) ∧
      busmail_dispatch silent (s.link true) (blank.carry [0x01] (one_byte_fits 0x01)) =
        .running l ∧
      (s.link true).session.tty.length < l.session.tty.length := by
  refine ⟨_, _, _, rfl, rfl, rfl, ?_⟩
  exact ((no_acknowledgement_is_supervisory (fun _ => silent) fun _ => ()).2.2
    [.tx true [1] PF API_TEST, .deliver false blank] _ _ rfl true 0x01 rfl blank).2 rfl _ rfl

/-- Two silent ends. One mail is sent, and then they acknowledge the acknowledgements. -/
theorem acknowledgements_are_acknowledged :
    ¬ IsSupervisory (make_supervisory_frame busmail_init SUID_RR NO_PF) busmail_init.rx_seq_l ∧
    ∃ s, run (pairStep fun _ => silent) (pairInit fun _ => ())
      [.tx true [1] PF API_TEST, .deliver false blank, .deliver true blank, .deliver false blank] =
        some (s, [none, some (.information 0x08 API_TEST [1]), some (.acknowledgement 0x01),
          some (.acknowledgement 0x01)]) := by
  exact ⟨not_isSupervisory (by decide), _, rfl⟩

end dect_prog.busmail
