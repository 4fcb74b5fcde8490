-- What one received frame can do to the link layer, and what holds over a run
-- of frames.
import DectProg.Session

open dect_prog.package Relation

namespace dect_prog.busmail

/-- What follows the counters of an accepted frame, call by call: the queue changes, a mail is
sent, or a frame is acknowledged. -/
inductive Emits : Session → Session → Prop
  | fifo (s : Session) (tx_fifo : List tx_packet_t) : Emits s { s with tx_fifo }
  | tx (s : Session) (data : List UInt8) (task_id : UInt8) : Emits s (busmail_tx s data PF task_id)
  | ack (s : Session) : Emits s (busmail_ack s)

theorem perform_emits (calls : List Call) :
    ∀ {s s' : Session}, (perform s calls).last = some s' → ReflTransGen Emits s s' := by
  induction calls with
  | nil =>
    intro s s' h
    cases h
    exact .refl
  | cons call calls ih =>
    intro s s' h
    cases call with
    | busmail_send data => exact .head (.fifo s _) (ih h)
    | busmail_send0 data => exact .head (.fifo s _) (ih h)
    | busmail_ack => exact .head (.ack s) (ih h)
    | exit status =>
      cases h
      exact .refl

theorem transmit_emits (fifo : List tx_packet_t) :
    ∀ {s : Session} {ack : Bool} {r : Session × Bool}, (transmit fifo s ack).last = some r →
      ReflTransGen Emits s r.1 := by
  induction fifo with
  | nil =>
    intro s ack r h
    cases h
    exact .single (.fifo s [])
  | cons tx fifo ih =>
    intro s ack r h
    simp only [transmit] at h
    split at h
    · exact .head (.fifo s fifo) (.head (.tx _ _ _) (ih h))
    · cases h
      exact .single (.fifo s fifo)

/-- An information frame for the application. -/
def Accepted (p : packet_t) : Prop :=
  p.byte 0 &&& PACKET_TYPE_MASK = INFORMATION_FRAME ∧ p.byte 1 = API_PROG_ID

/-- What a received frame does to the session. -/
inductive Handles (s : Session) (p : packet_t) : Session → Prop
  | accepted {s' : Session} (hp : Accepted p) (h : ReflTransGen Emits (accept s (p.byte 0)) s') :
      Handles s p s'
  | reset (hp : p.byte 0 = SAMB_POLL_SET) :
      Handles s p { s with tx_seq_l := 0, rx_seq_l := 0, tx_seq_r := 0, rx_seq_r := 0
                           tty := s.tty ++ [.unnumbered SAMB_NO_POLL_SET] }
  | supervisory (hp : p.byte 0 &&& PACKET_TYPE_MASK = CONTROL_FRAME) :
      Handles s p (supervisory_control_frame s p)
  | nothing (hp : ¬ Accepted p) : Handles s p s

variable {κ : Type}

theorem information_frame_last {application_frame : Callback κ} {s s' : Link κ} {p : packet_t}
    (hp : p.byte 1 = API_PROG_ID) (h : (information_frame application_frame s p).last = some s') :
    ReflTransGen Emits (accept s.session (p.byte 0)) s'.session := by
  rw [information_frame, if_neg (not_not.mpr hp)] at h
  generalize application_frame s.app p = r at h
  obtain ⟨app, calls⟩ := r
  dsimp only at h
  cases hperform : perform (accept s.session (p.byte 0)) calls with
  | running session =>
    rw [hperform] at h
    have hemits : ReflTransGen Emits _ session := perform_emits calls (by rw [hperform]; rfl)
    dsimp only at h
    cases htransmit : transmit session.tx_fifo session true with
    | running r =>
      have htail := transmit_emits session.tx_fifo (r := r) (by rw [htransmit]; rfl)
      rw [htransmit] at h
      cases h
      dsimp only
      split
      · exact (hemits.trans htail).tail (.ack _)
      · exact hemits.trans htail
    | exited status r =>
      have htail := transmit_emits session.tx_fifo (r := r) (by rw [htransmit]; rfl)
      rw [htransmit] at h
      cases h
      exact hemits.trans htail
    | aborted r =>
      have htail := transmit_emits session.tx_fifo (r := r) (by rw [htransmit]; rfl)
      rw [htransmit] at h
      cases h
      exact hemits.trans htail
    | undefined =>
      rw [htransmit] at h
      cases h
  | exited status session =>
    rw [hperform] at h
    cases h
    exact perform_emits calls (by rw [hperform]; rfl)
  | aborted session =>
    rw [hperform] at h
    cases h
    exact perform_emits calls (by rw [hperform]; rfl)
  | undefined =>
    rw [hperform] at h
    cases h

/-- An information frame after which the process lives: what the application asked for is done, and
then the queue is sent, or the frame is acknowledged alone. -/
theorem information_frame_running {application_frame : Callback κ} {s s' : Link κ} {p : packet_t}
    (hp : p.byte 1 = API_PROG_ID) (h : information_frame application_frame s p = .running s') :
    ∃ session session' ack,
      perform (accept s.session (p.byte 0)) (application_frame s.app p).2 = .running session ∧
      transmit session.tx_fifo session true = .running (session', ack) ∧
      s'.session = if ack then busmail_ack session' else session' := by
  rw [information_frame, if_neg (not_not.mpr hp)] at h
  dsimp only at h
  split at h
  · rename_i session hperform
    split at h
    · rename_i session' ack htransmit
      cases h
      exact ⟨session, session', ack, hperform, htransmit, rfl⟩
    · cases h
    · cases h
    · cases h
  · cases h
  · cases h
  · cases h

/-- Also a dispatch in which the process ends did one of these things. -/
theorem dispatch_handles {application_frame : Callback κ} {s s' : Link κ} {p : packet_t}
    (h : (busmail_dispatch application_frame s p).last = some s') :
    Handles s.session p s'.session := by
  unfold busmail_dispatch at h
  split at h
  · rename_i htype
    by_cases hp : p.byte 1 = API_PROG_ID
    · exact .accepted ⟨htype, hp⟩ (information_frame_last hp h)
    · rw [information_frame, if_pos hp] at h
      cases h
      exact .nothing fun hacc => hp hacc.2
  · rename_i htype
    have hnot : ¬ Accepted p := fun hacc => htype hacc.1
    split at h
    · rename_i hcontrol
      split at h
      · cases h
        dsimp only [unnumbered_control_frame]
        split
        · exact .reset (by assumption)
        · exact .nothing hnot
      · split at h
        · cases h
          exact .supervisory hcontrol
        · cases h
          exact .nothing hnot
    · cases h
      exact .nothing hnot

/-! ## Runs -/

/-- One frame after the other, as long as the process lives. -/
def linkRun (application_frame : Callback κ) : Link κ → List packet_t → Outcome (Link κ)
  | s, [] => .running s
  | s, p :: ps =>
    match busmail_dispatch application_frame s p with
    | .running s => linkRun application_frame s ps
    | o => o

/-- A run after which the process lives, frame by frame. -/
theorem linkRun_cons {application_frame : Callback κ} {s s' : Link κ} {p : packet_t}
    {ps : List packet_t} (h : linkRun application_frame s (p :: ps) = .running s') :
    ∃ s1, busmail_dispatch application_frame s p = .running s1 ∧
      linkRun application_frame s1 ps = .running s' := by
  unfold linkRun at h
  split at h
  · rename_i s1 hd
    exact ⟨s1, hd, h⟩
  · rename_i hd
    exact absurd h (hd s')

/-- What each frame keeps, a run keeps, whatever the application does. -/
theorem linkRun_invariant {Inv : Session → Prop}
    (hstep : ∀ s p s', Inv s → Handles s p s' → Inv s') (application_frame : Callback κ)
    (ps : List packet_t) : ∀ {s s' : Link κ}, Inv s.session →
      (linkRun application_frame s ps).last = some s' → Inv s'.session := by
  induction ps with
  | nil =>
    intro s s' hs h
    cases h
    exact hs
  | cons p ps ih =>
    intro s s' hs h
    unfold linkRun at h
    split at h
    · rename_i s1 hd
      exact ih (hstep _ _ _ hs (dispatch_handles (by rw [hd]; rfl))) h
    · exact hstep _ _ _ hs (dispatch_handles h)

end dect_prog.busmail
