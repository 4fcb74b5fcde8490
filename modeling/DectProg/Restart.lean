-- What SAMB does to a session (busmail.c): the reset clears the counters only,
-- and the queue is empty between any two frames. So the link layer stands as in
-- a fresh process, and goes on as one.
import DectProg.Applications

open dect_prog.package

namespace dect_prog.busmail

variable {κ : Type}

/-! ## What was written before makes no difference -/

/-- The session of a process that wrote the frames `tty` before. -/
def Session.behind (tty : List Sent) (s : Session) : Session := { s with tty := tty ++ s.tty }

def Link.behind (tty : List Sent) (s : Link κ) : Link κ := ⟨s.session.behind tty, s.app⟩

variable (tty : List Sent)

@[simp] theorem behind_busmail_tx (s : Session) (data : List UInt8) (pf task_id : UInt8) :
    busmail_tx (s.behind tty) data pf task_id = (busmail_tx s data pf task_id).behind tty := by
  simp [busmail_tx, Session.behind, make_info_frame, List.append_assoc]

@[simp] theorem behind_busmail_ack (s : Session) :
    busmail_ack (s.behind tty) = (busmail_ack s).behind tty := by
  simp [busmail_ack, Session.behind, make_supervisory_frame, List.append_assoc]

theorem perform_behind (calls : List Call) :
    ∀ s : Session, perform (s.behind tty) calls = (perform s calls).map (Session.behind tty) := by
  induction calls with
  | nil => exact fun s => rfl
  | cons call calls ih =>
    intro s
    cases call with
    | busmail_send data => exact ih (busmail_send s data)
    | busmail_send0 data => exact ih (busmail_send0 s data)
    | busmail_ack =>
      simp only [perform, behind_busmail_ack]
      exact ih (busmail_ack s)
    | exit status => rfl

theorem transmit_behind (fifo : List tx_packet_t) :
    ∀ (s : Session) (ack : Bool), transmit fifo (s.behind tty) ack =
      (transmit fifo s ack).map fun r => (r.1.behind tty, r.2) := by
  induction fifo with
  | nil => exact fun s ack => rfl
  | cons tx fifo ih =>
    intro s ack
    simp only [transmit]
    by_cases hpos : 0 < tx.data.length
    · rw [if_pos hpos, if_pos hpos, ← ih]
      have hbehind : ({ s.behind tty with tx_fifo := fifo } : Session) =
          Session.behind tty { s with tx_fifo := fifo } := rfl
      rw [hbehind, behind_busmail_tx]
    · rw [if_neg hpos, if_neg hpos]
      rfl

theorem accept_behind (s : Session) (h : UInt8) :
    accept (s.behind tty) h = (accept s h).behind tty := rfl

theorem unnumbered_behind (s : Session) (p : packet_t) :
    unnumbered_control_frame (s.behind tty) p = (unnumbered_control_frame s p).behind tty := by
  unfold unnumbered_control_frame
  split
  · simp [Session.behind, List.append_assoc]
  · rfl

theorem information_frame_behind (application_frame : Callback κ) (s : Link κ) (p : packet_t) :
    information_frame application_frame (s.behind tty) p =
      (information_frame application_frame s p).map (Link.behind tty) := by
  unfold information_frame
  by_cases hp : p.byte 1 ≠ API_PROG_ID
  · rw [if_pos hp, if_pos hp]
    rfl
  · rw [if_neg hp, if_neg hp]
    have happ : (s.behind tty).app = s.app := rfl
    have hsession : (s.behind tty).session = s.session.behind tty := rfl
    rw [happ, hsession, accept_behind]
    generalize application_frame s.app p = r
    obtain ⟨app, calls⟩ := r
    dsimp only
    rw [perform_behind]
    cases perform (accept s.session (p.byte 0)) calls with
    | running session =>
      have hfifo : (session.behind tty).tx_fifo = session.tx_fifo := rfl
      simp only [Outcome.map, hfifo, transmit_behind]
      cases transmit session.tx_fifo session true with
      | running r =>
        dsimp only [Outcome.map]
        split
        · rw [behind_busmail_ack]
          rfl
        · rfl
      | exited status r => rfl
      | aborted r => rfl
      | undefined => rfl
    | exited status session => rfl
    | aborted session => rfl
    | undefined => rfl

/-- A dispatch does the same behind other frames. -/
theorem dispatch_behind (application_frame : Callback κ) (s : Link κ) (p : packet_t) :
    busmail_dispatch application_frame (s.behind tty) p =
      (busmail_dispatch application_frame s p).map (Link.behind tty) := by
  unfold busmail_dispatch
  split
  · exact information_frame_behind tty application_frame s p
  · split
    · split
      · have hsession : (s.behind tty).session = s.session.behind tty := rfl
        rw [hsession, unnumbered_behind]
        rfl
      · split
        · rfl
        · rfl
    · rfl

theorem linkRun_behind (application_frame : Callback κ) (ps : List packet_t) :
    ∀ s : Link κ, linkRun application_frame (s.behind tty) ps =
      (linkRun application_frame s ps).map (Link.behind tty) := by
  induction ps with
  | nil => exact fun s => rfl
  | cons p ps ih =>
    intro s
    simp only [linkRun, dispatch_behind]
    cases busmail_dispatch application_frame s p with
    | running s' => exact ih s'
    | exited status s' => rfl
    | aborted s' => rfl
    | undefined => rfl

/-! ## The law -/

/-- The dispatch of SAMB. -/
theorem dispatch_poll_set (application_frame : Callback κ) (s : Link κ) {p : packet_t}
    (hp : p.byte 0 = SAMB_POLL_SET) :
    busmail_dispatch application_frame s p = .running
      { s with session := { s.session with
          tx_seq_l := 0, rx_seq_l := 0, tx_seq_r := 0, rx_seq_r := 0
          tty := s.session.tty ++ [.unnumbered SAMB_NO_POLL_SET] } } := by
  unfold busmail_dispatch
  rw [hp, if_neg (by decide), if_pos (by decide), if_pos (by decide), unnumbered_control_frame,
    if_pos hp]

/-- After a frame SAMB_POLL_SET, in any run of the link layer with any callback, the counters and
the queue are those of `busmail_init`; and when the callback has no state of its own, or has it as
it was at the start, every continuation ends as that of a fresh session, and writes the same frames
behind those that were written before. -/
theorem a_poll_set_restarts_the_session (application_frame : Callback κ) (app : κ)
    (ps : List packet_t) (s : Link κ) (p : packet_t)
    (hrun : linkRun application_frame ⟨busmail_init, app⟩ ps = .running s)
    (hp : p.byte 0 = SAMB_POLL_SET) :
    ∃ s', busmail_dispatch application_frame s p = .running s' ∧ s'.app = s.app ∧
      s'.session =
        { busmail_init with tty := s.session.tty ++ [.unnumbered SAMB_NO_POLL_SET] } ∧
      (s.app = app → ∀ qs, linkRun application_frame s' qs =
        (linkRun application_frame ⟨busmail_init, app⟩ qs).map
          (Link.behind (s.session.tty ++ [.unnumbered SAMB_NO_POLL_SET]))) := by
  have hfifo : s.session.tx_fifo = [] := linkRun_tx_fifo application_frame ps rfl hrun
  have hreset : ({ s.session with
      tx_seq_l := 0, rx_seq_l := 0, tx_seq_r := 0, rx_seq_r := 0
      tty := s.session.tty ++ [.unnumbered SAMB_NO_POLL_SET] } : Session) =
        { busmail_init with tty := s.session.tty ++ [.unnumbered SAMB_NO_POLL_SET] } := by
    simp only [hfifo, busmail_init]
  refine ⟨_, dispatch_poll_set application_frame s hp, rfl, hreset, fun happ qs => ?_⟩
  rw [hreset, happ, ← linkRun_behind]
  simp [Link.behind, Session.behind, busmail_init]

/-- A callback that answers every frame with the same mail, after one frame. -/
theorem a_poll_set_restarts_the_session_after_one_mail :
    ∃ s s' : Link Unit,
      linkRun (fun _ _ => ((), [.busmail_send [7]])) ⟨busmail_init, ()⟩ [blank] = .running s ∧
      busmail_dispatch (fun _ _ => ((), [.busmail_send [7]])) s
        (blank.carry [SAMB_POLL_SET] (by decide)) = .running s' ∧
      ∀ qs, linkRun (fun _ _ => ((), [.busmail_send [7]])) s' qs =
        (linkRun (fun _ _ => ((), [.busmail_send [7]])) ⟨busmail_init, ()⟩ qs).map
          (Link.behind (s.session.tty ++ [.unnumbered SAMB_NO_POLL_SET])) := by
  have hrun : ∃ s : Link Unit, linkRun (fun _ _ => ((), [.busmail_send [7]])) ⟨busmail_init, ()⟩
      [blank] = .running s := ⟨_, rfl⟩
  obtain ⟨s, hrun⟩ := hrun
  obtain ⟨s', hd, -, -, hfresh⟩ := a_poll_set_restarts_the_session _ () [blank] s
    (blank.carry [SAMB_POLL_SET] (by decide)) hrun rfl
  exact ⟨s, s', hrun, hd, hfresh rfl⟩

end dect_prog.busmail
