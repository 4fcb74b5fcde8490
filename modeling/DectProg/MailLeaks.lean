-- The blocks that busmail.c leaves behind. The head of its queue stays, and of each
-- mail that it ever sent the array of its bytes; when the process ends in a
-- callback, the mails in the queue are left with their nodes and packets.
import DectProg.Linked

open blocks dect_prog.fifo_heap
open dect_prog.package hiding load

namespace dect_prog.busmail.linked

/-- The blocks that were asked for and not given back: the head of the queue, its nodes, and the
packets and arrays. -/
def blocksInUse (v : Variables) : Nat := 1 + nodes v.tx_fifo + live v.heap

variable {κ : Type}

/-! ## Nothing is undefined -/

theorem perform_defined (calls : List Call) : ∀ s : Session, busmail.perform s calls ≠ .undefined := by
  induction calls with
  | nil => simp [busmail.perform]
  | cons call calls ih =>
    intro s
    cases call with
    | busmail_send data => exact ih _
    | busmail_send0 data => exact ih _
    | busmail_ack => exact ih _
    | exit status => simp [busmail.perform]

theorem transmit_defined (fifo : List busmail.tx_packet_t) :
    ∀ (s : Session) (ack : Bool), busmail.transmit fifo s ack ≠ .undefined := by
  induction fifo with
  | nil => simp [busmail.transmit]
  | cons tx fifo ih =>
    intro s ack
    unfold busmail.transmit
    dsimp only
    split
    · exact ih _ _
    · simp

theorem dispatch_defined (application_frame : Callback κ) (s : Link κ) (p : packet_t) :
    busmail.busmail_dispatch application_frame s p ≠ .undefined := by
  by_cases hacc : Accepted p
  · unfold busmail.busmail_dispatch busmail.information_frame
    rw [if_pos hacc.1, if_neg (not_not.mpr hacc.2)]
    dsimp only
    have hperform := perform_defined (application_frame s.app p).2
      (busmail.accept s.session (p.byte 0))
    cases h : busmail.perform (busmail.accept s.session (p.byte 0)) (application_frame s.app p).2 with
    | running session =>
      have htransmit := transmit_defined session.tx_fifo session true
      cases h' : busmail.transmit session.tx_fifo session true with
      | undefined => exact absurd h' htransmit
      | running | exited | aborted => simp [h']
    | undefined => exact absurd h hperform
    | exited | aborted => simp
  · obtain ⟨s', hd⟩ := dispatch_unaccepted application_frame s hacc
    rw [hd]
    simp

theorem linkRun_defined (application_frame : Callback κ) (ps : List packet_t) :
    ∀ s : Link κ, linkRun application_frame s ps ≠ .undefined := by
  induction ps with
  | nil => simp [linkRun]
  | cons p ps ih =>
    intro s
    have hd := dispatch_defined application_frame s p
    unfold linkRun
    cases h : busmail.busmail_dispatch application_frame s p with
    | running s' => exact ih s'
    | undefined => exact absurd h hd
    | exited | aborted => simp

/-! ## The law -/

theorem Accounts.blocksInUse {v : Variables} {s : Session} (h : Accounts v s) :
    linked.blocksInUse v = 1 + mailsSent s.tty + 3 * s.tx_fifo.length := by
  obtain ⟨ps, hrep, howns, -⟩ := h.queue
  rw [linked.blocksInUse, hrep.nodes, howns.length_eq, h.live]
  omega

/-- Whatever is received, and whatever the callback calls: every pointer that the module follows
leads to a block that was not given back, and what it does is what the link layer does. Whenever it
waits for a frame, the blocks that are left are the head of its queue and one for each mail that it
ever sent; and when the process exits there are three more for each mail that still waits: its node,
its packet and its array. -/
theorem each_mail_leaves_one_block (application_frame : Callback κ) (app : κ)
    (ps : List packet_t) :
    (∃ v s, processRun application_frame ⟨busmail_init, app⟩ ps = .running v ∧
      linkRun application_frame ⟨busmail.busmail_init, app⟩ ps = .running s ∧
      ProcessRefines v s ∧ blocksInUse v.vars = 1 + mailsSent s.session.tty) ∨
    (∃ status v s, processRun application_frame ⟨busmail_init, app⟩ ps = .exited status v ∧
      linkRun application_frame ⟨busmail.busmail_init, app⟩ ps = .exited status s ∧
      ProcessRefines v s ∧
      blocksInUse v.vars = 1 + mailsSent s.session.tty + 3 * s.session.tx_fifo.length) ∨
    ∃ v s, processRun application_frame ⟨busmail_init, app⟩ ps = .aborted v ∧
      linkRun application_frame ⟨busmail.busmail_init, app⟩ ps = .aborted s ∧
      ProcessRefines v s := by
  have hinit : ProcessAccounts (⟨busmail_init, app⟩ : Process κ) ⟨busmail.busmail_init, app⟩ :=
    ⟨busmail_init_accounts, rfl⟩
  have hrefines := processRun_accounts application_frame ps hinit
  have hdefined := linkRun_defined application_frame ps ⟨busmail.busmail_init, app⟩
  cases hrun : linkRun application_frame ⟨busmail.busmail_init, app⟩ ps with
  | running s =>
    have hfifo := linkRun_tx_fifo application_frame ps rfl hrun
    rw [hrun] at hrefines
    obtain ⟨v, hproc, hv⟩ := hrefines.to_running
    have hblocks := hv.1.blocksInUse
    rw [hfifo] at hblocks
    exact .inl ⟨v, s, hproc, rfl, hv.refines, hblocks⟩
  | exited status s =>
    rw [hrun] at hrefines
    obtain ⟨v, hproc, hv⟩ := hrefines.to_exited
    exact .inr (.inl ⟨status, v, s, hproc, rfl, hv.refines, hv.1.blocksInUse⟩)
  | aborted s =>
    rw [hrun] at hrefines
    obtain ⟨v, hproc, hv⟩ := hrefines.to_aborted
    exact .inr (.inr ⟨v, s, hproc, rfl, hv⟩)
  | undefined => exact absurd hrun hdefined

/-- Three frames that are each answered with a mail. -/
example : (processRun (fun app _ => (app, [.busmail_send [1]])) ⟨busmail_init, ()⟩
    (List.replicate 3 blank)).map (fun v => blocksInUse v.vars) = .running 4 := rfl

end dect_prog.busmail.linked
