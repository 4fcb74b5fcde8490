-- busmail.c with its memory does what the link layer over a list of mails does,
-- frame by frame, and so each information frame is answered by the mails that its
-- callback enqueued, or else by an acknowledgement.
import DectProg.Applications
import DectProg.MailMemory

open blocks framing dect_prog.fifo_heap
open dect_prog.package hiding load

namespace dect_prog.busmail.linked

/-! ## The relation -/

/-- The number of mails among the frames that were written. -/
def mailsSent (tty : List Sent) : Nat :=
  tty.countP fun f => match f with
    | .information _ _ _ => true
    | .acknowledgement _ => false
    | .unnumbered _ => false

/-- The queue leads to the mails, and the bytes are those of the frames. -/
structure Refines (v : Variables) (s : Session) : Prop where
  queue : ∃ ps, Once v.tx_fifo ps ∧ Queue v.heap ps s.tx_fifo
  tx_seq_l : v.tx_seq_l = s.tx_seq_l
  rx_seq_l : v.rx_seq_l = s.rx_seq_l
  tx_seq_r : v.tx_seq_r = s.tx_seq_r
  rx_seq_r : v.rx_seq_r = s.rx_seq_r
  tty : v.tty = s.tty.flatMap Sent.bytes

/-- And a mail that was sent has left one block, and one that waits has two. -/
structure Accounts (v : Variables) (s : Session) : Prop extends Refines v s where
  live : live v.heap = mailsSent s.tty + 2 * s.tx_fifo.length

variable {κ : Type}

def ProcessRefines (v : Process κ) (s : Link κ) : Prop := Refines v.vars s.session ∧ v.app = s.app

def ProcessAccounts (v : Process κ) (s : Link κ) : Prop :=
  Accounts v.vars s.session ∧ v.app = s.app

/-- Ends of the same kind, where those of a process that aborts are related by `A`. -/
def SameEnd {α β : Type} (R A : α → β → Prop) : Outcome α → Outcome β → Prop
  | .aborted a, .aborted b => A a b
  | o, o' => Outcome.Rel R o o'

theorem SameEnd.rel {α β : Type} {R A Q : α → β → Prop} (hR : ∀ a b, R a b → Q a b)
    (hA : ∀ a b, A a b → Q a b) {o : Outcome α} {o' : Outcome β} (h : SameEnd R A o o') :
    Outcome.Rel Q o o' := by
  cases o with
  | running a =>
    obtain ⟨b, rfl, hab⟩ := Outcome.Rel.of_running h
    exact hR a b hab
  | exited status a =>
    cases o' with
    | exited status' b => exact ⟨h.1, hR a b h.2⟩
    | running | aborted | undefined => exact h.elim
  | aborted a =>
    cases o' with
    | aborted b => exact hA a b h
    | running | exited | undefined => exact h.elim
  | undefined =>
    cases o' with
    | undefined => trivial
    | running | exited | aborted => exact h.elim

section same_end

variable {α β : Type} {R A : α → β → Prop} {o : Outcome α} {b : β}

theorem SameEnd.to_running (h : SameEnd R A o (.running b)) : ∃ a, o = .running a ∧ R a b := by
  cases o with
  | running a => exact ⟨a, rfl, h⟩
  | exited | aborted | undefined => exact h.elim

theorem SameEnd.to_exited {status : Int} (h : SameEnd R A o (.exited status b)) :
    ∃ a, o = .exited status a ∧ R a b := by
  cases o with
  | exited status' a =>
    obtain ⟨rfl, hab⟩ := h
    exact ⟨a, rfl, hab⟩
  | running | aborted | undefined => exact h.elim

theorem SameEnd.to_aborted (h : SameEnd R A o (.aborted b)) : ∃ a, o = .aborted a ∧ A a b := by
  cases o with
  | aborted a => exact ⟨a, rfl, h⟩
  | running | exited | undefined => exact h.elim

theorem SameEnd.to_undefined (h : SameEnd R A o (.undefined : Outcome β)) : o = .undefined := by
  cases o with
  | undefined => rfl
  | running | exited | aborted => exact h.elim

end same_end

/-! ## One call -/

variable {v : Variables} {s : Session} {p : Nat} {ps : List Nat} {tx : busmail.tx_packet_t}

theorem busmail_init_accounts : Accounts busmail_init busmail.busmail_init :=
  ⟨⟨⟨[], fifo_new.once, .nil, .nil⟩, rfl, rfl, rfl, rfl, rfl⟩, rfl⟩

theorem make_info_frame_eq (h : Refines v s) (pf : UInt8) :
    make_info_frame v pf = busmail.make_info_frame s pf := by
  unfold make_info_frame
  rw [busmail.make_info_frame, h.tx_seq_l, h.rx_seq_l]

theorem make_supervisory_frame_eq (h : Refines v s) (suid pf : UInt8) :
    make_supervisory_frame v suid pf = busmail.make_supervisory_frame s suid pf := by
  unfold make_supervisory_frame
  rw [busmail.make_supervisory_frame, h.rx_seq_l]

theorem send_accounts (h : Accounts v s) (data : List UInt8) (task_id : UInt8) :
    ∃ v', send v data task_id = some v' ∧
      Accounts v' { s with tx_fifo := s.tx_fifo ++ [⟨data, task_id⟩] } := by
  obtain ⟨ps, hrep, hqueue⟩ := h.queue
  obtain ⟨heap, tx_fifo, p, hsend, hrep', hfresh, hkeeps, howns, hlive⟩ :=
    send.spec hrep data task_id
  refine ⟨_, hsend, ⟨⟨ps ++ [p], hrep', hqueue.concat hkeeps hfresh howns⟩, h.tx_seq_l,
    h.rx_seq_l, h.tx_seq_r, h.rx_seq_r, h.tty⟩, ?_⟩
  dsimp only
  rw [hlive, h.live, List.length_append, List.length_singleton]
  omega

/-- A frame that is no mail leaves the memory as it was. -/
theorem send_packet_accounts (h : Accounts v s) {data : List UInt8} {f : Sent}
    (hbytes : f.bytes = make_tx_packet data) (hmails : mailsSent [f] = 0) :
    ∃ v', send_packet v data = some v' ∧ Accounts v' { s with tty := s.tty ++ [f] } := by
  obtain ⟨ps, hrep, hqueue⟩ := h.queue
  obtain ⟨heap, hsend, hkeeps, hlive⟩ := send_packet.spec v data
  refine ⟨_, hsend, ⟨⟨ps, hrep, hqueue.keeps hkeeps⟩, h.tx_seq_l, h.rx_seq_l, h.tx_seq_r,
    h.rx_seq_r, ?_⟩, ?_⟩
  · dsimp only
    rw [h.tty, List.flatMap_append, List.flatMap_singleton, hbytes]
  · have happend : mailsSent (s.tty ++ [f]) = mailsSent s.tty + mailsSent [f] :=
      List.countP_append
    dsimp only
    rw [hlive, happend, hmails]
    exact h.live

theorem busmail_ack_accounts (h : Accounts v s) :
    ∃ v', busmail_ack v = some v' ∧ Accounts v' (busmail.busmail_ack s) := by
  unfold busmail_ack
  rw [make_supervisory_frame_eq h.toRefines]
  exact send_packet_accounts h rfl rfl

/-- The mail in front is sent, and its packet is given back. -/
theorem transmitPacket_accounts {tx_fifo : fifo_head_t Nat Nat} {fifo : List busmail.tx_packet_t}
    (h : Accounts v s) (hfifo : s.tx_fifo = tx :: fifo) (hrep : Once tx_fifo ps)
    (hqueue : Queue v.heap (p :: ps) (tx :: fifo)) :
    ∃ data v', load v.heap p = some (.tx_packet ⟨some data, tx.data.length, tx.task_id⟩) ∧
      transmitPacket { v with tx_fifo } p ⟨some data, tx.data.length, tx.task_id⟩ data = some v' ∧
      Accounts v' (busmail.busmail_tx { s with tx_fifo := fifo } tx.data PF tx.task_id) := by
  obtain ⟨howns, hnodup⟩ := hqueue
  obtain ⟨hnot, hnodup⟩ := List.nodup_cons.mp hnodup
  cases howns with
  | cons hfirst hrest =>
    obtain ⟨data, hp, hdata⟩ := hfirst
    obtain ⟨m1, htx, hkeeps, hlive⟩ := busmail_tx.spec (v := { v with tx_fifo }) hdata PF tx.task_id
    have hp1 := hkeeps _ _ hp
    obtain ⟨m2, hfree⟩ := exists_free hp1
    have hlive2 := live_free hfree
    have hrest1 : List.Forall₂ (Owns m1) ps fifo := hrest.imp fun _ _ howns => howns.keeps hkeeps
    have hheader : make_info_frame { v with tx_fifo } PF =
        busmail.make_info_frame { s with tx_fifo := fifo } PF := make_info_frame_eq h.toRefines PF
    generalize hframe : make_tx_packet (make_info_frame { v with tx_fifo } PF :: API_PROG_ID ::
      tx.task_id :: tx.data) = frame at htx
    refine ⟨data, { v with
        tx_fifo, heap := m2, tx_seq_l := v.tx_seq_l + 1, tty := v.tty ++ frame },
      hp, ?_, ⟨⟨ps, hrep, owns_free hrest1 hp1 hnot hfree, hnodup⟩, ?_, h.rx_seq_l, h.tx_seq_r,
      h.rx_seq_r, ?_⟩, ?_⟩
    · unfold transmitPacket
      simp only [htx, hfree, Option.bind_eq_bind, Option.bind_some]
    · show v.tx_seq_l + 1 = s.tx_seq_l + 1
      rw [h.tx_seq_l]
    · dsimp only [busmail.busmail_tx]
      rw [← hframe, hheader, h.tty, List.flatMap_append, List.flatMap_singleton]
      rfl
    · -- One mail more was sent, and one less waits.
      have hold := h.live
      have hsent : mailsSent (s.tty ++ [.information
          (busmail.make_info_frame { s with tx_fifo := fifo } PF) tx.task_id tx.data]) =
            mailsSent s.tty + 1 := List.countP_append
      rw [hfifo, List.length_cons] at hold
      dsimp only [busmail.busmail_tx] at *
      rw [hsent]
      omega

/-! ## It does what the link layer over a list does -/

theorem perform_accounts (calls : List Call) :
    ∀ {v : Variables} {s : Session}, Accounts v s →
      SameEnd Accounts Refines (perform v calls) (busmail.perform s calls) := by
  induction calls with
  | nil => exact fun h => h
  | cons call calls ih =>
    intro v s h
    cases call with
    | busmail_send data =>
      obtain ⟨v', hsend, h'⟩ := send_accounts h data API_TEST
      simp only [perform, busmail_send, hsend]
      exact ih h'
    | busmail_send0 data =>
      obtain ⟨v', hsend, h'⟩ := send_accounts h data 0
      simp only [perform, busmail_send0, hsend]
      exact ih h'
    | busmail_ack =>
      obtain ⟨v', hack, h'⟩ := busmail_ack_accounts h
      simp only [perform, hack]
      exact ih h'
    | exit status => exact ⟨rfl, h⟩

/-- The loop takes one mail after the other from the queue, and ends. -/
theorem transmit_accounts (fifo : List busmail.tx_packet_t) :
    ∀ {v : Variables} {s : Session} (fuel : Nat) (ack : Bool), Accounts v s → s.tx_fifo = fifo →
      fifo.length < fuel →
      SameEnd (fun r r' => Accounts r.1 r'.1 ∧ r.2 = r'.2) (fun r r' => Refines r.1 r'.1)
        (transmit fuel v ack) (busmail.transmit fifo s ack) := by
  induction fifo with
  | nil =>
    intro v s fuel ack h hfifo hfuel
    obtain ⟨fuel, rfl⟩ : ∃ n, fuel = n + 1 := ⟨fuel - 1, by omega⟩
    obtain ⟨ps, hrep, howns, hnodup⟩ := h.queue
    have hlen := howns.length_eq
    have hcount := hrep.count
    rw [hlen, hfifo] at hcount
    simp only [transmit, busmail.transmit]
    rw [if_neg (by rw [hcount]; decide), ← hfifo]
    exact ⟨h, rfl⟩
  | cons tx fifo ih =>
    intro v s fuel ack h hfifo hfuel
    obtain ⟨fuel, rfl⟩ : ∃ n, fuel = n + 1 := ⟨fuel - 1, by omega⟩
    obtain ⟨ps, hrep, hqueue⟩ := h.queue
    rw [hfifo] at hqueue
    cases ps with
    | nil => cases hqueue.owns
    | cons p ps =>
      have hcount := hrep.count
      obtain ⟨tx_fifo, hget, hrep'⟩ := fifo_get.once hrep
      obtain ⟨data, v', hload, hsend, h'⟩ := transmitPacket_accounts h hfifo hrep' hqueue
      simp only [transmit, busmail.transmit]
      rw [if_pos (by rw [hcount, List.length_cons]; omega)]
      simp only [hget, hload]
      by_cases hpos : 0 < tx.data.length
      · rw [if_pos hpos, if_pos hpos, hsend]
        exact ih fuel false h' rfl (by simpa using hfuel)
      · -- The packet that the assertion is about is in the queue no more.
        rw [if_neg hpos, if_neg hpos]
        exact ⟨⟨ps, hrep', hqueue.tail⟩, h.tx_seq_l, h.rx_seq_l, h.tx_seq_r, h.rx_seq_r, h.tty⟩

theorem accept_accounts (h : Accounts v s) (header : UInt8) :
    Accounts (accept v header) (busmail.accept s header) :=
  ⟨⟨h.queue, h.tx_seq_l, rfl, rfl, rfl, h.tty⟩, h.live⟩

theorem unnumbered_accounts (h : Accounts v s) (p : packet_t) :
    ∃ v', unnumbered_control_frame v p = some v' ∧
      Accounts v' (busmail.unnumbered_control_frame s p) := by
  unfold unnumbered_control_frame busmail.unnumbered_control_frame
  split
  · have hzero : Accounts { v with tx_seq_l := 0, rx_seq_l := 0, tx_seq_r := 0, rx_seq_r := 0 }
        { s with tx_seq_l := 0, rx_seq_l := 0, tx_seq_r := 0, rx_seq_r := 0 } :=
      ⟨⟨h.queue, rfl, rfl, rfl, rfl, h.tty⟩, h.live⟩
    exact send_packet_accounts hzero rfl rfl
  · exact ⟨v, rfl, h⟩

theorem information_frame_accounts (application_frame : Callback κ) {v : Process κ} {s : Link κ}
    (h : ProcessAccounts v s) (p : packet_t) :
    SameEnd ProcessAccounts ProcessRefines (information_frame application_frame v p)
      (busmail.information_frame application_frame s p) := by
  obtain ⟨h, happ⟩ := h
  unfold information_frame busmail.information_frame
  by_cases hp : p.byte 1 ≠ API_PROG_ID
  · rw [if_pos hp, if_pos hp]
    exact ⟨h, happ⟩
  · rw [if_neg hp, if_neg hp, happ]
    generalize application_frame s.app p = r
    obtain ⟨app, calls⟩ := r
    have hperform := perform_accounts calls (accept_accounts h (p.byte 0))
    dsimp only
    generalize perform (accept v.vars (p.byte 0)) calls = o at hperform
    generalize busmail.perform (busmail.accept s.session (p.byte 0)) calls = o' at hperform
    cases o' with
    | running s' =>
      obtain ⟨v', rfl, h'⟩ := hperform.to_running
      obtain ⟨ps, hrep, howns, -⟩ := h'.queue
      have hlen := howns.length_eq
      have hcount := hrep.count
      have htransmit := transmit_accounts s'.tx_fifo ((fifo_count v'.tx_fifo).toNat + 1) true h' rfl
        (by omega)
      dsimp only
      generalize transmit ((fifo_count v'.tx_fifo).toNat + 1) v' true = r at htransmit
      generalize busmail.transmit s'.tx_fifo s' true = r' at htransmit
      cases r' with
      | running r' =>
        obtain ⟨⟨v2, ack⟩, rfl, h2, rfl⟩ := htransmit.to_running
        obtain ⟨s2, ack⟩ := r'
        dsimp only
        cases ack with
        | true =>
          obtain ⟨v3, hack, h3⟩ := busmail_ack_accounts h2
          rw [if_pos rfl, if_pos rfl, hack]
          exact ⟨h3, rfl⟩
        | false => exact ⟨h2, rfl⟩
      | exited status r' =>
        obtain ⟨r, rfl, h2, -⟩ := htransmit.to_exited
        exact ⟨rfl, h2, rfl⟩
      | aborted r' =>
        obtain ⟨r, rfl, h2⟩ := htransmit.to_aborted
        exact ⟨h2, rfl⟩
      | undefined =>
        obtain rfl := htransmit.to_undefined
        trivial
    | exited status s' =>
      obtain ⟨v', rfl, h'⟩ := hperform.to_exited
      exact ⟨rfl, h', rfl⟩
    | aborted s' =>
      obtain ⟨v', rfl, h'⟩ := hperform.to_aborted
      exact ⟨h', rfl⟩
    | undefined =>
      obtain rfl := hperform.to_undefined
      trivial

theorem dispatch_accounts (application_frame : Callback κ) {v : Process κ} {s : Link κ}
    (h : ProcessAccounts v s) (p : packet_t) :
    SameEnd ProcessAccounts ProcessRefines (busmail_dispatch application_frame v p)
      (busmail.busmail_dispatch application_frame s p) := by
  unfold busmail_dispatch busmail.busmail_dispatch
  split
  · exact information_frame_accounts application_frame h p
  · split
    · split
      · obtain ⟨v', hv', h'⟩ := unnumbered_accounts h.1 p
        rw [hv']
        exact ⟨h', h.2⟩
      · obtain ⟨h, happ⟩ := h
        split
        · exact ⟨⟨⟨h.queue, h.tx_seq_l, h.rx_seq_l, h.tx_seq_r, rfl, h.tty⟩, h.live⟩, happ⟩
        · exact ⟨h, happ⟩
    · exact h

theorem processRun_accounts (application_frame : Callback κ) (ps : List packet_t) :
    ∀ {v : Process κ} {s : Link κ}, ProcessAccounts v s →
      SameEnd ProcessAccounts ProcessRefines (processRun application_frame v ps)
        (linkRun application_frame s ps) := by
  induction ps with
  | nil => exact fun h => h
  | cons p ps ih =>
    intro v s h
    have hd := dispatch_accounts application_frame h p
    simp only [processRun, linkRun]
    generalize busmail_dispatch application_frame v p = o at hd
    generalize busmail.busmail_dispatch application_frame s p = o' at hd
    cases o' with
    | running s' =>
      obtain ⟨v', rfl, h'⟩ := hd.to_running
      exact ih h'
    | exited status s' =>
      obtain ⟨v', rfl, h'⟩ := hd.to_exited
      exact ⟨rfl, h'⟩
    | aborted s' =>
      obtain ⟨v', rfl, h'⟩ := hd.to_aborted
      exact h'
    | undefined =>
      obtain rfl := hd.to_undefined
      trivial

theorem ProcessAccounts.refines {v : Process κ} {s : Link κ} (h : ProcessAccounts v s) :
    ProcessRefines v s := ⟨h.1.toRefines, h.2⟩

/-- Every run of the module is one of the link layer over a list. -/
theorem processRun_refines (application_frame : Callback κ) (ps : List packet_t) {v : Process κ}
    {s : Link κ} (h : ProcessAccounts v s) :
    Outcome.Rel ProcessRefines (processRun application_frame v ps)
      (linkRun application_frame s ps) :=
  (processRun_accounts application_frame ps h).rel (fun _ _ h => h.refines) fun _ _ h => h

/-! ## The answer to an information frame -/

/-- The bytes of the `i`th mail of an answer: the mail in its frame, with the next number. -/
def mailBytes (v : Variables) (i : Nat) (tx : busmail.tx_packet_t) : List UInt8 :=
  make_tx_packet (make_info_frame { v with tx_seq_l := v.tx_seq_l + UInt8.ofNat i } PF ::
    API_PROG_ID :: tx.task_id :: tx.data)

/-- What is written for a list of mails, and for none. -/
def answerBytes (v : Variables) (mails : List busmail.tx_packet_t) : List UInt8 :=
  (mails.mapIdx (mailBytes v)).flatten ++
    if mails.length = 0 then make_tx_packet [make_supervisory_frame v SUID_RR NO_PF] else []

theorem mailFrame_bytes (h : Refines v s) (i : Nat) (tx : busmail.tx_packet_t) :
    (mailFrame s i tx).bytes = mailBytes v i tx := by
  show make_tx_packet (busmail.make_info_frame _ PF :: API_PROG_ID :: tx.task_id :: tx.data) = _
  unfold busmail.make_info_frame
  rw [mailBytes, make_info_frame, h.tx_seq_l, h.rx_seq_l]

theorem answer_refines (h : Refines v s) (mails : List busmail.tx_packet_t) :
    (answer s mails).tty.flatMap Sent.bytes = v.tty ++ answerBytes v mails := by
  have hmails : (mails.mapIdx (mailFrame s)).flatMap Sent.bytes =
      (mails.mapIdx (mailBytes v)).flatten := by
    rw [List.flatMap_def]
    congr 1
    exact List.ext_getElem (by simp) fun i _ _ => by simp [mailFrame_bytes h]
  rw [answer_tty, List.flatMap_append, List.flatMap_append, hmails, ← h.tty,
    ← make_supervisory_frame_eq h, answerBytes, List.append_assoc]
  split
  · simp [Sent.bytes, Sent.data]
  · rfl

/-- The payload of the `i`th mail of an answer. -/
def mailPayload (v : Variables) (i : Nat) (tx : busmail.tx_packet_t) : List UInt8 :=
  make_info_frame { v with tx_seq_l := v.tx_seq_l + UInt8.ofNat i } PF :: API_PROG_ID ::
    tx.task_id :: tx.data

/-- The payloads of an answer: those of its mails, or else the one of an acknowledgement. -/
def answerPayloads (v : Variables) (mails : List busmail.tx_packet_t) : List (List UInt8) :=
  mails.mapIdx (mailPayload v) ++
    if mails.length = 0 then [[make_supervisory_frame v SUID_RR NO_PF]] else []

theorem answerBytes_eq (v : Variables) (mails : List busmail.tx_packet_t) :
    answerBytes v mails = format.stream (answerPayloads v mails) := by
  have hmails : (mails.mapIdx (mailBytes v)).flatten =
      format.stream (mails.mapIdx (mailPayload v)) := by
    rw [Format.stream, List.flatMap_def]
    congr 1
    exact List.ext_getElem (by simp) fun i _ _ => by
      simp [mailBytes, mailPayload, make_tx_packet_eq]
  rw [answerBytes, answerPayloads, format.stream_append, hmails]
  congr 1
  split
  · simp [Format.stream, make_tx_packet_eq]
  · rfl

/-- A receiver reads an answer back as these payloads, and as nothing else. -/
theorem answerBytes_parse (v : Variables) {mails : List busmail.tx_packet_t}
    (hmails : ∀ tx ∈ mails, tx.data.length + 3 ≤ 65535) :
    format.drain (answerBytes v mails) = (answerPayloads v mails, []) := by
  rw [answerBytes_eq]
  apply format.drain_whole_stream
  intro payload hmem
  obtain hmem | hmem := List.mem_append.mp hmem
  · obtain ⟨i, hi, rfl⟩ := List.mem_mapIdx.mp hmem
    exact hmails _ (List.getElem_mem hi)
  · split at hmem
    · obtain rfl := List.mem_singleton.mp hmem
      exact Nat.le_of_ble_eq_true rfl
    · cases hmem

/-- In every state that a run can reach, an information frame for another program changes nothing
and the callback does not run. One for this program is answered by the mails that the callback
enqueued, each in a frame of its own with the next number, and by an acknowledgement if and only
if there are none. The queue is empty again. -/
theorem an_information_frame_is_answered_by_its_mails (application_frame : Callback κ) (app : κ)
    (ps : List packet_t) (v : Process κ)
    (hrun : processRun application_frame ⟨busmail_init, app⟩ ps = .running v) (p : packet_t)
    (htype : p.byte 0 &&& PACKET_TYPE_MASK = INFORMATION_FRAME) :
    (p.byte 1 ≠ API_PROG_ID → busmail_dispatch application_frame v p = .running v) ∧
    (p.byte 1 = API_PROG_ID → ∀ (app' : κ) (calls : List Call),
      application_frame v.app p = (app', calls) → (∀ c ∈ calls, c.Mails) →
      ∃ v', busmail_dispatch application_frame v p = .running ⟨v', app'⟩ ∧
        v'.tty = v.vars.tty ++
          answerBytes (accept v.vars (p.byte 0)) (calls.flatMap Call.queues) ∧
        (calls.flatMap Call.queues).length = calls.length ∧
        Rep v'.tx_fifo [] ∧ v'.tx_seq_l = v.vars.tx_seq_l + UInt8.ofNat calls.length ∧
        v'.rx_seq_l = (accept v.vars (p.byte 0)).rx_seq_l ∧
        v'.tx_seq_r = (accept v.vars (p.byte 0)).tx_seq_r ∧
        v'.rx_seq_r = (accept v.vars (p.byte 0)).rx_seq_r) := by
  constructor
  · intro hother
    unfold busmail_dispatch
    rw [if_pos htype, information_frame, if_pos hother]
  · intro hprog app' calls hcalls hmails
    -- The state is one of the link layer over a list, with nothing in the queue.
    have hinit : ProcessAccounts ⟨busmail_init, app⟩ ⟨busmail.busmail_init, app⟩ :=
      ⟨busmail_init_accounts, rfl⟩
    have hruns := processRun_accounts application_frame ps hinit
    rw [hrun] at hruns
    obtain ⟨s, hs, hv⟩ := Outcome.Rel.of_running hruns
    have hfifo := linkRun_tx_fifo application_frame ps rfl hs
    -- There the answer is known.
    rw [hv.2] at hcalls
    have hd := dispatch_mails ⟨htype, hprog⟩ hfifo hcalls hmails
    have hdispatch := (dispatch_accounts application_frame hv p).rel (fun _ _ h => h.refines)
      fun _ _ h => h
    rw [hd] at hdispatch
    obtain ⟨⟨v', app''⟩, hd', hv', happ⟩ := hdispatch.to_running
    obtain rfl : app'' = app' := happ
    obtain ⟨hempty, hrx_seq_l, htx_seq_r, hrx_seq_r⟩ :=
      answer_received (busmail.accept s.session (p.byte 0)) (calls.flatMap Call.queues)
    have haccept := (accept_accounts hv.1 (p.byte 0)).toRefines
    have hlength := queues_length hmails
    obtain ⟨ps, hrep, howns, -⟩ := hv'.queue
    rw [hempty] at howns
    cases howns
    refine ⟨v', hd', ?_, hlength, hrep.rep, ?_, ?_, ?_, ?_⟩
    · rw [hv'.tty]
      exact answer_refines haccept _
    · rw [hv'.tx_seq_l, answer_tx_seq_l, hlength, ← haccept.tx_seq_l]
      rfl
    · rw [hv'.rx_seq_l, hrx_seq_l, haccept.rx_seq_l]
    · rw [hv'.tx_seq_r, htx_seq_r, haccept.tx_seq_r]
    · rw [hv'.rx_seq_r, hrx_seq_r, haccept.rx_seq_r]

theorem an_information_frame_is_answered_by_its_mails_after_one_frame :
    ∃ v : Process Unit,
      processRun (fun _ _ => ((), [.busmail_send [7], .busmail_send0 [8, 9]])) ⟨busmail_init, ()⟩
        [blank] = .running v ∧
      busmail_dispatch (fun _ _ => ((), [.busmail_send [7], .busmail_send0 [8, 9]])) v
        (blank.carry [0, 1] (by decide)) = .running v ∧
      ∃ v', busmail_dispatch (fun _ _ => ((), [.busmail_send [7], .busmail_send0 [8, 9]])) v
          blank = .running ⟨v', ()⟩ ∧
        v'.tty = v.vars.tty ++
          answerBytes (accept v.vars (blank.byte 0)) [⟨[7], API_TEST⟩, ⟨[8, 9], 0⟩] ∧
        Rep v'.tx_fifo [] ∧ v'.tx_seq_l = v.vars.tx_seq_l + 2 := by
  have hrun : ∃ v : Process Unit, processRun
      (fun _ _ => ((), [.busmail_send [7], .busmail_send0 [8, 9]])) ⟨busmail_init, ()⟩
      [blank] = .running v := ⟨_, rfl⟩
  obtain ⟨v, hrun⟩ := hrun
  have hother := (an_information_frame_is_answered_by_its_mails _ () [blank] v hrun
    (blank.carry [0, 1] (by decide)) (by decide)).1 (by decide)
  obtain ⟨v', hd, htty, -, hrep, htx, -⟩ := (an_information_frame_is_answered_by_its_mails _ ()
    [blank] v hrun blank (by decide)).2 (by decide) () _ rfl (by
      simp only [List.mem_cons, List.not_mem_nil, or_false, forall_eq_or_imp, forall_eq]
      exact ⟨⟨_, rfl, by decide⟩, ⟨_, rfl, by decide⟩⟩)
  exact ⟨v, hrun, hother, v', hd, htty, hrep, htx⟩

end dect_prog.busmail.linked
