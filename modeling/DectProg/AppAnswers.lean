-- What the APP mode answers, frame by frame, over the whole life of the process:
-- each answer is a matter of the frame and of the ones before it. The mails are
-- those that the frames asked for, and the numbers count them.
import DectProg.BusStreams
import DectProg.Restart
import Mathlib.Data.List.DropRight

open tape dect_prog.package

namespace dect_prog.busmail

/-! ## A frame that is not for the application -/

/-- Any other frame than SAMB: no counter of what is sent changes, and nothing is sent. -/
theorem dispatch_skips {κ : Type} (application_frame : Callback κ) (s : Link κ) {p : packet_t}
    (hp : ¬ Accepted p) (hpoll : p.byte 0 ≠ SAMB_POLL_SET) :
    ∃ s', busmail_dispatch application_frame s p = .running s' ∧ s'.app = s.app ∧
      s'.session.tx_fifo = s.session.tx_fifo ∧ s'.session.tx_seq_l = s.session.tx_seq_l ∧
      s'.session.tty = s.session.tty := by
  unfold busmail_dispatch
  split
  · rename_i htype
    have hid : p.byte 1 ≠ API_PROG_ID := fun hid => hp ⟨htype, hid⟩
    rw [information_frame, if_pos hid]
    exact ⟨s, rfl, rfl, rfl, rfl, rfl⟩
  · split
    · split
      · refine ⟨_, rfl, rfl, ?_⟩
        dsimp only
        rw [unnumbered_control_frame, if_neg hpoll]
        exact ⟨rfl, rfl, rfl⟩
      · split
        · exact ⟨_, rfl, rfl, rfl, rfl, rfl⟩
        · exact ⟨s, rfl, rfl, rfl, rfl, rfl⟩
    · exact ⟨s, rfl, rfl, rfl, rfl, rfl⟩

/-- The number that is acknowledged behind a frame with the header `h`. -/
def acknowledged (h : UInt8) : UInt8 :=
  let rx_seq_l := (h &&& TX_SEQ_MASK) >>> TX_SEQ_OFFSET + 1
  if rx_seq_l = 7 then 0 else rx_seq_l

end dect_prog.busmail

namespace dect_prog.app

open busmail

/-! ## The answers -/

variable (api : Api)

/-- What a mail asks for, behind the frames `past`: only the first reset indication counts, and each
version starts the protocol and the registration. -/
def mails (past : List packet_t) (p : packet_t) : List tx_packet_t :=
  if mail_header p = api.API_FP_RESET_IND then
    if ∃ q ∈ past, nvs.Carries api.API_FP_RESET_IND q then []
    else [⟨api.ApiFpGetFwVersionReq, API_TEST⟩]
  else if mail_header p = api.API_FP_GET_FW_VERSION_CFM then
    [⟨api.ApiFpMmStartProtocolReq, API_TEST⟩,
      ⟨api.ApiFpMmSetRegistrationModeReq.take api.ApiFpMmStartProtocolReq.length, API_TEST⟩]
  else []

/-- All the mails that some frames ask for. -/
def mailed (ps : List packet_t) : Nat :=
  2 * ps.countP (nvs.Carries api.API_FP_GET_FW_VERSION_CFM) +
    if ∃ q ∈ ps, nvs.Carries api.API_FP_RESET_IND q then 1 else 0

/-- The frames up to the last SAMB. -/
def beforeReset (past : List packet_t) : List packet_t :=
  past.rdropWhile fun p => p.byte 0 ≠ SAMB_POLL_SET

/-- The mails since the last SAMB. -/
def number (past : List packet_t) : Nat := mailed api past - mailed api (beforeReset past)

/-- What is written for a frame, behind the frames `past`. -/
def reply (past : List packet_t) (p : packet_t) : List Sent :=
  if p.byte 0 = SAMB_POLL_SET then [.unnumbered SAMB_NO_POLL_SET]
  else if Accepted p then
    if mails api past p = [] then [.acknowledgement (acknowledged (p.byte 0))]
    else (mails api past p).mapIdx fun i tx =>
      .information ((UInt8.ofNat (number api past + i) <<< TX_SEQ_OFFSET) |||
        (PF <<< PF_OFFSET) ||| acknowledged (p.byte 0)) tx.task_id tx.data
  else []

/-- What is written for some frames, behind the frames `past`. -/
def replies : List packet_t → List packet_t → List Sent
  | _, [] => []
  | past, p :: ps => reply api past p ++ replies (past ++ [p]) ps

variable {api : Api} {past : List packet_t} {p : packet_t} {s : Link Int}

/-! ## Counting the mails -/

theorem exists_mail_append (header : UInt16) :
    (∃ q ∈ past ++ [p], nvs.Carries header q) ↔
      (∃ q ∈ past, nvs.Carries header q) ∨ nvs.Carries header p := by
  simp [or_and_right, exists_or]

/-- One more frame for the application: its mails are counted. -/
theorem mailed_accepted (hp : Accepted p) :
    mailed api (past ++ [p]) = mailed api past + (mails api past p).length := by
  have hmail : ∀ header, nvs.Carries header p ↔ mail_header p = header := fun _ => and_iff_right hp
  unfold mailed mails
  rw [List.countP_append, List.countP_singleton]
  simp only [exists_mail_append, hmail, decide_eq_true_eq]
  by_cases hreset : mail_header p = api.API_FP_RESET_IND
  · have hversion : mail_header p ≠ api.API_FP_GET_FW_VERSION_CFM := by
      rw [hreset]
      exact api.reset_ne_version.symm
    rw [if_pos hreset, if_neg hversion, if_pos (.inr hreset)]
    split <;> simp
  · rw [if_neg hreset]
    simp only [hreset, or_false]
    split <;> simp only [List.length_cons, List.length_nil] <;> omega

/-- One more frame that is for nobody. -/
theorem mailed_skipped (hp : ¬ Accepted p) : mailed api (past ++ [p]) = mailed api past := by
  have hmail : ∀ header, ¬ nvs.Carries header p := fun _ h => hp h.1
  unfold mailed
  rw [List.countP_append, List.countP_singleton]
  simp only [exists_mail_append, hmail, or_false, decide_false, Bool.false_eq_true, if_false,
    Nat.add_zero]

theorem mailed_append_le (api : Api) (past qs : List packet_t) :
    mailed api past ≤ mailed api (past ++ qs) := by
  unfold mailed
  rw [List.countP_append]
  by_cases h : ∃ q ∈ past, nvs.Carries api.API_FP_RESET_IND q
  · have happend : ∃ q ∈ past ++ qs, nvs.Carries api.API_FP_RESET_IND q := by
      obtain ⟨q, hq, hreset⟩ := h
      exact ⟨q, List.mem_append_left _ hq, hreset⟩
    rw [if_pos h, if_pos happend]
    omega
  · rw [if_neg h]
    omega

theorem mailed_beforeReset_le (api : Api) (past : List packet_t) :
    mailed api (beforeReset past) ≤ mailed api past := by
  obtain ⟨since, hsince⟩ : beforeReset past <+: past := List.rdropWhile_prefix _ _
  have hle := mailed_append_le api (beforeReset past) since
  rwa [hsince] at hle

theorem number_reset (hp : p.byte 0 = SAMB_POLL_SET) : number api (past ++ [p]) = 0 := by
  unfold number beforeReset
  rw [List.rdropWhile_concat_neg _ _ _ (by simp [hp]), Nat.sub_self]

theorem beforeReset_other (hp : p.byte 0 ≠ SAMB_POLL_SET) :
    beforeReset (past ++ [p]) = beforeReset past :=
  List.rdropWhile_concat_pos _ _ _ (by simp [hp])

theorem number_accepted (hp : Accepted p) :
    number api (past ++ [p]) = number api past + (mails api past p).length := by
  have hpoll : p.byte 0 ≠ SAMB_POLL_SET := by
    intro hpoll
    exact absurd hp.1 (by rw [hpoll]; decide)
  have hle := mailed_beforeReset_le api past
  unfold number
  rw [beforeReset_other hpoll, mailed_accepted hp]
  omega

theorem number_skipped (hp : ¬ Accepted p) (hpoll : p.byte 0 ≠ SAMB_POLL_SET) :
    number api (past ++ [p]) = number api past := by
  unfold number
  rw [beforeReset_other hpoll, mailed_skipped hp]

/-! ## The process -/

/-- What the variables hold behind the frames `past`. -/
structure Behind (api : Api) (past : List packet_t) (s : Link Int) : Prop where
  tx_fifo : s.session.tx_fifo = []
  tx_seq_l : s.session.tx_seq_l = UInt8.ofNat (number api past)
  reset_ind : s.app = if ∃ q ∈ past, nvs.Carries api.API_FP_RESET_IND q then 1 else 0

theorem accept_rx (s : Session) (h : UInt8) : (accept s h).rx_seq_l = acknowledged h := rfl

/-- The callback asks for the mails. -/
theorem application_frame_queues (h : Behind api past s) (hp : Accepted p) :
    ∃ app calls, application_frame api s.app p = (app, calls) ∧
      calls.flatMap Call.queues = mails api past p ∧
      app = if ∃ q ∈ past ++ [p], nvs.Carries api.API_FP_RESET_IND q then 1 else 0 := by
  have hcarries : nvs.Carries api.API_FP_RESET_IND p ↔ mail_header p = api.API_FP_RESET_IND :=
    and_iff_right hp
  have happ := h.reset_ind
  unfold application_frame mails
  simp only [exists_mail_append, hcarries]
  by_cases hreset : mail_header p = api.API_FP_RESET_IND
  · simp only [hreset, or_true, if_true]
    by_cases hpast : ∃ q ∈ past, nvs.Carries api.API_FP_RESET_IND q
    · rw [if_pos hpast] at happ ⊢
      rw [happ, if_neg (by decide)]
      exact ⟨_, _, rfl, rfl, rfl⟩
    · rw [if_neg hpast] at happ ⊢
      rw [happ, if_pos rfl]
      exact ⟨_, _, rfl, rfl, rfl⟩
  · simp only [hreset, or_false, if_false]
    by_cases hversion : mail_header p = api.API_FP_GET_FW_VERSION_CFM
    · rw [if_pos hversion, if_pos hversion]
      exact ⟨_, _, rfl, rfl, happ⟩
    · rw [if_neg hversion, if_neg hversion]
      exact ⟨_, _, rfl, rfl, happ⟩

/-- The frames of an answer. -/
theorem answer_reply (h : Behind api past s) (hp : Accepted p) :
    (answer (accept s.session (p.byte 0)) (mails api past p)).tty =
      s.session.tty ++ reply api past p := by
  have hpoll : p.byte 0 ≠ SAMB_POLL_SET := by
    intro hpoll
    exact absurd hp.1 (by rw [hpoll]; decide)
  have hack : make_supervisory_frame (accept s.session (p.byte 0)) SUID_RR NO_PF =
      acknowledged (p.byte 0) := by
    have hzero : (SUID_RR <<< SUID_OFFSET) ||| (NO_PF <<< PF_OFFSET) = 0 := by decide
    rw [make_supervisory_frame, hzero, UInt8.zero_or, accept_rx]
  have hframe : ∀ i, mailFrame (accept s.session (p.byte 0)) i = fun tx =>
      .information ((UInt8.ofNat (number api past + i) <<< TX_SEQ_OFFSET) ||| (PF <<< PF_OFFSET) |||
        acknowledged (p.byte 0)) tx.task_id tx.data := by
    intro i
    funext tx
    have hseq : (accept s.session (p.byte 0)).tx_seq_l = s.session.tx_seq_l := rfl
    rw [mailFrame, make_info_frame, hseq, h.tx_seq_l, ← UInt8.ofNat_add]
    rfl
  have htty : (accept s.session (p.byte 0)).tty = s.session.tty := rfl
  rw [answer_tty, htty, reply, if_neg hpoll, if_pos hp, List.append_assoc]
  congr 1
  by_cases hmails : mails api past p = []
  · simp only [hmails, List.mapIdx_nil, List.length_nil, List.nil_append, if_true, hack]
  · rw [if_neg hmails, if_neg (by simpa using hmails), List.append_nil, funext hframe]

/-- One frame: it is answered, and the variables follow. -/
theorem dispatch_replies (h : Behind api past s) (p : packet_t) :
    ∃ s', busmail_dispatch (application_frame api) s p = .running s' ∧
      Behind api (past ++ [p]) s' ∧ s'.session.tty = s.session.tty ++ reply api past p := by
  by_cases hp : Accepted p
  · obtain ⟨app, calls, hcalls, hqueues, happ⟩ := application_frame_queues h hp
    have hmails := application_frame_mails api s.app p
    rw [hcalls] at hmails
    have hd := dispatch_mails hp h.tx_fifo hcalls hmails
    rw [hqueues] at hd
    refine ⟨_, hd, ⟨(answer_received _ _).1, ?_, happ⟩, answer_reply h hp⟩
    have hseq : (accept s.session (p.byte 0)).tx_seq_l = s.session.tx_seq_l := rfl
    rw [answer_tx_seq_l, hseq, h.tx_seq_l, number_accepted hp, UInt8.ofNat_add]
  · have hnot : ¬ nvs.Carries api.API_FP_RESET_IND p := fun hreset => hp hreset.1
    have happ := h.reset_ind
    by_cases hpoll : p.byte 0 = SAMB_POLL_SET
    · refine ⟨_, dispatch_poll_set _ s hpoll, ⟨h.tx_fifo, ?_, ?_⟩, ?_⟩
      · rw [number_reset hpoll]
        rfl
      · simpa only [exists_mail_append, hnot, or_false] using happ
      · rw [reply, if_pos hpoll]
    · obtain ⟨s', hd, happ', hfifo, hseq, htty⟩ := dispatch_skips (application_frame api) s hp hpoll
      refine ⟨s', hd, ⟨hfifo.trans h.tx_fifo, ?_, ?_⟩, ?_⟩
      · rw [hseq, h.tx_seq_l, number_skipped hp hpoll]
      · simpa only [exists_mail_append, hnot, or_false, happ'] using happ
      · rw [reply, if_neg hpoll, if_neg hp, List.append_nil, htty]

/-- A run. -/
theorem linkRun_replies (ps : List packet_t) : ∀ {past : List packet_t} {s : Link Int},
    Behind api past s → ∃ s', linkRun (application_frame api) s ps = .running s' ∧
      s'.session.tty = s.session.tty ++ replies api past ps := by
  induction ps with
  | nil => exact fun _ => ⟨_, rfl, (List.append_nil _).symm⟩
  | cons p ps ih =>
    intro past s h
    obtain ⟨s1, hd, h1, htty1⟩ := dispatch_replies h p
    obtain ⟨s', hrun, htty⟩ := ih h1
    refine ⟨s', ?_, ?_⟩
    · rw [linkRun, hd]
      exact hrun
    · rw [htty, htty1, replies, List.append_assoc]

end dect_prog.app

namespace dect_prog.event_loop

open dect_prog.busmail dect_prog.busmail.linked

/-! ## The law -/

/-- Whatever is read, the APP mode runs on, and the bytes that it has written are the answers to the
frames of the reads, each one a matter of its frame and of those before it: SAMB is answered with its
confirm; a frame for the application with the mails that it asks for, numbered from the last SAMB
on, or with an acknowledgement; and any other frame with nothing. -/
theorem the_app_mode_answers_frame_by_frame (api : Api) (e : event_t) (as : List Arrival)
    (he : e.outcount ≤ 0) (hreads : Succeeds as) (hstarts : StartsAtZero as) :
    ∃ s s', event_loop.busmail_init = some s ∧ mainLoop (appMode api) s e as = .running s' ∧
      s'.1.vars.tty = (app.replies api []
        (frames busmail.format (newTape 500) (events as))).flatMap Sent.bytes := by
  obtain ⟨b, hinit, hb⟩ := busmail_init_eq
  have hrefines : ProcessAccounts (⟨linked.busmail_init, 0⟩ : Process Int)
      ⟨busmail.busmail_init, 0⟩ := ⟨busmail_init_accounts, rfl⟩
  have hloop := bus_refines (app.application_frame api) as hb (Tape.size_new 500 0) he hreads
    hstarts hrefines
  have hbehind : app.Behind api [] ⟨busmail.busmail_init, 0⟩ := ⟨rfl, rfl, rfl⟩
  obtain ⟨l, hrun, htty⟩ :=
    app.linkRun_replies (frames busmail.format (newTape 500) (events as)) hbehind
  rw [hrun] at hloop
  obtain ⟨s', hs', hvars⟩ := hloop.to_running
  refine ⟨_, s', hinit, hs', ?_⟩
  rw [hvars.1.tty, htty]
  rfl

/-- The first reset indication is answered with the request for the version. -/
theorem the_app_mode_answers_frame_by_frame_on_a_reset :
    ∃ s s', event_loop.busmail_init = some s ∧
      mainLoop (appMode headers) s .cleared
        [arrivalOf (busmail.make_tx_packet [0, 0, 0, 0x00, 0x40]) (by decide)] = .running s' ∧
      s'.1.vars.tty = busmail.make_tx_packet [0x09, 0, 1, 0x01, 0x40] := by
  have hsucceeds : Succeeds
      [arrivalOf (busmail.make_tx_packet [0, 0, 0, 0x00, 0x40]) (by decide)] :=
    List.forall_mem_singleton.mpr rfl
  obtain ⟨s, s', hinit, hs', htty⟩ := the_app_mode_answers_frame_by_frame headers .cleared
    [arrivalOf (busmail.make_tx_packet [0, 0, 0, 0x00, 0x40]) (by decide)] (Int.le_refl 0)
    hsucceeds (List.forall_mem_singleton.mpr fun _ => rfl)
  refine ⟨s, s', hinit, hs', ?_⟩
  have hbytes := read_bytes .cleared
    (arrivalOf (busmail.make_tx_packet [0, 0, 0, 0x00, 0x40]) (by decide))
  have hframes := frames_encode (f := busmail.format) (t := newTape 500)
    (c := [0, 0, 0, 0x00, 0x40]) (by decide) (by decide) rfl
    (by rw [newTape, List.length_replicate]; decide) hbytes
  have hevents : events [arrivalOf (busmail.make_tx_packet [0, 0, 0, 0x00, 0x40]) (by decide)] =
    [read .cleared (arrivalOf (busmail.make_tx_packet [0, 0, 0, 0x00, 0x40]) (by decide))] := rfl
  rw [htty, hevents, hframes]
  rfl

end dect_prog.event_loop
