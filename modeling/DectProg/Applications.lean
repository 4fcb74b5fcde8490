-- The two applications over the busmail link (app.c and nvs.c): what each calls
-- for a mail. What they use of the headers under Api/ is a parameter.
import DectProg.SessionSteps

open dect_prog.package

namespace dect_prog.busmail

/-- The `uint16_t` at a place of the packet. -/
def uint16At (p : packet_t) (i : Nat) : UInt16 :=
  UInt16.ofNat ((p.byte i).toNat + 256 * (p.byte (i + 1)).toNat)

/-- The field `mail_header` of `busmail_t`. -/
def mail_header (m : packet_t) : UInt16 := uint16At m 3

/-- The primitives, the results and the bytes of the messages, as the headers define them. The
labels of a switch differ, and no message is empty. -/
structure Api where
  API_FP_RESET_IND : UInt16
  API_FP_GET_FW_VERSION_CFM : UInt16
  RTX_EAP_HW_TEST_CFM : UInt16
  RSS_PENDING : UInt8
  RSS_SUCCESS : UInt8
  ApiFpGetFwVersionReq : List UInt8
  ApiFpMmStartProtocolReq : List UInt8
  ApiFpMmSetRegistrationModeReq : List UInt8
  labels : [API_FP_RESET_IND, API_FP_GET_FW_VERSION_CFM, RTX_EAP_HW_TEST_CFM].Nodup
  results : RSS_PENDING ≠ RSS_SUCCESS
  version_length : 0 < ApiFpGetFwVersionReq.length
  protocol_length : 0 < ApiFpMmStartProtocolReq.length
  registration_length : ApiFpMmStartProtocolReq.length ≤ ApiFpMmSetRegistrationModeReq.length

theorem Api.reset_ne_version (api : Api) :
    api.API_FP_GET_FW_VERSION_CFM ≠ api.API_FP_RESET_IND := by
  have := api.labels
  simp only [List.nodup_cons, List.mem_cons] at this
  grind

theorem Api.rtx_ne_reset (api : Api) : api.RTX_EAP_HW_TEST_CFM ≠ api.API_FP_RESET_IND := by
  have := api.labels
  simp only [List.nodup_cons, List.mem_cons] at this
  grind

theorem Api.version_ne_rtx (api : Api) :
    api.API_FP_GET_FW_VERSION_CFM ≠ api.RTX_EAP_HW_TEST_CFM := by
  have := api.labels
  simp only [List.nodup_cons, List.mem_cons] at this
  grind

/-! ## What the calls put in the queue -/

def Call.queues : Call → List tx_packet_t
  | .busmail_send data => [⟨data, API_TEST⟩]
  | .busmail_send0 data => [⟨data, 0⟩]
  | .busmail_ack => []
  | .exit _ => []

/-- The call sends a mail, and it is not empty. -/
def Call.Mails (c : Call) : Prop := ∃ tx, c.queues = [tx] ∧ 0 < tx.data.length

/-- One mail for each call. -/
theorem queues_length {calls : List Call} (h : ∀ c ∈ calls, c.Mails) :
    (calls.flatMap Call.queues).length = calls.length := by
  have hone : ∀ c ∈ calls, c.queues.length = 1 := by
    intro c hc
    obtain ⟨tx, htx, -⟩ := h c hc
    rw [htx]
    rfl
  rw [List.length_flatMap, List.map_congr_left hone]
  simp

/-- What the loop sends: all the mails. -/
def sendAll : List tx_packet_t → Session → Session
  | [], s => { s with tx_fifo := [] }
  | tx :: fifo, s => sendAll fifo (busmail_tx { s with tx_fifo := fifo } tx.data PF tx.task_id)

/-- The answer to an accepted frame: the mails, or else an acknowledgement. -/
def answer (s : Session) (mails : List tx_packet_t) : Session :=
  let s := sendAll mails { s with tx_fifo := mails }
  if mails.isEmpty then busmail_ack s else s

@[simp] theorem sendAll_tx_seq_l (fifo : List tx_packet_t) :
    ∀ s : Session, (sendAll fifo s).tx_seq_l = s.tx_seq_l + UInt8.ofNat fifo.length := by
  induction fifo with
  | nil => exact fun s => (UInt8.add_zero s.tx_seq_l).symm
  | cons tx fifo ih =>
    intro s
    rw [sendAll, ih, List.length_cons, Nat.add_comm, UInt8.ofNat_add, ← UInt8.add_assoc]
    rfl

@[simp] theorem answer_tx_seq_l (s : Session) (mails : List tx_packet_t) :
    (answer s mails).tx_seq_l = s.tx_seq_l + UInt8.ofNat mails.length := by
  unfold answer
  dsimp only
  split
  · exact sendAll_tx_seq_l mails _
  · exact sendAll_tx_seq_l mails _

/-- The frame of the `i`th mail of an answer. -/
def mailFrame (s : Session) (i : Nat) (tx : tx_packet_t) : Sent :=
  .information (make_info_frame { s with tx_seq_l := s.tx_seq_l + UInt8.ofNat i } PF) tx.task_id
    tx.data

/-- A frame depends on two of the counters only. -/
theorem mailFrame_congr {s s' : Session} {i j : Nat}
    (htx : s.tx_seq_l + UInt8.ofNat i = s'.tx_seq_l + UInt8.ofNat j)
    (hrx : s.rx_seq_l = s'.rx_seq_l) : mailFrame s i = mailFrame s' j := by
  funext tx
  unfold mailFrame make_info_frame
  rw [htx, hrx]

/-- The mails go out one after the other, each with the next number. -/
theorem sendAll_tty (fifo : List tx_packet_t) :
    ∀ s : Session, (sendAll fifo s).tty = s.tty ++ fifo.mapIdx (mailFrame s) := by
  induction fifo with
  | nil => exact fun s => (List.append_nil s.tty).symm
  | cons tx fifo ih =>
    intro s
    have hnumber : ∀ i, s.tx_seq_l + 1 + UInt8.ofNat i = s.tx_seq_l + UInt8.ofNat (i + 1) := by
      intro i
      rw [UInt8.add_assoc, Nat.add_comm i 1, UInt8.ofNat_add]
      rfl
    have hrest : ∀ i, mailFrame (busmail_tx { s with tx_fifo := fifo } tx.data PF tx.task_id) i =
        mailFrame s (i + 1) := fun i => mailFrame_congr (hnumber i) rfl
    have hzero : s.tx_seq_l + UInt8.ofNat 0 = s.tx_seq_l := UInt8.add_zero s.tx_seq_l
    have hfirst : Sent.information (make_info_frame s PF) tx.task_id tx.data = mailFrame s 0 tx := by
      rw [mailFrame, hzero]
    rw [sendAll, ih, List.mapIdx_cons, funext hrest, ← hfirst]
    exact List.append_assoc s.tty _ _

theorem sendAll_tx_fifo (fifo : List tx_packet_t) : ∀ s : Session, (sendAll fifo s).tx_fifo = [] := by
  induction fifo with
  | nil => exact fun _ => rfl
  | cons tx fifo ih => exact fun s => ih _

/-- The counters of what was received are as before. -/
theorem sendAll_received (fifo : List tx_packet_t) : ∀ s : Session,
    (sendAll fifo s).rx_seq_l = s.rx_seq_l ∧ (sendAll fifo s).tx_seq_r = s.tx_seq_r ∧
      (sendAll fifo s).rx_seq_r = s.rx_seq_r := by
  induction fifo with
  | nil => exact fun _ => ⟨rfl, rfl, rfl⟩
  | cons tx fifo ih => exact fun s => ih (busmail_tx { s with tx_fifo := fifo } tx.data PF tx.task_id)

theorem answer_tty (s : Session) (mails : List tx_packet_t) :
    (answer s mails).tty = s.tty ++ mails.mapIdx (mailFrame s) ++
      if mails.length = 0 then [.acknowledgement (make_supervisory_frame s SUID_RR NO_PF)] else [] := by
  have hframes : (sendAll mails { s with tx_fifo := mails }).tty =
      s.tty ++ mails.mapIdx (mailFrame s) := sendAll_tty mails { s with tx_fifo := mails }
  unfold answer
  by_cases hmails : mails = []
  · subst hmails
    rw [List.mapIdx_nil, List.append_nil]
    rfl
  · rw [if_neg (by simpa using hmails), if_neg (by simpa using hmails), List.append_nil]
    exact hframes

/-- After the answer the queue is empty, and the counters of what was received are as before. -/
theorem answer_received (s : Session) (mails : List tx_packet_t) :
    (answer s mails).tx_fifo = [] ∧ (answer s mails).rx_seq_l = s.rx_seq_l ∧
      (answer s mails).tx_seq_r = s.tx_seq_r ∧ (answer s mails).rx_seq_r = s.rx_seq_r := by
  have hfifo := sendAll_tx_fifo mails { s with tx_fifo := mails }
  have hreceived := sendAll_received mails { s with tx_fifo := mails }
  unfold answer
  dsimp only
  split
  · exact ⟨hfifo, hreceived⟩
  · exact ⟨hfifo, hreceived⟩

theorem perform_mails (calls : List Call) (h : ∀ c ∈ calls, c.Mails) :
    ∀ s : Session, perform s calls =
      .running { s with tx_fifo := s.tx_fifo ++ calls.flatMap Call.queues } := by
  induction calls with
  | nil => simp [perform]
  | cons call calls ih =>
    intro s
    have ih := ih fun c hc => h c (by simp [hc])
    obtain ⟨tx, htx, -⟩ := h call (by simp)
    cases call with
    | busmail_send data => simp [perform, ih, busmail_send, Call.queues]
    | busmail_send0 data => simp [perform, ih, busmail_send0, Call.queues]
    | busmail_ack => cases htx
    | exit status => cases htx

theorem transmit_mails (fifo : List tx_packet_t) (h : ∀ tx ∈ fifo, 0 < tx.data.length) :
    ∀ (s : Session) (ack : Bool), transmit fifo s ack =
      .running (sendAll fifo s, ack && fifo.isEmpty) := by
  induction fifo with
  | nil => simp [transmit, sendAll]
  | cons tx fifo ih =>
    intro s ack
    simp only [transmit]
    rw [if_pos (h tx (by simp)), ih fun tx htx => h tx (by simp [htx])]
    simp [sendAll]

variable {κ : Type}

/-- A callback that only sends mails: they are the answer to the frame. -/
theorem dispatch_mails {application_frame : Callback κ} {s : Link κ} {p : packet_t}
    {calls : List Call} {app : κ} (hp : Accepted p) (hfifo : s.session.tx_fifo = [])
    (hcalls : application_frame s.app p = (app, calls)) (hmails : ∀ c ∈ calls, c.Mails) :
    busmail_dispatch application_frame s p =
      .running ⟨answer (accept s.session (p.byte 0)) (calls.flatMap Call.queues), app⟩ := by
  have hlengths : ∀ tx ∈ calls.flatMap Call.queues, 0 < tx.data.length := by
    intro tx htx
    obtain ⟨c, hc, htx⟩ := List.mem_flatMap.mp htx
    obtain ⟨tx', htx', hpos⟩ := hmails c hc
    rw [htx', List.mem_singleton] at htx
    rw [htx]
    exact hpos
  have hperform : perform (accept s.session (p.byte 0)) calls = .running
      { accept s.session (p.byte 0) with tx_fifo := calls.flatMap Call.queues } := by
    rw [perform_mails calls hmails]
    simp [accept, hfifo]
  unfold busmail_dispatch
  rw [if_pos hp.1, information_frame, if_neg (not_not.mpr hp.2), hcalls]
  simp only [hperform, transmit_mails _ hlengths, Bool.true_and, answer]

/-! ## The queue between two dispatches -/

theorem transmit_tx_fifo (fifo : List tx_packet_t) :
    ∀ {s s' : Session} {ack ack' : Bool}, transmit fifo s ack = .running (s', ack') →
      s'.tx_fifo = [] := by
  induction fifo with
  | nil =>
    intro s s' ack ack' h
    cases h
    rfl
  | cons tx fifo ih =>
    intro s s' ack ack' h
    simp only [transmit] at h
    split at h
    · exact ih h
    · cases h

theorem dispatch_tx_fifo {application_frame : Callback κ} {s s' : Link κ} {p : packet_t}
    (hs : s.session.tx_fifo = []) (h : busmail_dispatch application_frame s p = .running s') :
    s'.session.tx_fifo = [] := by
  unfold busmail_dispatch at h
  split at h
  · by_cases hid : p.byte 1 = API_PROG_ID
    · obtain ⟨session, session', ack, -, htransmit, hs'⟩ := information_frame_running hid h
      have hnil := transmit_tx_fifo _ htransmit
      rw [hs']
      split
      · exact hnil
      · exact hnil
    · rw [information_frame, if_pos hid] at h
      cases h
      exact hs
  · split at h
    · split at h
      · cases h
        dsimp only [unnumbered_control_frame]
        split
        · exact hs
        · exact hs
      · split at h
        · cases h
          exact hs
        · cases h
          exact hs
    · cases h
      exact hs

/-- Whenever the link layer waits for a frame, its queue is empty. -/
theorem linkRun_tx_fifo (application_frame : Callback κ) (ps : List packet_t) :
    ∀ {s s' : Link κ}, s.session.tx_fifo = [] → linkRun application_frame s ps = .running s' →
      s'.session.tx_fifo = [] := by
  induction ps with
  | nil =>
    intro s s' hs h
    cases h
    exact hs
  | cons p ps ih =>
    intro s s' hs h
    obtain ⟨s1, hd, hrest⟩ := linkRun_cons h
    exact ih (dispatch_tx_fifo hs hd) hrest

end dect_prog.busmail

namespace dect_prog.app

open busmail

/-- The state is `reset_ind`. The labels that are not here are only printed. -/
def application_frame (api : Api) : Callback Int := fun reset_ind m =>
  if mail_header m = api.API_FP_RESET_IND then
    if reset_ind = 0 then (1, [.busmail_send api.ApiFpGetFwVersionReq]) else (reset_ind, [])
  else if mail_header m = api.API_FP_GET_FW_VERSION_CFM then
    -- The second message is sent with the size of the first.
    (reset_ind, [.busmail_send api.ApiFpMmStartProtocolReq,
      .busmail_send (api.ApiFpMmSetRegistrationModeReq.take api.ApiFpMmStartProtocolReq.length)])
  else (reset_ind, [])

theorem application_frame_quiet {api : Api} {reset_ind : Int} {m : packet_t}
    (hreset : reset_ind = 0 → mail_header m ≠ api.API_FP_RESET_IND)
    (hversion : mail_header m ≠ api.API_FP_GET_FW_VERSION_CFM) :
    application_frame api reset_ind m = (reset_ind, []) := by
  by_cases hm : mail_header m = api.API_FP_RESET_IND
  · unfold application_frame
    rw [if_pos hm, if_neg fun h => hreset h hm]
  · unfold application_frame
    rw [if_neg hm, if_neg hversion]

theorem application_frame_version {api : Api} {m : packet_t}
    (hm : mail_header m = api.API_FP_GET_FW_VERSION_CFM) (reset_ind : Int) :
    application_frame api reset_ind m = (reset_ind, [.busmail_send api.ApiFpMmStartProtocolReq,
      .busmail_send (api.ApiFpMmSetRegistrationModeReq.take api.ApiFpMmStartProtocolReq.length)]) := by
  rw [application_frame, hm, if_neg api.reset_ne_version, if_pos rfl]

/-- Only mails are sent. -/
theorem application_frame_mails (api : Api) (reset_ind : Int) (m : packet_t) :
    ∀ c ∈ (application_frame api reset_ind m).2, c.Mails := by
  have hversion := api.version_length
  have hprotocol := api.protocol_length
  have hregistration := api.registration_length
  have hsend : ∀ data : List UInt8, 0 < data.length → (Call.busmail_send data).Mails :=
    fun data h => ⟨_, rfl, h⟩
  unfold application_frame
  split
  · split
    · simpa using hsend _ hversion
    · simp
  · split
    · simp only [List.mem_cons, List.not_mem_nil, or_false, forall_eq_or_imp, forall_eq]
      exact ⟨hsend _ hprotocol, hsend _ (by rw [List.length_take]; omega)⟩
    · simp

end dect_prog.app

namespace dect_prog.nvs

open busmail

def PT_CMD_SET_NVS : UInt16 := 0x0100
def PT_CMD_GET_NVS : UInt16 := 0x0101
def PT_CMD_NVS_DEFAULT : UInt16 := 0x0102

/-- The field `TestPrimitive` of `rtx_eap_hw_test_cfm_t`. -/
def TestPrimitive (m : packet_t) : UInt16 := uint16At m 5

/-- `Set hard coded RFPI` -/
def setNvs : List UInt8 :=
  [0x66, 0xf0, 0x00, 0x00, 0x00, 0x01, 0x10, 0x00, 0x00, 0x00, 0x00, 0x00, 0x0b, 0x02, 0x3f, 0x80,
    0x00, 0xf8, 0x25, 0xc0, 0x01, 0x00, 0xf8, 0x23]

def getNvs : List UInt8 :=
  [0x66, 0xf0, 0x00, 0x00, 0x01, 0x01, 0x05, 0x00, 0x00, 0x00, 0x00, 0x00, 0xff]

def nvs_default : List UInt8 := [0x66, 0xf0, 0x00, 0x00, 0x02, 0x01, 0x01, 0x00, 0x01]

/-- Byte 9 is `data[0]` of `rtx_eap_hw_test_cfm_t`. -/
def rtx_eap_hw_test_cfm (api : Api) (m : packet_t) : List Call :=
  if TestPrimitive m = PT_CMD_NVS_DEFAULT then
    if m.byte 9 = api.RSS_PENDING then []
    else if m.byte 9 = api.RSS_SUCCESS then [.busmail_send0 setNvs]
    else []
  else if TestPrimitive m = PT_CMD_SET_NVS then [.busmail_send0 getNvs]
  else if TestPrimitive m = PT_CMD_GET_NVS then [.busmail_ack, .exit 0]
  else []

/-- The state is `reset_ind`. `fw_version_cfm` only prints. -/
def application_frame (api : Api) : Callback Int := fun reset_ind m =>
  if mail_header m = api.API_FP_RESET_IND then
    if reset_ind = 0 then (1, [.busmail_send api.ApiFpGetFwVersionReq]) else (reset_ind, [])
  else if mail_header m = api.RTX_EAP_HW_TEST_CFM then (reset_ind, rtx_eap_hw_test_cfm api m)
  else if mail_header m = api.API_FP_GET_FW_VERSION_CFM then
    (reset_ind, [.busmail_send0 nvs_default])
  else (reset_ind, [])

theorem application_frame_quiet {api : Api} {reset_ind : Int} {m : packet_t}
    (hreset : reset_ind = 0 → mail_header m ≠ api.API_FP_RESET_IND)
    (hversion : mail_header m ≠ api.API_FP_GET_FW_VERSION_CFM)
    (hrtx : mail_header m ≠ api.RTX_EAP_HW_TEST_CFM) :
    application_frame api reset_ind m = (reset_ind, []) := by
  by_cases hm : mail_header m = api.API_FP_RESET_IND
  · unfold application_frame
    rw [if_pos hm, if_neg fun h => hreset h hm]
  · unfold application_frame
    rw [if_neg hm, if_neg hrtx, if_neg hversion]

theorem application_frame_version {api : Api} {m : packet_t}
    (hm : mail_header m = api.API_FP_GET_FW_VERSION_CFM) (reset_ind : Int) :
    application_frame api reset_ind m = (reset_ind, [.busmail_send0 nvs_default]) := by
  rw [application_frame, hm, if_neg api.reset_ne_version, if_neg api.version_ne_rtx, if_pos rfl]

theorem application_frame_rtx {api : Api} {m : packet_t}
    (hm : mail_header m = api.RTX_EAP_HW_TEST_CFM) (reset_ind : Int) :
    application_frame api reset_ind m = (reset_ind, rtx_eap_hw_test_cfm api m) := by
  rw [application_frame, hm, if_neg api.rtx_ne_reset, if_pos rfl]

theorem rtx_set {api : Api} {m : packet_t} (ht : TestPrimitive m = PT_CMD_SET_NVS) :
    rtx_eap_hw_test_cfm api m = [.busmail_send0 getNvs] := by
  rw [rtx_eap_hw_test_cfm, ht, if_neg (by decide), if_pos rfl]

theorem rtx_default {api : Api} {m : packet_t} (ht : TestPrimitive m = PT_CMD_NVS_DEFAULT) :
    rtx_eap_hw_test_cfm api m = if m.byte 9 = api.RSS_PENDING then []
      else if m.byte 9 = api.RSS_SUCCESS then [.busmail_send0 setNvs] else [] := by
  unfold rtx_eap_hw_test_cfm
  rw [if_pos ht]

theorem rtx_default_success {api : Api} {m : packet_t} (ht : TestPrimitive m = PT_CMD_NVS_DEFAULT)
    (h9 : m.byte 9 = api.RSS_SUCCESS) : rtx_eap_hw_test_cfm api m = [.busmail_send0 setNvs] := by
  rw [rtx_default ht, h9, if_neg api.results.symm, if_pos rfl]

theorem rtx_quiet {api : Api} {m : packet_t} (hset : TestPrimitive m ≠ PT_CMD_SET_NVS)
    (hget : TestPrimitive m ≠ PT_CMD_GET_NVS) (hdefault : TestPrimitive m ≠ PT_CMD_NVS_DEFAULT) :
    rtx_eap_hw_test_cfm api m = [] := by
  unfold rtx_eap_hw_test_cfm
  rw [if_neg hdefault, if_neg hset, if_neg hget]

/-- The confirm of PT_CMD_GET_NVS, which ends the program. -/
def Last (api : Api) (m : packet_t) : Prop :=
  mail_header m = api.RTX_EAP_HW_TEST_CFM ∧ TestPrimitive m = PT_CMD_GET_NVS

theorem application_frame_last {api : Api} {m : packet_t} (h : Last api m) (reset_ind : Int) :
    application_frame api reset_ind m = (reset_ind, [.busmail_ack, .exit 0]) := by
  rw [application_frame_rtx h.1]
  unfold rtx_eap_hw_test_cfm
  rw [h.2, if_neg (by decide), if_neg (by decide), if_pos rfl]

/-- Otherwise only mails are sent. -/
theorem application_frame_mails {api : Api} {m : packet_t} (h : ¬ Last api m) (reset_ind : Int) :
    ∀ c ∈ (application_frame api reset_ind m).2, c.Mails := by
  have hversion := api.version_length
  have hsend : ∀ data : List UInt8, 0 < data.length → (Call.busmail_send data).Mails :=
    fun data h => ⟨_, rfl, h⟩
  have hsend0 : ∀ data : List UInt8, 0 < data.length → (Call.busmail_send0 data).Mails :=
    fun data h => ⟨_, rfl, h⟩
  unfold application_frame
  split
  · split
    · simpa using hsend _ hversion
    · simp
  · split
    · rename_i hrtx
      unfold rtx_eap_hw_test_cfm
      split
      · split
        · simp
        · split
          · simpa using hsend0 setNvs (by decide)
          · simp
      · split
        · simpa using hsend0 getNvs (by decide)
        · split
          · rename_i hget
            exact absurd ⟨hrtx, hget⟩ h
          · simp
    · split
      · simpa using hsend0 nvs_default (by decide)
      · simp

end dect_prog.nvs
