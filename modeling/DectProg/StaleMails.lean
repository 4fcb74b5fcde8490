-- What a dispatch sees of a packet: the busmail link with its two applications,
-- and the law for all three dispatchers.
import DectProg.AckNumbers
import DectProg.Applications
import DectProg.BusReceive
import DectProg.StalePackets

open dect_prog.package

namespace dect_prog.busmail

/-! ## The fields of a mail -/

/-- The two bytes of a `uint16_t` in the memory. -/
def low (c : UInt16) : UInt8 := UInt8.ofNat c.toNat
def high (c : UInt16) : UInt8 := UInt8.ofNat (c.toNat / 256)

theorem uint16At_eq_iff {p : packet_t} {i : Nat} {c : UInt16} :
    uint16At p i = c ↔ p.byte i = low c ∧ p.byte (i + 1) = high c := by
  have h0 := (p.byte i).toNat_lt
  have h1 := (p.byte (i + 1)).toNat_lt
  have hc := c.toNat_lt
  have hvalue : (uint16At p i).toNat = (p.byte i).toNat + 256 * (p.byte (i + 1)).toNat := by
    rw [uint16At, UInt16.toNat_ofNat']
    omega
  rw [← UInt16.toNat_inj, hvalue, ← UInt8.toNat_inj, ← UInt8.toNat_inj, low, high,
    UInt8.toNat_ofNat', UInt8.toNat_ofNat']
  omega

theorem uint16At_same {p p' : packet_t} (h : SamePacket p p') {i : Nat} (hi : i + 1 < p.size) :
    uint16At p' i = uint16At p i := by
  rw [uint16At, uint16At, h.byte (by omega), h.byte hi]

/-- A high byte that none of the three primitives has. -/
theorem exists_other (a b c : UInt8) : ∃ d, d ≠ a ∧ d ≠ b ∧ d ≠ c := by
  by_contra hnone
  have h : ∀ d, d = a ∨ d = b ∨ d = c := by
    intro d
    by_contra hd
    simp only [not_or] at hd
    exact hnone ⟨d, hd⟩
  have h0 := h 0
  have h1 := h 1
  have h2 := h 2
  have h3 := h 3
  grind

/-! ## Dispatchers that agree, and dispatchers that do not -/

variable {κ : Type}

/-- The bytes that the link layer reads itself. -/
theorem dispatch_congr {application_frame : Callback κ} {s : Link κ} {p p' : packet_t}
    (h0 : p'.byte 0 = p.byte 0)
    (h1 : p.byte 0 &&& PACKET_TYPE_MASK = INFORMATION_FRAME → p'.byte 1 = p.byte 1)
    (hframe : Accepted p → application_frame s.app p' = application_frame s.app p) :
    busmail_dispatch application_frame s p' = busmail_dispatch application_frame s p := by
  unfold busmail_dispatch unnumbered_control_frame supervisory_control_frame
  rw [h0]
  split
  · rename_i htype
    unfold information_frame
    rw [h0, h1 htype]
    split
    · rfl
    · rename_i hid
      rw [hframe ⟨htype, not_not.mp hid⟩]
  · rfl

theorem not_sees_no_header {application_frame : Callback κ} {s : Link κ} {p : packet_t}
    (hsize : p.size = 0) : ¬ SeesOnlyThePacket (busmail_dispatch application_frame) s p := by
  obtain ⟨p1, hp1, hf1⟩ := exists_stale p fun _ => SUPERVISORY_CONTROL_FRAME
  obtain ⟨p2, hp2, hf2⟩ := exists_stale p fun _ => SAMB_POLL_SET
  have h1 := hf1 0 (by omega) (by decide)
  have h2 := hf2 0 (by omega) (by decide)
  have hd1 : busmail_dispatch application_frame s p1 =
      .running { s with session := supervisory_control_frame s.session p1 } := by
    rw [busmail_dispatch, h1, if_neg (by decide), if_pos (by decide), if_neg (by decide),
      if_pos (by decide)]
  have hd2 : busmail_dispatch application_frame s p2 =
      .running { s with session := unnumbered_control_frame s.session p2 } := by
    rw [busmail_dispatch, h2, if_neg (by decide), if_pos (by decide), if_pos (by decide)]
  apply not_sees hp1 hp2
  rw [hd1, hd2]
  intro h
  have htty : (supervisory_control_frame s.session p1).tty =
      (unnumbered_control_frame s.session p2).tty := by
    simp only [Outcome.running.injEq, Link.mk.injEq, and_true] at h
    rw [h]
  rw [unnumbered_control_frame, if_pos h2] at htty
  have := congrArg List.length htty
  simp [supervisory_control_frame] at this

/-- An information frame without its program id: it is dropped, or answered. -/
theorem not_sees_no_program_id {application_frame : Callback κ} {s : Link κ} {p : packet_t}
    (htype : p.byte 0 &&& PACKET_TYPE_MASK = INFORMATION_FRAME) (hsize : p.size = 1) :
    ¬ SeesOnlyThePacket (busmail_dispatch application_frame) s p := by
  obtain ⟨p1, hp1, hf1⟩ := exists_stale p fun _ => 1
  obtain ⟨p2, hp2, hf2⟩ := exists_stale p fun _ => API_PROG_ID
  have h1 := hf1 1 (by omega) (by decide)
  have h2 := hf2 1 (by omega) (by decide)
  have hb1 : p1.byte 0 = p.byte 0 := hp1.byte (by omega)
  have hb2 : p2.byte 0 = p.byte 0 := hp2.byte (by omega)
  have hd1 : busmail_dispatch application_frame s p1 = .running s := by
    rw [busmail_dispatch, hb1, if_pos htype, information_frame, h1, if_pos (by decide)]
  apply not_sees hp1 hp2
  rw [hd1]
  intro h
  have := accepted_is_answered (p := p2) ⟨by rw [hb2]; exact htype, h2⟩ h.symm
  omega

/-- The two bytes that a dispatch reads of every information frame. -/
theorem sees_two_bytes {application_frame : Callback κ} {s : Link κ} {p : packet_t}
    (h : SeesOnlyThePacket (busmail_dispatch application_frame) s p) :
    1 ≤ p.size ∧ (p.byte 0 &&& PACKET_TYPE_MASK = INFORMATION_FRAME → 2 ≤ p.size) := by
  have h0 : 1 ≤ p.size := by
    by_contra hsize
    exact not_sees_no_header (by omega) h
  refine ⟨h0, fun htype => ?_⟩
  by_contra hsize
  exact not_sees_no_program_id htype (by omega) h

/-- Two accepted packets: for one a mail or two are sent, for the other none. -/
theorem dispatch_mails_ne {application_frame : Callback κ} {s : Link κ} {p1 p2 : packet_t}
    {app1 app2 : κ} {calls : List Call} (hs : s.session.tx_fifo = []) (hp1 : Accepted p1)
    (hp2 : Accepted p2) (h1 : application_frame s.app p1 = (app1, calls))
    (h2 : application_frame s.app p2 = (app2, [])) (hmails : ∀ c ∈ calls, c.Mails)
    (hcount : calls.length = 1 ∨ calls.length = 2) :
    busmail_dispatch application_frame s p1 ≠ busmail_dispatch application_frame s p2 := by
  rw [dispatch_mails hp1 hs h1 hmails, dispatch_mails hp2 hs h2 (by simp)]
  have hlength : (calls.flatMap Call.queues).length = calls.length := by
    clear h1 hcount
    induction calls with
    | nil => rfl
    | cons c calls ih =>
      obtain ⟨tx, htx, -⟩ := hmails c (by simp)
      rw [List.flatMap_cons, List.length_append, ih fun c hc => hmails c (by simp [hc]), htx,
        List.length_singleton, List.length_cons, Nat.add_comm]
  intro h
  simp only [Outcome.running.injEq, Link.mk.injEq] at h
  have hseq := congrArg Session.tx_seq_l h.1
  rw [answer_tx_seq_l, answer_tx_seq_l, hlength] at hseq
  have hne := (UInt8.add_right_inj _).mp hseq
  rcases hcount with hcount | hcount
  · rw [hcount] at hne
    exact absurd hne (by decide)
  · rw [hcount] at hne
    exact absurd hne (by decide)

theorem SamePacket.accepted {p p' : packet_t} (h : SamePacket p p') (hsize : 2 ≤ p.size)
    (hp : Accepted p) : Accepted p' :=
  ⟨by rw [h.byte (by omega)]; exact hp.1, by rw [h.byte (by omega)]; exact hp.2⟩

/-! ## Stale mail headers -/

/-- Where the mail header is not in the packet, it can be one that no application knows. -/
theorem exists_quiet (api : Api) {p : packet_t} (hsize : p.size ≤ 4) :
    ∃ p', SamePacket p p' ∧ mail_header p' ≠ api.API_FP_RESET_IND ∧
      mail_header p' ≠ api.API_FP_GET_FW_VERSION_CFM ∧ mail_header p' ≠ api.RTX_EAP_HW_TEST_CFM := by
  obtain ⟨d, h1, h2, h3⟩ := exists_other (high api.API_FP_RESET_IND)
    (high api.API_FP_GET_FW_VERSION_CFM) (high api.RTX_EAP_HW_TEST_CFM)
  obtain ⟨p', hp', hf⟩ := exists_stale p fun _ => d
  have h4 := hf 4 hsize (by decide)
  refine ⟨p', hp', ?_, ?_, ?_⟩
  · exact fun h => h1 (h4.symm.trans (uint16At_eq_iff.mp h).2)
  · exact fun h => h2 (h4.symm.trans (uint16At_eq_iff.mp h).2)
  · exact fun h => h3 (h4.symm.trans (uint16At_eq_iff.mp h).2)

/-- And it can be any one that its low byte allows, over any test primitive. -/
theorem exists_mail {p : packet_t} (hsize : p.size ≤ 4) (c t : UInt16)
    (hlow : p.size = 4 → p.byte 3 = low c) :
    ∃ p', SamePacket p p' ∧ mail_header p' = c ∧ nvs.TestPrimitive p' = t := by
  obtain ⟨p', hp', hf⟩ := exists_stale p fun i =>
    if i = 3 then low c else if i = 4 then high c else if i = 5 then low t else high t
  refine ⟨p', hp', uint16At_eq_iff.mpr ⟨?_, hf 4 hsize (by decide)⟩,
    uint16At_eq_iff.mpr ⟨hf 5 (by omega) (by decide), hf 6 (by omega) (by decide)⟩⟩
  by_cases h4 : p.size = 4
  · rw [hp'.byte (by omega)]
    exact hlow h4
  · exact hf 3 (by omega) (by decide)

end dect_prog.busmail

namespace dect_prog.app

open busmail

/-- What the dispatch in app mode reads is in the packet, or the low byte of the mail header is
enough to see that the mail is only acknowledged. -/
def Settled (api : Api) (reset_ind : Int) (p : packet_t) : Prop :=
  1 ≤ p.size ∧ (p.byte 0 &&& PACKET_TYPE_MASK = INFORMATION_FRAME → 2 ≤ p.size ∧
    (p.byte 1 = API_PROG_ID → 5 ≤ p.size ∨ p.size = 4 ∧
      p.byte 3 ≠ low api.API_FP_GET_FW_VERSION_CFM ∧
      (reset_ind = 0 → p.byte 3 ≠ low api.API_FP_RESET_IND)))

theorem sees_iff_settled (api : Api) {s : Link Int} (hs : s.session.tx_fifo = []) (p : packet_t) :
    SeesOnlyThePacket (busmail_dispatch (application_frame api)) s p ↔ Settled api s.app p := by
  constructor
  · intro h
    obtain ⟨h0, htwo⟩ := sees_two_bytes h
    refine ⟨h0, fun htype => ⟨htwo htype, fun hid => ?_⟩⟩
    have h1 : 2 ≤ p.size := htwo htype
    by_contra hnot
    have hsize : p.size ≤ 4 := by omega
    have hp : Accepted p := ⟨htype, hid⟩
    obtain ⟨p2, hp2, hq1, hq2, -⟩ := exists_quiet api hsize
    have hquiet : application_frame api s.app p2 = (s.app, []) :=
      application_frame_quiet (fun _ => hq1) hq2
    by_cases hversion : p.size = 4 → p.byte 3 = low api.API_FP_GET_FW_VERSION_CFM
    · -- The stale header is that of the version confirm.
      obtain ⟨p1, hp1, hm, -⟩ := exists_mail hsize _ 0 hversion
      have hcalls := application_frame_version hm s.app
      have hmails := application_frame_mails api s.app p1
      rw [hcalls] at hmails
      exact not_sees hp1 hp2 (dispatch_mails_ne hs (SamePacket.accepted hp1 h1 hp)
        (SamePacket.accepted hp2 h1 hp) hcalls hquiet hmails (.inr rfl)) h
    · have hreset : p.size = 4 ∧ s.app = 0 ∧ p.byte 3 = low api.API_FP_RESET_IND := by
        simp only [Classical.not_imp] at hversion
        refine ⟨hversion.1, ?_⟩
        by_contra hcase
        exact hnot (.inr ⟨hversion.1, hversion.2, fun happ hlow => hcase ⟨happ, hlow⟩⟩)
      obtain ⟨p1, hp1, hm, -⟩ := exists_mail hsize _ 0 fun _ => hreset.2.2
      have hcalls : application_frame api s.app p1 =
          (1, [.busmail_send api.ApiFpGetFwVersionReq]) := by
        unfold application_frame
        rw [if_pos hm, if_pos hreset.2.1]
      have hmails := application_frame_mails api s.app p1
      rw [hcalls] at hmails
      exact not_sees hp1 hp2 (dispatch_mails_ne hs (SamePacket.accepted hp1 h1 hp)
        (SamePacket.accepted hp2 h1 hp) hcalls hquiet hmails (.inl rfl)) h
  · rintro ⟨h0, hinfo⟩ p' hp'
    apply dispatch_congr (hp'.byte h0) (fun htype => hp'.byte (hinfo htype).1)
    intro hp
    rcases (hinfo hp.1).2 hp.2 with hsize | ⟨hsize, hversion, hreset⟩
    · have hm : mail_header p' = mail_header p := uint16At_same hp' (by omega)
      rw [application_frame, application_frame, hm]
    · have hquiet : ∀ q, q.byte 3 = p.byte 3 → application_frame api s.app q = (s.app, []) := by
        intro q hq
        refine application_frame_quiet (fun happ hm => hreset happ ?_) fun hm => hversion ?_
        · rw [← hq]
          exact (uint16At_eq_iff.mp hm).1
        · rw [← hq]
          exact (uint16At_eq_iff.mp hm).1
      rw [hquiet p' (hp'.byte (by omega)), hquiet p rfl]

end dect_prog.app

namespace dect_prog.nvs

open busmail

/-- What the dispatch in nvs mode reads is in the packet, or one byte of the mail header or of the
test primitive is enough to see that the mail is only acknowledged. -/
def Settled (api : Api) (reset_ind : Int) (p : packet_t) : Prop :=
  1 ≤ p.size ∧ (p.byte 0 &&& PACKET_TYPE_MASK = INFORMATION_FRAME → 2 ≤ p.size ∧
    (p.byte 1 = API_PROG_ID →
      (p.size = 4 ∧ p.byte 3 ≠ low api.API_FP_GET_FW_VERSION_CFM ∧
        p.byte 3 ≠ low api.RTX_EAP_HW_TEST_CFM ∧
        (reset_ind = 0 → p.byte 3 ≠ low api.API_FP_RESET_IND)) ∨
      5 ≤ p.size ∧ (mail_header p = api.RTX_EAP_HW_TEST_CFM →
        (p.size = 6 ∧ p.byte 5 ≠ low PT_CMD_SET_NVS ∧ p.byte 5 ≠ low PT_CMD_GET_NVS ∧
          p.byte 5 ≠ low PT_CMD_NVS_DEFAULT) ∨
        7 ≤ p.size ∧ (TestPrimitive p = PT_CMD_NVS_DEFAULT → 10 ≤ p.size))))

/-! ## Stale bytes that make a difference -/

theorem send0_mails {data : List UInt8} (h : 0 < data.length) :
    ∀ c ∈ [Call.busmail_send0 data], c.Mails := by
  intro c hc
  rw [List.mem_singleton.mp hc]
  exact ⟨_, rfl, h⟩

variable {api : Api} {s : Link Int} {p : packet_t}

/-- A mail header that is not in the packet. -/
theorem not_sees_mail_header (hs : s.session.tx_fifo = []) (hp : Accepted p) (h1 : 2 ≤ p.size)
    (hsize : p.size ≤ 4)
    (hcase : p.size = 4 → p.byte 3 = low api.API_FP_GET_FW_VERSION_CFM ∨
      p.byte 3 = low api.RTX_EAP_HW_TEST_CFM ∨
      s.app = 0 ∧ p.byte 3 = low api.API_FP_RESET_IND) :
    ¬ SeesOnlyThePacket (busmail_dispatch (application_frame api)) s p := by
  obtain ⟨p2, hp2, hq1, hq2, hq3⟩ := exists_quiet api hsize
  have hquiet : application_frame api s.app p2 = (s.app, []) :=
    application_frame_quiet (fun _ => hq1) hq2 hq3
  have hdiffers : ∀ {p1 : packet_t} {app1 : Int} {c : Call}, SamePacket p p1 →
      application_frame api s.app p1 = (app1, [c]) → c.Mails →
      ¬ SeesOnlyThePacket (busmail_dispatch (application_frame api)) s p :=
    fun hp1 hcalls hc => not_sees hp1 hp2 (dispatch_mails_ne hs (SamePacket.accepted hp1 h1 hp)
      (SamePacket.accepted hp2 h1 hp) hcalls hquiet (by simpa using hc) (.inl rfl))
  by_cases hversion : p.size = 4 → p.byte 3 = low api.API_FP_GET_FW_VERSION_CFM
  · obtain ⟨p1, hp1, hm, -⟩ := exists_mail hsize _ 0 hversion
    exact hdiffers hp1 (application_frame_version hm s.app) ⟨_, rfl, by decide⟩
  · simp only [Classical.not_imp] at hversion
    rcases hcase hversion.1 with hlow | hlow | ⟨happ, hlow⟩
    · exact absurd hlow hversion.2
    · obtain ⟨p1, hp1, hm, ht⟩ := exists_mail hsize _ PT_CMD_SET_NVS fun _ => hlow
      have hcalls := application_frame_rtx hm s.app
      rw [rtx_set ht] at hcalls
      exact hdiffers hp1 hcalls ⟨_, rfl, by decide⟩
    · obtain ⟨p1, hp1, hm, -⟩ := exists_mail hsize _ 0 fun _ => hlow
      have hcalls : application_frame api s.app p1 =
          (1, [.busmail_send api.ApiFpGetFwVersionReq]) := by
        unfold application_frame
        rw [if_pos hm, if_pos happ]
      exact hdiffers hp1 hcalls ⟨_, rfl, api.version_length⟩

/-- A test primitive that is not in the packet, or only its low byte. -/
theorem not_sees_TestPrimitive (hs : s.session.tx_fifo = []) (hp : Accepted p)
    (hm : mail_header p = api.RTX_EAP_HW_TEST_CFM) (h5 : 5 ≤ p.size) (h6 : p.size ≤ 6)
    (hcase : p.size = 6 → p.byte 5 = low PT_CMD_SET_NVS ∨ p.byte 5 = low PT_CMD_GET_NVS ∨
      p.byte 5 = low PT_CMD_NVS_DEFAULT) :
    ¬ SeesOnlyThePacket (busmail_dispatch (application_frame api)) s p := by
  obtain ⟨p2, hp2, hf2⟩ := exists_stale p fun _ => 0
  have hhigh : p2.byte 6 = 0 := hf2 6 (by omega) (by decide)
  have hne : ∀ t : UInt16, high t ≠ 0 → TestPrimitive p2 ≠ t :=
    fun t ht h => ht ((uint16At_eq_iff.mp h).2.symm.trans hhigh)
  have hm2 : mail_header p2 = api.RTX_EAP_HW_TEST_CFM := (uint16At_same hp2 (by omega)).trans hm
  have hquiet := application_frame_rtx hm2 s.app
  rw [rtx_quiet (hne _ (by decide)) (hne _ (by decide)) (hne _ (by decide))] at hquiet
  have hacc2 : Accepted p2 := SamePacket.accepted hp2 (by omega) hp
  -- The other packet: a test primitive that fits the low byte, and a good result.
  have hother : ∀ t : UInt16, (p.size = 6 → p.byte 5 = low t) → ∃ p1, SamePacket p p1 ∧
      TestPrimitive p1 = t ∧ p1.byte 9 = api.RSS_SUCCESS := by
    intro t ht
    obtain ⟨p1, hp1, hf1⟩ := exists_stale p fun i =>
      if i = 5 then low t else if i = 6 then high t else api.RSS_SUCCESS
    refine ⟨p1, hp1, uint16At_eq_iff.mpr ⟨?_, hf1 6 h6 (by decide)⟩, hf1 9 (by omega) (by decide)⟩
    by_cases hsize : p.size = 6
    · rw [hp1.byte (by omega)]
      exact ht hsize
    · exact hf1 5 (by omega) (by decide)
  have hmails : ∀ {p1 : packet_t} {data : List UInt8}, SamePacket p p1 → 0 < data.length →
      rtx_eap_hw_test_cfm api p1 = [.busmail_send0 data] →
      ¬ SeesOnlyThePacket (busmail_dispatch (application_frame api)) s p := by
    intro p1 data hp1 hdata hcalls
    have hrtx := application_frame_rtx ((uint16At_same hp1 (by omega)).trans hm) s.app
    rw [hcalls] at hrtx
    exact not_sees hp1 hp2 (dispatch_mails_ne hs (SamePacket.accepted hp1 (by omega) hp) hacc2 hrtx
      hquiet (send0_mails hdata) (.inl rfl))
  by_cases hset : p.size = 6 → p.byte 5 = low PT_CMD_SET_NVS
  · obtain ⟨p1, hp1, ht, -⟩ := hother _ hset
    exact hmails hp1 (by decide) (rtx_set ht)
  · simp only [Classical.not_imp] at hset
    rcases hcase hset.1 with hlow | hlow | hlow
    · exact absurd hlow hset.2
    · -- The process exits, or it does not.
      obtain ⟨p1, hp1, ht, -⟩ := hother _ fun _ => hlow
      have hlast : Last api p1 := ⟨(uint16At_same hp1 (by omega)).trans hm, ht⟩
      apply not_sees hp1 hp2
      rw [nvs_dispatch_last s (SamePacket.accepted hp1 (by omega) hp) hlast,
        dispatch_mails hacc2 hs hquiet (by simp)]
      exact fun h => by cases h
    · obtain ⟨p1, hp1, ht, h9⟩ := hother _ fun _ => hlow
      exact hmails hp1 (by decide) (rtx_default_success ht h9)

/-- A result that is not in the packet. -/
theorem not_sees_result (hs : s.session.tx_fifo = []) (hp : Accepted p)
    (hm : mail_header p = api.RTX_EAP_HW_TEST_CFM) (ht : TestPrimitive p = PT_CMD_NVS_DEFAULT)
    (h7 : 7 ≤ p.size) (h9 : p.size ≤ 9) :
    ¬ SeesOnlyThePacket (busmail_dispatch (application_frame api)) s p := by
  obtain ⟨p1, hp1, hf1⟩ := exists_stale p fun _ => api.RSS_SUCCESS
  obtain ⟨p2, hp2, hf2⟩ := exists_stale p fun _ => api.RSS_PENDING
  have hrtx : ∀ {p'}, SamePacket p p' →
      application_frame api s.app p' = (s.app, rtx_eap_hw_test_cfm api p') :=
    fun hp' => application_frame_rtx ((uint16At_same hp' (by omega)).trans hm) s.app
  have hprimitive : ∀ {p'}, SamePacket p p' → TestPrimitive p' = PT_CMD_NVS_DEFAULT :=
    fun hp' => (uint16At_same hp' (by omega)).trans ht
  have hcalls := hrtx hp1
  rw [rtx_default_success (hprimitive hp1) (hf1 9 h9 (by decide))] at hcalls
  have hquiet := hrtx hp2
  rw [rtx_default (hprimitive hp2), if_pos (hf2 9 h9 (by decide))] at hquiet
  exact not_sees hp1 hp2 (dispatch_mails_ne hs (SamePacket.accepted hp1 (by omega) hp)
    (SamePacket.accepted hp2 (by omega) hp) hcalls hquiet (send0_mails (by decide)) (.inl rfl))

/-! ## Packets that are settled -/

theorem rtx_eap_hw_test_cfm_same {p' : packet_t} (hp' : SamePacket p p') (h7 : 7 ≤ p.size)
    (h10 : TestPrimitive p = PT_CMD_NVS_DEFAULT → 10 ≤ p.size) :
    rtx_eap_hw_test_cfm api p' = rtx_eap_hw_test_cfm api p := by
  have ht : TestPrimitive p' = TestPrimitive p := uint16At_same hp' (by omega)
  by_cases hdefault : TestPrimitive p = PT_CMD_NVS_DEFAULT
  · have := h10 hdefault
    rw [rtx_default hdefault, rtx_default (ht.trans hdefault), hp'.byte (by omega)]
  · rw [rtx_eap_hw_test_cfm, rtx_eap_hw_test_cfm, ht, if_neg hdefault, if_neg hdefault]

theorem sees_of_settled (h : Settled api s.app p) :
    SeesOnlyThePacket (busmail_dispatch (application_frame api)) s p := by
  obtain ⟨h0, hinfo⟩ := h
  intro p' hp'
  apply dispatch_congr (hp'.byte h0) (fun htype => hp'.byte (hinfo htype).1)
  intro hp
  rcases (hinfo hp.1).2 hp.2 with ⟨hsize, hversion, hrtx, hreset⟩ | ⟨hsize, hrtx⟩
  · have hlow : ∀ {q : packet_t} {c : UInt16}, q.byte 3 = p.byte 3 → p.byte 3 ≠ low c →
        mail_header q ≠ c := by
      intro q c hq hc hm
      rw [← hq] at hc
      exact hc (uint16At_eq_iff.mp hm).1
    have hquiet : ∀ q, q.byte 3 = p.byte 3 → application_frame api s.app q = (s.app, []) :=
      fun q hq => application_frame_quiet (fun happ => hlow hq (hreset happ)) (hlow hq hversion)
        (hlow hq hrtx)
    rw [hquiet p' (hp'.byte (by omega)), hquiet p rfl]
  · have hm : mail_header p' = mail_header p := uint16At_same hp' (by omega)
    by_cases hrtx' : mail_header p = api.RTX_EAP_HW_TEST_CFM
    · rw [application_frame_rtx hrtx', application_frame_rtx (hm.trans hrtx')]
      rcases hrtx hrtx' with ⟨h6, hset, hget, hdefault⟩ | ⟨h7, h10⟩
      · have hquiet : ∀ q, q.byte 5 = p.byte 5 → rtx_eap_hw_test_cfm api q = [] := by
          intro q hq
          rw [← hq] at hset hget hdefault
          exact rtx_quiet (fun ht => hset (uint16At_eq_iff.mp ht).1)
            (fun ht => hget (uint16At_eq_iff.mp ht).1)
            (fun ht => hdefault (uint16At_eq_iff.mp ht).1)
        rw [hquiet p' (hp'.byte (by omega)), hquiet p rfl]
      · rw [rtx_eap_hw_test_cfm_same hp' h7 h10]
    · rw [application_frame, application_frame, hm, if_neg hrtx', if_neg hrtx']

theorem sees_iff_settled (hs : s.session.tx_fifo = []) :
    SeesOnlyThePacket (busmail_dispatch (application_frame api)) s p ↔ Settled api s.app p := by
  refine ⟨fun h => ?_, sees_of_settled⟩
  obtain ⟨h0, htwo⟩ := sees_two_bytes h
  refine ⟨h0, fun htype => ⟨htwo htype, fun hid => ?_⟩⟩
  have h1 : 2 ≤ p.size := htwo htype
  have hp : Accepted p := ⟨htype, hid⟩
  by_cases h5 : 5 ≤ p.size
  · refine .inr ⟨h5, fun hm => ?_⟩
    by_cases h7 : 7 ≤ p.size
    · refine .inr ⟨h7, fun ht => ?_⟩
      by_contra h10
      exact not_sees_result hs hp hm ht h7 (by omega) h
    · left
      by_contra hnot
      refine not_sees_TestPrimitive hs hp hm h5 (by omega) (fun h6 => ?_) h
      by_contra hcase
      simp only [not_or] at hcase
      exact hnot ⟨h6, hcase⟩
  · left
    by_contra hnot
    refine not_sees_mail_header hs hp h1 (by omega) (fun h4 => ?_) h
    by_contra hcase
    simp only [not_or, not_and] at hcase
    exact hnot ⟨h4, hcase.1, hcase.2.1, hcase.2.2⟩

end dect_prog.nvs

namespace dect_prog

open busmail flashloader

/-! ## The law -/

/-- A dispatch, in any state of the flash loader in which its effect is defined and in any state
that app mode or nvs mode can be in, depends on nothing but the packet exactly when the packet is
settled. -/
theorem a_dispatch_sees_only_the_packet_iff_it_is_settled (p : packet_t) :
    (∀ l : Loader, flashloader_dispatch l p ≠ .undefined →
      (SeesOnlyThePacket flashloader_dispatch l p ↔ flashloader.Settled l p)) ∧
    (∀ (api : Api) (ps : List packet_t) (s : Link Int),
      linkRun (app.application_frame api) ⟨busmail_init, 0⟩ ps = .running s →
      (SeesOnlyThePacket (busmail_dispatch (app.application_frame api)) s p ↔
        app.Settled api s.app p)) ∧
    ∀ (api : Api) (ps : List packet_t) (s : Link Int),
      linkRun (nvs.application_frame api) ⟨busmail_init, 0⟩ ps = .running s →
      (SeesOnlyThePacket (busmail_dispatch (nvs.application_frame api)) s p ↔
        nvs.Settled api s.app p) :=
  ⟨fun _ hdef => flashloader.sees_iff_settled hdef,
    fun api ps _ h => app.sees_iff_settled api (linkRun_tx_fifo _ ps rfl h) p,
    fun _ ps _ h => nvs.sees_iff_settled (linkRun_tx_fifo _ ps rfl h)⟩

/-- A program confirm of eight bytes. -/
theorem a_dispatch_sees_only_the_packet_iff_it_is_settled_for_a_program_confirm :
    SeesOnlyThePacket flashloader_dispatch oneByteLoader
      (blank.carry [PROG_FLASH_CFM, 0, 0, 0, 0, 0, 0, TRUE] (by decide)) := by
  have hdef : flashloader_dispatch oneByteLoader
      (blank.carry [PROG_FLASH_CFM, 0, 0, 0, 0, 0, 0, TRUE] (by decide)) =
        .running (calc_crc32_req oneByteLoader) := rfl
  refine ((a_dispatch_sees_only_the_packet_iff_it_is_settled _).1 _ (by rw [hdef]; simp)).mpr
    ⟨by decide, by decide, fun _ => .inl (by decide), fun h => ?_⟩
  exact absurd h (by decide)

/-- The frame with which busmail.c acknowledges has one byte, and a dispatch reads two of it. A
checksum confirm of one byte ends the flash loader with the one status or the other. -/
theorem short_packets_mix_with_stale_bytes :
    (¬ SeesOnlyThePacket (busmail_dispatch (app.application_frame headers)) ⟨busmail_init, 0⟩
      (blank.carry [0x01] (by decide))) ∧
    (¬ SeesOnlyThePacket (busmail_dispatch (nvs.application_frame headers)) ⟨busmail_init, 0⟩
      (blank.carry [0x01] (by decide))) ∧
    ¬ SeesOnlyThePacket flashloader_dispatch oneByteLoader
      (blank.carry [CALC_CRC32_CFM] (by decide)) := by
  refine ⟨not_sees_no_program_id (by decide) rfl, not_sees_no_program_id (by decide) rfl,
    not_sees_checksum rfl (by decide) (by decide) fun i hi hin => ?_⟩
  simp at hin

end dect_prog
