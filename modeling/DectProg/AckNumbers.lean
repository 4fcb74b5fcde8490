-- The number that busmail.c acknowledges, over whole runs. The counter wraps
-- around one step too early, and then spills into the bit next to its field.
import DectProg.SequenceNumbers

open dect_prog.package Relation

namespace dect_prog.busmail

/-- The fields of the two encoders, for the numbers that a session can acknowledge. -/
theorem ack_header_fields : ∀ r : Fin 9,
    (((SUID_RR <<< SUID_OFFSET) ||| (NO_PF <<< PF_OFFSET) ||| UInt8.ofNat r) &&&
        RX_SEQ_MASK).toNat = r % 8 ∧
      (((SUID_RR <<< SUID_OFFSET) ||| (NO_PF <<< PF_OFFSET) ||| UInt8.ofNat r) &&& PF_MASK =
        NO_PF <<< PF_OFFSET ↔ r.val < 8) := by
  decide +kernel

/-- The header has `n` in its field RX_SEQ, and the poll bit that the caller asked for. -/
def Carries (n : Nat) : Sent → Prop
  | .information h _ _ => (h &&& RX_SEQ_MASK).toNat = n ∧ h &&& PF_MASK = PF <<< PF_OFFSET
  | .acknowledgement h => (h &&& RX_SEQ_MASK).toNat = n ∧ h &&& PF_MASK = NO_PF <<< PF_OFFSET
  | .unnumbered _ => True

/-- The frames between two states were made with the number `r`. -/
structure MadeWith (r : UInt8) (s s' : Session) : Prop where
  rx_seq_l : s'.rx_seq_l = r
  frames : ∃ news, s'.tty = s.tty ++ news ∧ ∀ f ∈ news,
    (∃ t task_id mail, f = .information ((t <<< TX_SEQ_OFFSET) ||| (PF <<< PF_OFFSET) ||| r)
      task_id mail) ∨
    f = .acknowledgement ((SUID_RR <<< SUID_OFFSET) ||| (NO_PF <<< PF_OFFSET) ||| r)

theorem MadeWith.emits {r : UInt8} {s s1 s2 : Session} (h : MadeWith r s s1) (hs : Emits s1 s2) :
    MadeWith r s s2 := by
  obtain ⟨hr, news, htty, hnews⟩ := h
  cases hs with
  | fifo tx_fifo => exact ⟨hr, news, htty, hnews⟩
  | tx data task_id =>
    refine ⟨hr, news ++ [.information (make_info_frame s1 PF) task_id data], ?_, ?_⟩
    · simp [busmail_tx, htty]
    · intro f hf
      rcases List.mem_append.mp hf with hf | hf
      · exact hnews f hf
      · rw [List.mem_singleton.mp hf, ← hr]
        exact .inl ⟨s1.tx_seq_l, task_id, data, rfl⟩
  | ack =>
    refine ⟨hr, news ++ [.acknowledgement (make_supervisory_frame s1 SUID_RR NO_PF)], ?_, ?_⟩
    · simp [busmail_ack, htty]
    · intro f hf
      rcases List.mem_append.mp hf with hf | hf
      · exact hnews f hf
      · rw [List.mem_singleton.mp hf, ← hr]
        exact .inr rfl

theorem madeWith_emitted {s s' : Session} {h : UInt8} (hs : ReflTransGen Emits (accept s h) s') :
    MadeWith (accept s h).rx_seq_l s s' := by
  induction hs with
  | refl => exact ⟨rfl, [], by simp [accept], by simp⟩
  | tail _ hlast ih => exact ih.emits hlast

/-! ## An accepted frame is answered -/

theorem emits_tty_length {s s' : Session} (hs : ReflTransGen Emits s s') :
    s.tty.length ≤ s'.tty.length := by
  induction hs with
  | refl => exact Nat.le_refl _
  | tail _ hlast ih =>
    cases hlast with
    | fifo tx_fifo => exact ih
    | tx data task_id => simp only [busmail_tx, List.length_append]; omega
    | ack => simp only [busmail_ack, List.length_append]; omega

/-- The loop sends a frame, or it leaves `ack` as it was. -/
theorem transmit_sends (fifo : List tx_packet_t) :
    ∀ {s s' : Session} {ack ack' : Bool}, transmit fifo s ack = .running (s', ack') →
      ack' = ack ∨ s.tty.length < s'.tty.length := by
  induction fifo with
  | nil =>
    intro s s' ack ack' h
    cases h
    exact .inl rfl
  | cons tx fifo ih =>
    intro s s' ack ack' h
    simp only [transmit] at h
    split at h
    · have hlen := emits_tty_length (transmit_emits fifo (r := (s', ack')) (by rw [h]; rfl))
      simp only [busmail_tx, List.length_append, List.length_singleton] at hlen
      exact .inr (by omega)
    · cases h

variable {κ : Type}

theorem accepted_is_answered {application_frame : Callback κ} {s s' : Link κ} {p : packet_t}
    (hp : Accepted p) (h : busmail_dispatch application_frame s p = .running s') :
    s.session.tty.length < s'.session.tty.length := by
  rw [busmail_dispatch, if_pos hp.1] at h
  obtain ⟨session, session', ack, hperform, htransmit, hs'⟩ := information_frame_running hp.2 h
  have hfirst := emits_tty_length (perform_emits _ (by rw [hperform]; rfl))
  have htty : (accept s.session (p.byte 0)).tty = s.session.tty := rfl
  rw [htty] at hfirst
  rw [hs']
  cases ack with
  | true =>
    have hthen := emits_tty_length
      (transmit_emits session.tx_fifo (r := (session', true)) (by rw [htransmit]; rfl))
    simp only [if_true, busmail_ack, List.length_append, List.length_singleton]
    dsimp only at hthen
    omega
  | false =>
    rcases transmit_sends session.tx_fifo htransmit with hack | hlt
    · cases hack
    · simp only [Bool.false_eq_true, if_false]
      omega

/-! ## One frame -/

/-- The frames that answer `p` acknowledge it. -/
def Acknowledges (s : Session) (p : packet_t) (s' : Session) : Prop :=
  s'.rx_seq_l.toNat < 8 ∧
  (Accepted p → ∀ f ∈ s'.tty.drop s.tty.length, Carries ((txSeq p + 1) % 8) f)

theorem madeWith_carries {r n : Nat} (hr : r < 9) (hn : n = r % 8) {f : Sent}
    (hf : (∃ t task_id mail, f = .information ((t <<< TX_SEQ_OFFSET) ||| (PF <<< PF_OFFSET) |||
        UInt8.ofNat r) task_id mail) ∨
      f = .acknowledgement ((SUID_RR <<< SUID_OFFSET) ||| (NO_PF <<< PF_OFFSET) ||| UInt8.ofNat r))
    (hlt : r < 8) : Carries n f := by
  rcases hf with ⟨t, task_id, mail, rfl⟩ | rfl
  · obtain ⟨h1, h2⟩ := rx_seq_field t ⟨r, hr⟩
    exact ⟨h1.trans hn.symm, h2⟩
  · obtain ⟨h1, h2⟩ := ack_header_fields ⟨r, hr⟩
    exact ⟨h1.trans hn.symm, h2.mpr hlt⟩

/-- Numbers below 6 are acknowledged as they should. -/
theorem acknowledges_of_lt {s s' : Session} {p : packet_t} (hs : s.rx_seq_l.toNat < 8)
    (hhandles : Handles s p s') (hp : Accepted p → txSeq p < 6) : Acknowledges s p s' := by
  cases hhandles with
  | accepted hacc hemits =>
    have hlt := hp hacc
    have hr : (accept s (p.byte 0)).rx_seq_l.toNat = txSeq p + 1 := by
      rw [accept_rx_seq_l]
      exact if_neg (Nat.ne_of_lt hlt)
    obtain ⟨hrx, news, htty, hnews⟩ := madeWith_emitted hemits
    refine ⟨by rw [hrx, hr]; omega, fun _ f hf => ?_⟩
    rw [htty, List.drop_left] at hf
    have hshape := hnews f hf
    rw [← UInt8.ofNat_toNat (x := (accept s (p.byte 0)).rx_seq_l), hr] at hshape
    exact madeWith_carries (by omega) rfl hshape (by omega)
  | reset hreset =>
    refine ⟨by simp, fun hacc => ?_⟩
    exact absurd hacc.1 (by rw [hreset]; decide)
  | supervisory hcontrol =>
    refine ⟨hs, fun hacc => ?_⟩
    exact absurd hacc.1 (by rw [hcontrol]; decide)
  | nothing hnot => exact ⟨hs, fun hacc => absurd hacc hnot⟩

/-- From 6 on they are not. -/
theorem lt_of_acknowledges {s s' : Session} {p : packet_t} (hacc : Accepted p)
    (hhandles : Handles s p s') (hlonger : s.tty.length < s'.tty.length)
    (h : Acknowledges s p s') : txSeq p < 6 := by
  cases hhandles with
  | accepted _ hemits =>
    have hlt := txSeq_lt p
    obtain ⟨hrx, news, htty, hnews⟩ := madeWith_emitted hemits
    have hr := accept_rx_seq_l s (p.byte 0)
    change _ = if txSeq p = 6 then 0 else txSeq p + 1 at hr
    by_contra hge
    by_cases h6 : txSeq p = 6
    · -- The number is 0 where 7 is due, and some frame carries it.
      rw [if_pos h6] at hr
      cases news with
      | nil => rw [htty] at hlonger; simp at hlonger
      | cons f news =>
        have hcarries := h.2 hacc f (by rw [htty, List.drop_left]; simp)
        have hshape := hnews f (by simp)
        rw [← UInt8.ofNat_toNat (x := (accept s (p.byte 0)).rx_seq_l), hr] at hshape
        rcases hshape with ⟨t, task_id, mail, rfl⟩ | rfl
        · have hfield := (rx_seq_field t 0).1
          have := hcarries.1.symm.trans hfield
          rw [h6] at this
          cases this
        · have hfield := (ack_header_fields 0).1
          have := hcarries.1.symm.trans hfield
          rw [h6] at this
          cases this
    · rw [if_neg h6] at hr
      have := h.1
      rw [hrx] at this
      omega
  | reset hreset => exact absurd hacc.1 (by rw [hreset]; decide)
  | supervisory hcontrol => exact absurd hacc.1 (by rw [hcontrol]; decide)
  | nothing hnot => exact absurd hacc hnot

/-! ## The law -/

/-- Each frame of a run is acknowledged as it should, and the counter stays below 8. -/
def Acknowledged (application_frame : Callback κ) : Link κ → List packet_t → Prop
  | _, [] => True
  | s, p :: ps =>
    (∀ s', (busmail_dispatch application_frame s p).last = some s' →
      Acknowledges s.session p s'.session) ∧
    ∀ s', busmail_dispatch application_frame s p = .running s' →
      Acknowledged application_frame s' ps

theorem acknowledged_of_lt (application_frame : Callback κ) (ps : List packet_t) :
    ∀ s : Link κ, s.session.rx_seq_l.toNat < 8 → (∀ p ∈ ps, Accepted p → txSeq p < 6) →
      Acknowledged application_frame s ps := by
  induction ps with
  | nil => exact fun s _ _ => trivial
  | cons p ps ih =>
    intro s hs hps
    have hstep : ∀ s', (busmail_dispatch application_frame s p).last = some s' →
        Acknowledges s.session p s'.session :=
      fun s' hd => acknowledges_of_lt hs (dispatch_handles hd) (hps p (by simp))
    refine ⟨hstep, fun s' hd => ?_⟩
    exact ih s' (hstep s' (by rw [hd]; rfl)).1 fun q hq => hps q (by simp [hq])

theorem lt_of_acknowledged (application_frame : Callback κ) (ps : List packet_t) :
    ∀ s s' : Link κ, linkRun application_frame s ps = .running s' →
      Acknowledged application_frame s ps → ∀ p ∈ ps, Accepted p → txSeq p < 6 := by
  induction ps with
  | nil => exact fun _ _ _ _ p hp => absurd hp (by simp)
  | cons q ps ih =>
    intro s s' hrun hack p hp hacc
    obtain ⟨s1, hd, hrest⟩ := linkRun_cons hrun
    rcases List.mem_cons.mp hp with rfl | hp
    · have hlast : (busmail_dispatch application_frame s p).last = some s1 := by rw [hd]; rfl
      exact lt_of_acknowledges hacc (dispatch_handles hlast) (accepted_is_answered hacc hd)
        (hack.1 s1 hlast)
    · exact ih s1 s' hrest (hack.2 s1 hd) p hp hacc

/-- A run acknowledges every frame as it should if the numbers of the frames are all below 6, and
a run in which every dispatch returns does so only then. -/
theorem numbers_are_acknowledged_below_six (application_frame : Callback κ) (app : κ)
    (ps : List packet_t) :
    ((∀ p ∈ ps, Accepted p → txSeq p < 6) →
      Acknowledged application_frame ⟨busmail_init, app⟩ ps) ∧
    ∀ s, linkRun application_frame ⟨busmail_init, app⟩ ps = .running s →
      Acknowledged application_frame ⟨busmail_init, app⟩ ps →
      ∀ p ∈ ps, Accepted p → txSeq p < 6 :=
  ⟨acknowledged_of_lt application_frame ps _ (show (0 : UInt8).toNat < 8 by decide),
    fun s => lt_of_acknowledged application_frame ps _ s⟩

/-- A frame with a header, for the application. -/
def frameOf (header : UInt8) : packet_t :=
  blank.carry [header, API_PROG_ID] (by simp [PACKET_SIZE])

/-- An application that calls nothing. -/
def silent : Callback Unit := fun app _ => (app, [])

/-- The frame with the number 7 is acknowledged with 8, and the 8 is in the poll bit. The frame
with the number 6 is acknowledged with 0, where 7 is due. -/
theorem six_and_seven_are_not_acknowledged :
    ¬ Acknowledged silent ⟨busmail_init, ()⟩ [frameOf 0x70] ∧
      ¬ Acknowledged silent ⟨busmail_init, ()⟩ [frameOf 0x60] := by
  have hseven : busmail_dispatch silent ⟨busmail_init, ()⟩ (frameOf 0x70) =
      .running ⟨⟨[], 0, 8, 7, 0, [.acknowledgement 0x08]⟩, ()⟩ := rfl
  have hsix : busmail_dispatch silent ⟨busmail_init, ()⟩ (frameOf 0x60) =
      .running ⟨⟨[], 0, 0, 6, 0, [.acknowledgement 0x00]⟩, ()⟩ := rfl
  constructor
  · intro h
    exact absurd (h.1 _ (by rw [hseven]; rfl)).1 (by decide)
  · intro h
    have hcarries := (h.1 _ (by rw [hsix]; rfl)).2 ⟨rfl, rfl⟩ (.acknowledgement 0x00)
      (by simp [busmail_init])
    exact absurd hcarries.1 (by decide)

/-- One frame with the number 5. -/
theorem numbers_are_acknowledged_below_six_for_five :
    Acknowledged silent ⟨busmail_init, ()⟩ [frameOf 0x50] :=
  (numbers_are_acknowledged_below_six silent () [frameOf 0x50]).1 fun p hp _ => by
    rw [List.mem_singleton.mp hp]
    exact (by decide : txSeq (frameOf 0x50) < 6)

end dect_prog.busmail
