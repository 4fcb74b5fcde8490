-- The sequence numbers in the headers of busmail.c, over whole runs: the number
-- of each information frame that is sent, and the number that is acknowledged.
import DectProg.SessionSteps

open dect_prog.package Relation

namespace dect_prog.busmail

/-! ## The fields of a header -/

/-- The header of an information frame with the `k`-th number, next to any acknowledged number
that the session can have. -/
theorem info_header_fields : ∀ (t : UInt8) (r : Fin 9),
    let h := (t <<< TX_SEQ_OFFSET) ||| (PF <<< PF_OFFSET) ||| UInt8.ofNat r
    (h &&& PACKET_TYPE_MASK = INFORMATION_FRAME ↔ t.toNat % 16 < 8) ∧
      ((h &&& TX_SEQ_MASK) >>> TX_SEQ_OFFSET).toNat = t.toNat % 8 ∧ h &&& PF_MASK ≠ 0 := by
  apply forall_byte
  decide +kernel

/-- The field RX_SEQ of both encoders. -/
theorem rx_seq_field : ∀ (t : UInt8) (r : Fin 9),
    (((t <<< TX_SEQ_OFFSET) ||| (PF <<< PF_OFFSET) ||| UInt8.ofNat r) &&& RX_SEQ_MASK).toNat =
        r % 8 ∧
      ((t <<< TX_SEQ_OFFSET) ||| (PF <<< PF_OFFSET) ||| UInt8.ofNat r) &&& PF_MASK =
        PF <<< PF_OFFSET := by
  apply forall_byte
  decide +kernel

/-- The field TX_SEQ of a received header. -/
def txSeq (p : packet_t) : Nat := ((p.byte 0 &&& TX_SEQ_MASK) >>> TX_SEQ_OFFSET).toNat

theorem accept_rx_seq_l (s : Session) (h : UInt8) :
    (accept s h).rx_seq_l.toNat =
      if ((h &&& TX_SEQ_MASK) >>> TX_SEQ_OFFSET).toNat = 6 then 0
      else ((h &&& TX_SEQ_MASK) >>> TX_SEQ_OFFSET).toNat + 1 := by
  have : ∀ h : UInt8, (if (h &&& TX_SEQ_MASK) >>> TX_SEQ_OFFSET + 1 = 7 then (0 : UInt8)
      else (h &&& TX_SEQ_MASK) >>> TX_SEQ_OFFSET + 1).toNat =
      if ((h &&& TX_SEQ_MASK) >>> TX_SEQ_OFFSET).toNat = 6 then 0
      else ((h &&& TX_SEQ_MASK) >>> TX_SEQ_OFFSET).toNat + 1 := by
    apply forall_byte
    decide +kernel
  exact this h

theorem txSeq_lt (p : packet_t) : txSeq p < 8 := by
  have : ∀ h : UInt8, ((h &&& TX_SEQ_MASK) >>> TX_SEQ_OFFSET).toNat < 8 := by
    apply forall_byte
    decide +kernel
  exact this (p.byte 0)

/-! ## The number of an information frame -/

/-- The number of information frames since the start or since the last reset was answered. -/
def sequence (tty : List Sent) : Nat :=
  tty.foldl (fun k f => match f with
    | .information _ _ _ => k + 1
    | .acknowledgement _ => k
    | .unnumbered _ => 0) 0

theorem sequence_append (tty : List Sent) (f : Sent) :
    sequence (tty ++ [f]) = match f with
      | .information _ _ _ => sequence tty + 1
      | .acknowledgement _ => sequence tty
      | .unnumbered _ => 0 := by
  simp only [sequence, List.foldl_append, List.foldl_cons, List.foldl_nil]

/-- The header of the `k`-th information frame is as the receiver of it expects: the frame type,
the number and the poll bit. -/
def Numbered (h : UInt8) (k : Nat) : Prop :=
  h &&& PACKET_TYPE_MASK = INFORMATION_FRAME ∧
  ((h &&& TX_SEQ_MASK) >>> TX_SEQ_OFFSET).toNat = k % 8 ∧ h &&& PF_MASK ≠ 0

/-- What holds between the counters and the frames that were sent. -/
structure Counts (s : Session) : Prop where
  rx_seq_l : s.rx_seq_l.toNat ≤ 8
  tx_seq_l : s.tx_seq_l.toNat = sequence s.tty % 256
  headers : ∀ tty1 h task_id mail tty2, s.tty = tty1 ++ .information h task_id mail :: tty2 →
    (Numbered h (sequence tty1) ↔ sequence tty1 % 16 < 8)

theorem append_eq_split {α : Type} {xs ys zs : List α} {x y : α} (h : xs ++ [x] = ys ++ y :: zs) :
    xs = ys ∧ x = y ∧ zs = [] ∨ ∃ zs', xs = ys ++ y :: zs' ∧ zs = zs' ++ [x] := by
  rcases List.eq_nil_or_concat' zs with rfl | ⟨zs', z, rfl⟩
  · obtain ⟨h1, h2⟩ := List.append_inj' h rfl
    cases h2
    exact .inl ⟨h1, rfl, rfl⟩
  · have h' : xs ++ [x] = (ys ++ y :: zs') ++ [z] := by rw [h]; simp
    obtain ⟨h1, h2⟩ := List.append_inj' h' rfl
    cases h2
    exact .inr ⟨zs', h1, rfl⟩

/-- A frame that is no information frame changes nothing about those before it. -/
theorem headers_append {tty : List Sent} {f : Sent} (hf : ∀ h t m, f ≠ .information h t m)
    (h : ∀ tty1 h task_id mail tty2, tty = tty1 ++ .information h task_id mail :: tty2 →
      (Numbered h (sequence tty1) ↔ sequence tty1 % 16 < 8)) :
    ∀ tty1 h task_id mail tty2, tty ++ [f] = tty1 ++ .information h task_id mail :: tty2 →
      (Numbered h (sequence tty1) ↔ sequence tty1 % 16 < 8) := by
  intro tty1 hd t m tty2 heq
  rcases append_eq_split heq with ⟨-, hx, -⟩ | ⟨tty2', heq', -⟩
  · exact absurd hx (hf hd t m)
  · exact h tty1 hd t m tty2' heq'

theorem Counts.emits {s s' : Session} (h : Counts s) (hs : Emits s s') : Counts s' := by
  cases hs with
  | fifo tx_fifo => exact ⟨h.rx_seq_l, h.tx_seq_l, h.headers⟩
  | tx data task_id =>
    have hr := h.rx_seq_l
    have ht := h.tx_seq_l
    refine ⟨hr, ?_, ?_⟩
    · simp only [busmail_tx, sequence_append, UInt8.toNat_add, ht]
      have : (1 : UInt8).toNat = 1 := rfl
      omega
    · intro tty1 hd t m tty2 heq
      rcases append_eq_split heq with ⟨rfl, hx, -⟩ | ⟨tty2', heq', -⟩
      · -- The frame that is sent now.
        cases hx
        have hfields := info_header_fields s.tx_seq_l ⟨s.rx_seq_l.toNat, by omega⟩
        simp only [UInt8.ofNat_toNat] at hfields
        obtain ⟨htype, hseq, hpf⟩ := hfields
        have hmod : s.tx_seq_l.toNat % 16 = sequence s.tty % 16 := by omega
        rw [hmod] at htype
        constructor
        · exact fun hn => htype.mp hn.1
        · exact fun hk => ⟨htype.mpr hk, by rw [make_info_frame, hseq]; omega, hpf⟩
      · exact h.headers tty1 hd t m tty2' heq'
  | ack =>
    refine ⟨h.rx_seq_l, ?_, headers_append (by simp) h.headers⟩
    simp only [busmail_ack, sequence_append]
    exact h.tx_seq_l

theorem Counts.emitted {s s' : Session} (h : Counts s) (hs : ReflTransGen Emits s s') :
    Counts s' := by
  induction hs with
  | refl => exact h
  | tail _ hlast ih => exact ih.emits hlast

theorem Counts.handles {s s' : Session} {p : packet_t} (h : Counts s) (hs : Handles s p s') :
    Counts s' := by
  cases hs with
  | accepted hp hemits =>
    have hr := accept_rx_seq_l s (p.byte 0)
    have hlt := txSeq_lt p
    have hstart : Counts (accept s (p.byte 0)) := by
      refine ⟨?_, h.tx_seq_l, h.headers⟩
      rw [hr]
      unfold txSeq at hlt
      split <;> omega
    exact hstart.emitted hemits
  | reset hp =>
    refine ⟨by simp, ?_, headers_append (by simp) h.headers⟩
    simp only [sequence_append]
    rfl
  | supervisory hp => exact ⟨h.rx_seq_l, h.tx_seq_l, h.headers⟩
  | nothing hp => exact h

theorem counts_init : Counts busmail_init := by
  refine ⟨by decide, rfl, ?_⟩
  intro tty1 h t m tty2 heq
  exact absurd heq (by simp [busmail_init])

variable {κ : Type}

/-- In every run the headers of the information frames are right for the numbers below 8, and
then again from 16 on: the counter is not cut to three bits. -/
theorem information_frames_are_numbered_below_eight (application_frame : Callback κ) (app : κ)
    (ps : List packet_t) (s : Link κ)
    (h : (linkRun application_frame ⟨busmail_init, app⟩ ps).last = some s) :
    ∀ tty1 header task_id mail tty2,
      s.session.tty = tty1 ++ .information header task_id mail :: tty2 →
      (Numbered header (sequence tty1) ↔ sequence tty1 % 16 < 8) :=
  have hcounts : Counts s.session :=
    linkRun_invariant (fun _ _ _ hs hh => hs.handles hh) application_frame ps counts_init h
  hcounts.headers

/-- Nine frames that are each answered with a mail. The ninth answer has bit 7 set. -/
theorem the_ninth_information_frame_is_no_information_frame :
    ¬ ∀ (κ : Type) (application_frame : Callback κ) (app : κ) (ps : List packet_t) (s : Link κ),
      (linkRun application_frame ⟨busmail_init, app⟩ ps).last = some s →
      ∀ tty1 header task_id mail tty2,
        s.session.tty = tty1 ++ .information header task_id mail :: tty2 →
        Numbered header (sequence tty1) := by
  intro h
  have hnine := h Unit (fun app _ => (app, [.busmail_send [1]])) () (List.replicate 9 blank)
    ⟨⟨[], 9, 1, 0, 0,
      (List.range 9).map fun k => .information (UInt8.ofNat (16 * k + 9)) 1 [1]⟩, ()⟩ rfl
    ((List.range 8).map fun k => .information (UInt8.ofNat (16 * k + 9)) 1 [1])
    0x89 1 [1] [] rfl
  exact absurd hnine.1 (by decide)

/-- One frame that is answered with a mail. -/
theorem information_frames_are_numbered_below_eight_for_one_mail :
    ∃ s : Link Unit, (linkRun (fun app _ => (app, [.busmail_send [1]])) ⟨busmail_init, ()⟩
        [blank]).last = some s ∧ s.session.tty = [.information 0x09 1 [1]] ∧ Numbered 0x09 0 :=
  ⟨⟨⟨[], 1, 1, 0, 0, [.information 0x09 1 [1]]⟩, ()⟩, rfl, rfl,
    (information_frames_are_numbered_below_eight (fun app _ => (app, [.busmail_send [1]])) ()
      [blank] _ rfl [] 0x09 1 [1] [] rfl).mpr (by decide)⟩

end dect_prog.busmail
