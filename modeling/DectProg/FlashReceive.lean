-- The law of the flash receive path: the payloads of a stream of frames are
-- dispatched as they were sent exactly when no read ends at the end of a frame
-- whose checksum ends with an 'F'.
import DectProg.FlashCuts

open tape framing dect_prog.buffer dect_prog.package dect_prog.crc

namespace dect_prog.flashloader

/-- No read ends at the end of a frame whose checksum has the header byte as its high byte. -/
def CutsAreGood (payloads : List (List UInt8)) (es : List Event) : Prop :=
  ∀ es1 es2 ps1 p ps2, es = es1 ++ es2 → payloads = ps1 ++ p :: ps2 →
    es1.flatMap Event.bytes = (ps1 ++ [p]).flatMap make_tx_packet →
    (crc16 p >>> 8).toUInt8 ≠ UART_PACKET_HEADER

/-- What a recorder has written down when the run is over and the process lives. -/
def written (o : Outcome (List Delivery × buffer_t)) : Option (List Delivery) :=
  match o with
  | .running (log, _) => some log
  | _ => none

/-- No later events tell the buffer from a new one. -/
def Harmless (b : buffer_t) : Prop :=
  ∀ b0 es, buffer_new 5000 = some b0 → (∀ e ∈ es, 0 < e.incount) →
    Fits (handle_flashloader_package record) [] b es →
    Fits (handle_flashloader_package record) [] b0 es →
    written (receiveRun (handle_flashloader_package record) [] b es) =
      written (receiveRun (handle_flashloader_package record) [] b0 es)

theorem flash_gets (e : Event) (i : Nat) : Gets format 5000 (flashpacket_get (e.locals i)) :=
  flashpacket_get.spec _ 5000 (by decide) (by decide)

theorem flash_capacity : ((5000 : Nat) : Int) ≤ INT_MAX := by decide

/-- The buffer of the flash loader state, as it is made. -/
theorem flash_buffer : ∃ b0, buffer_new 5000 = some b0 ∧ Holds b0 ⟨List.replicate 5000 0, []⟩ :=
  buffer_new.spec 5000 (by decide) (by decide)

/-! ## The cuts, in the words of the format -/

theorem goodCuts_iff (payloads : List (List UInt8)) (es : List Event) :
    CutsAreGood payloads es ↔ format.GoodCuts [] (es.map Event.bytes) payloads := by
  constructor
  · intro h ds1 ds2 ps1 p ps2 hds hps hstream
    obtain ⟨es1, es2, rfl, rfl, rfl⟩ := List.map_eq_append_iff.mp hds
    rw [encode_getLast?]
    have := h es1 es2 ps1 p ps2 rfl hps (by rw [List.flatMap_def]; exact hstream)
    simpa [format] using this
  · intro h es1 es2 ps1 p ps2 hes hps hstream
    have := h (es1.map Event.bytes) (es2.map Event.bytes) ps1 p ps2 (by rw [hes, List.map_append])
      hps (by rw [List.nil_append, ← List.flatMap_def]; exact hstream)
    rw [encode_getLast?] at this
    simpa [format] using this

/-! ## What is left in the buffer -/

/-- The recorder on reads that fit, for a buffer that stands for `t`. -/
theorem flash_record {b : buffer_t} {t : Tape UInt8} (hb : Holds b t) (ht : t.size = 5000)
    {es : List Event} (h0 : ∀ e ∈ es, 0 < e.incount)
    (hfits : Fits (handle_flashloader_package record) [] b es) :
    (∃ b' t', receiveRun (handle_flashloader_package record) [] b es =
          .running ((format.receiveAll t.ahead (es.map Event.bytes)).1.map delivery, b') ∧
        Holds b' t' ∧ t'.size = 5000 ∧
        t'.ahead = (format.receiveAll t.ahead (es.map Event.bytes)).2 ∧
        ∀ q ∈ (format.receiveAll t.ahead (es.map Event.bytes)).1, q.length ≤ PACKET_SIZE) ∨
      receiveRun (handle_flashloader_package record) [] b es = .undefined ∧
        ∃ q ∈ (format.receiveAll t.ahead (es.map Event.bytes)).1, PACKET_SIZE < q.length :=
  receiveRun_record flash_capacity es (fun e _ => flash_gets e) h0 [] b t hb ht hfits

/-- A buffer without a header byte is as good as a new one. -/
theorem harmless_of_junk {b : buffer_t} {t : Tape UInt8} (hb : Holds b t) (ht : t.size = 5000)
    (hjunk : format.header ∉ t.ahead) : Harmless b := by
  intro b0 es hnew h0 hfits hfits0
  obtain ⟨b0', hnew', hb0⟩ := flash_buffer
  obtain rfl : b0 = b0' := Option.some.inj (hnew.symm.trans hnew')
  have hsame := format.receiveAll_junk [] (es.map Event.bytes) hjunk (reads_ne_nil h0)
  rw [List.append_nil] at hsame
  rcases flash_record hb ht h0 hfits with ⟨b1, _, hrun, _, _, _, hall⟩ | ⟨hrun, q, hq, hlong⟩
  · rcases flash_record hb0 (Tape.size_new 5000 0) h0 hfits0 with
      ⟨b2, _, hrun0, _⟩ | ⟨_, q, hq, hlong⟩
    · rw [hrun, hrun0, hsame]
      rfl
    · rw [← hsame] at hq
      exact absurd (hall q hq) (by omega)
  · rcases flash_record hb0 (Tape.size_new 5000 0) h0 hfits0 with
      ⟨b2, _, _, _, _, _, hall⟩ | ⟨hrun0, _⟩
    · rw [hsame] at hq
      exact absurd (hall q hq) (by omega)
    · rw [hrun, hrun0]

/-- A buffer that starts with a header byte that belongs to no frame swallows the next one. -/
theorem not_harmless_of_header {b : buffer_t} {t : Tape UInt8} (hb : Holds b t)
    (ht : t.size = 5000) (hheader : t.ahead = [format.header]) : ¬ Harmless b := by
  intro h
  obtain ⟨b0, hnew, hb0⟩ := flash_buffer
  have h0 : ∀ e ∈ [eventOf (make_tx_packet [0])], 0 < e.incount := by
    simp only [List.mem_singleton, forall_eq]
    decide
  have hfits : Fits (handle_flashloader_package record) [] b [eventOf (make_tx_packet [0])] :=
    fits_of_few record flash_capacity _ (fun e _ => flash_gets e) h0 [] b t hb ht
      (by rw [hheader]; simp; decide)
  have hfits0 : Fits (handle_flashloader_package record) [] b0 [eventOf (make_tx_packet [0])] :=
    fits_of_few record flash_capacity _ (fun e _ => flash_gets e) h0 [] b0 _ hb0
      (Tape.size_new 5000 0) (by simp; decide)
  have hshort : format.receiveAll [format.header] [make_tx_packet [0]] =
      ([], format.header :: make_tx_packet [0]) := by
    have hparse : format.parse (format.header :: make_tx_packet [0]) =
        .short (format.header :: make_tx_packet [0]) := by decide
    rw [format.receiveAll_cons, List.singleton_append, Format.receive,
      format.drain_stop (by simp [hparse])]
    simp [Format.keep, hparse]
  have hframe : (format.receiveAll [] [make_tx_packet [0]]).1 = [[0]] := by
    have hparse := format.parse_encode [0] [] (by decide)
    rw [List.append_nil] at hparse
    rw [format.receiveAll_cons, List.nil_append, make_tx_packet_eq, Format.receive,
      format.drain_frame hparse, format.drain_stop (by simp [format.parse_absent])]
    rfl
  have hsame := h b0 _ hnew h0 hfits hfits0
  rcases flash_record hb ht h0 hfits with ⟨b1, _, hrun, _⟩ | ⟨_, q, hq, _⟩
  · rcases flash_record hb0 (Tape.size_new 5000 0) h0 hfits0 with
      ⟨b2, _, hrun0, _⟩ | ⟨_, q, hq, hlong⟩
    · rw [hrun, hrun0, hheader] at hsame
      simp only [List.map_cons, List.map_nil, eventOf_bytes, hshort, hframe, written] at hsame
      cases hsame
    · simp only [List.map_cons, List.map_nil, eventOf_bytes, hframe, List.mem_singleton] at hq
      subst hq
      exact absurd hlong (by decide)
  · rw [hheader] at hq
    simp only [List.map_cons, List.map_nil, eventOf_bytes, hshort] at hq
    cases hq

/-! ## The law -/

theorem delivery_injective {ps qs : List (List UInt8)} (h : ps.map delivery = qs.map delivery) :
    ps = qs := by
  have := congrArg (List.map Delivery.payload) h
  simpa [List.map_map, Function.comp_def, delivery] using this

theorem delivers_iff_cutsAreGood {payloads : List (List UInt8)} {es : List Event} {b0 : buffer_t}
    (hp : Sendable payloads) (h0 : ∀ e ∈ es, 0 < e.incount)
    (hstream : es.flatMap Event.bytes = payloads.flatMap make_tx_packet)
    (hnew : buffer_new 5000 = some b0)
    (hfits : Fits (handle_flashloader_package record) [] b0 es) :
    (∃ b, receiveRun (handle_flashloader_package record) [] b0 es =
        .running (payloads.map delivery, b) ∧ Harmless b) ↔ CutsAreGood payloads es := by
  obtain ⟨b0', hnew', hb0⟩ := flash_buffer
  obtain rfl : b0 = b0' := Option.some.inj (hnew.symm.trans hnew')
  have hflat : [] ++ (es.map Event.bytes).flatten = format.stream payloads := by
    rw [List.nil_append, ← List.flatMap_def]
    exact hstream
  have hrecord := flash_record hb0 (Tape.size_new 5000 0) h0 hfits
  rw [goodCuts_iff]
  constructor
  · rintro ⟨b, hrun, hharm⟩
    rcases hrecord with ⟨b', t', hrun', hb', ht', hahead, _⟩ | ⟨hrun', _⟩
    · rw [hrun'] at hrun
      simp only [Outcome.running.injEq, Prod.mk.injEq] at hrun
      obtain ⟨hlog, rfl⟩ := hrun
      refine goodCuts_of_receiveAll hp (reads_ne_nil h0) [] [] (by simp) (.inl rfl)
        hflat (delivery_injective hlog) fun hleft => ?_
      exact not_harmless_of_header hb' ht' (hahead.trans hleft) hharm
    · rw [hrun'] at hrun
      cases hrun
  · intro hcuts
    obtain ⟨hout, hleft⟩ := format.receiveAll_stream hp.maxLength
      (reads_ne_nil h0) [] [] (by simp) (.inl rfl) hflat fun _ => hcuts
    rw [List.append_nil] at hout hleft
    rcases hrecord with ⟨b', t', hrun', hb', ht', hahead, _⟩ | ⟨_, q, hq, hlong⟩
    · rw [hout] at hrun'
      exact ⟨b', hrun', harmless_of_junk hb' ht' (by rw [hahead]; exact hleft)⟩
    · rw [hout] at hq
      exact absurd (hp q hq).2 (by omega)

/-- The payloads are dispatched as they were sent, and nothing that matters is left over, if and
only if no read ends at the end of a frame whose checksum ends like a header. Under good cuts
every dispatcher gets the payloads, as long as it does not end the process. -/
theorem the_flash_receiver_needs_good_cuts (payloads : List (List UInt8)) (es : List Event)
    (b0 : buffer_t) (hp : Sendable payloads) (h0 : ∀ e ∈ es, 0 < e.incount)
    (hstream : es.flatMap Event.bytes = payloads.flatMap make_tx_packet)
    (hnew : buffer_new 5000 = some b0)
    (hfits : Fits (handle_flashloader_package record) [] b0 es) :
    ((∃ b, receiveRun (handle_flashloader_package record) [] b0 es =
        .running (payloads.map delivery, b) ∧ Harmless b) ↔ CutsAreGood payloads es) ∧
    (CutsAreGood payloads es → ∀ (σ : Type) (dispatch : σ → packet_t → Outcome σ) (s : σ),
      Logs dispatch (fun _ => True) Prod.fst [] payloads
        (receiveRun (handle_flashloader_package (logged dispatch)) (s, []) b0 es)) := by
  refine ⟨delivers_iff_cutsAreGood hp h0 hstream hnew hfits, fun hcuts σ dispatch s => ?_⟩
  obtain ⟨b0', hnew', hb0⟩ := flash_buffer
  obtain rfl : b0 = b0' := Option.some.inj (hnew.symm.trans hnew')
  have hout := (format.receiveAll_stream hp.maxLength (reads_ne_nil h0)
    [] [] (by simp) (.inl rfl) (by rw [List.nil_append, ← List.flatMap_def]; exact hstream)
    fun _ => (goodCuts_iff payloads es).mp hcuts).1
  rw [List.append_nil] at hout
  have htrue : ∀ s p s', True → dispatch s p = .running s' → True := fun _ _ _ _ _ => trivial
  have hlogs := receiveRun_logged flash_capacity htrue es (fun e _ => flash_gets e) h0 s trivial
    [] [] b0 b0 _ _ hb0 hb0 (Tape.size_new 5000 0) (Tape.size_new 5000 0) rfl hfits
    (by rw [hout]; exact fun q hq => (hp q hq).2)
  rw [hout] at hlogs
  exact hlogs

/-- Two confirms in two reads; neither checksum ends with an 'F'. -/
theorem the_flash_receiver_needs_good_cuts_for_two_confirms :
    ∃ b0 b, buffer_new 5000 = some b0 ∧
      receiveRun (handle_flashloader_package record) [] b0
        [eventOf (make_tx_packet [0x0E, 1]), eventOf (make_tx_packet [0x10, 1])] =
          .running ([⟨2, [0x0E, 1]⟩, ⟨2, [0x10, 1]⟩], b) := by
  obtain ⟨b0, hnew, hb0⟩ := flash_buffer
  have h0 : ∀ e ∈ [eventOf (make_tx_packet [0x0E, 1]), eventOf (make_tx_packet [0x10, 1])],
      0 < e.incount := by
    simp only [List.mem_cons, List.not_mem_nil, or_false, forall_eq_or_imp, forall_eq]
    decide
  have hfits := fits_of_few record flash_capacity _ (fun e _ => flash_gets e) h0 [] b0 _ hb0
    (Tape.size_new 5000 0) (by simp; decide)
  have hcuts : CutsAreGood [[0x0E, 1], [0x10, 1]]
      [eventOf (make_tx_packet [0x0E, 1]), eventOf (make_tx_packet [0x10, 1])] := by
    intro es1 es2 ps1 p ps2 _ hps _
    have hmem : p ∈ [[0x0E, 1], [0x10, 1]] := by rw [hps]; simp
    simp only [List.mem_cons, List.not_mem_nil, or_false] at hmem
    rcases hmem with rfl | rfl <;> decide
  obtain ⟨b, hrun, _⟩ := (the_flash_receiver_needs_good_cuts [[0x0E, 1], [0x10, 1]] _ b0
    (by unfold Sendable; decide) h0 (by simp) hnew hfits).1.mpr hcuts
  exact ⟨b0, b, hnew, hrun⟩

/-- The confirm of the block at 0x11e800. Its checksum is 0x4686, so when a read ends with it
the confirm that comes next is lost. -/
theorem a_confirm_is_lost_behind_a_header_byte :
    ¬ ∀ (payloads : List (List UInt8)) (es : List Event) (b0 : buffer_t), Sendable payloads →
      (∀ e ∈ es, 0 < e.incount) → es.flatMap Event.bytes = payloads.flatMap make_tx_packet →
      buffer_new 5000 = some b0 → Fits (handle_flashloader_package record) [] b0 es →
      ∃ b, receiveRun (handle_flashloader_package record) [] b0 es =
        .running (payloads.map delivery, b) ∧ Harmless b := by
  intro h
  obtain ⟨b0, hnew, hb0⟩ := flash_buffer
  have hp : Sendable [[0x12, 0x00, 0xE8, 0x11, 0x00, 0x00, 0x04, 0x01],
      [0x12, 0x00, 0xF0, 0x11, 0x00, 0x00, 0x04, 0x01]] := by
    unfold Sendable
    decide
  have h0 : ∀ e ∈ [eventOf (make_tx_packet [0x12, 0x00, 0xE8, 0x11, 0x00, 0x00, 0x04, 0x01]),
      eventOf (make_tx_packet [0x12, 0x00, 0xF0, 0x11, 0x00, 0x00, 0x04, 0x01])],
      0 < e.incount := by
    simp only [List.mem_cons, List.not_mem_nil, or_false, forall_eq_or_imp, forall_eq]
    decide
  have hfits := fits_of_few record flash_capacity _ (fun e _ => flash_gets e) h0 [] b0 _ hb0
    (Tape.size_new 5000 0) (by simp; decide)
  have hcuts := (delivers_iff_cutsAreGood hp h0 (by simp) hnew hfits).mp
    (h _ _ b0 hp h0 (by simp) hnew hfits)
  exact hcuts [_] [_] [] _ [_] rfl rfl (by simp) (by decide)

end dect_prog.flashloader
