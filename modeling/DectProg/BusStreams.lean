-- The APP and the NVS mode over a stream: what the two modes do is a matter of
-- the frames that the target sent, not of the reads that cut them. So the
-- exchange that provisions the NVS goes over the line as it goes over packets.
import DectProg.BusLoop
import DectProg.Provisioning
import DectProg.StaleMails

open tape framing dect_prog.buffer

namespace dect_prog.busmail

open dect_prog.package

variable {κ : Type} {application_frame : Callback κ}

/-- A run that looks at the packets only does the same over other stale bytes. -/
theorem linkRun_same {ps ps' : List packet_t} (h : List.Forall₂ SamePacket ps ps')
    (hsees : ∀ p ∈ ps, ∀ s : Link κ, s.session.tx_fifo = [] →
      SeesOnlyThePacket (busmail_dispatch application_frame) s p) :
    ∀ s : Link κ, s.session.tx_fifo = [] →
      linkRun application_frame s ps' = linkRun application_frame s ps := by
  induction h with
  | nil => exact fun _ _ => rfl
  | cons hp _ ih =>
    intro s hs
    obtain ⟨hsee, hsees⟩ := List.forall_mem_cons.mp hsees
    rw [linkRun, linkRun, hsee s hs _ hp]
    split
    · rename_i s1 hd
      exact ih hsees s1 (dispatch_tx_fifo hs hd)
    · rfl

end dect_prog.busmail

namespace dect_prog.event_loop

open dect_prog.package dect_prog.busmail dect_prog.busmail.linked

/-! ## The frames of a stream -/

/-- The frames of a stream that is read in some pieces. -/
structure Stream (payloads : List (List UInt8)) (as : List Arrival) : Prop where
  succeeds : Succeeds as
  starts : StartsAtZero as
  pieces : ∀ a ∈ as, a.bytes ≠ []
  stream : as.flatMap Arrival.bytes = payloads.flatMap make_tx_packet
  fits : busmail.format.FitsIn 500 [] (as.map Arrival.bytes)

theorem Stream.frames {payloads : List (List UInt8)} {as : List Arrival}
    (h : Stream payloads as) (hp : Sendable payloads) :
    List.Forall₂ SamePacket (payloads.map packetOf)
      (frames busmail.format (newTape 500) (events as)) := by
  have hmax : ∀ q ∈ payloads, q.length ≤ busmail.format.maxLength := by
    intro q hq
    have := hp q hq
    show q.length ≤ 65535
    omega
  have hpieces : ∀ d ∈ as.map Arrival.bytes, d ≠ [] := List.forall_mem_map.mpr h.pieces
  have hstream : [] ++ (as.map Arrival.bytes).flatten = busmail.format.stream payloads := by
    rw [List.nil_append, ← List.flatMap_def]
    exact h.stream
  have hout := (busmail.format.receiveAll_stream hmax hpieces [] [] (by simp) (.inl rfl) hstream
    (by simp [busmail.format])).1
  rw [List.append_nil, ← events_bytes as] at hout
  have hbytes : ∀ e ∈ events as, e.bytes ≠ [] := by
    rw [← events_bytes as] at hpieces
    exact fun e he => hpieces _ (List.mem_map_of_mem he)
  have hfits := h.fits
  rw [← events_bytes as] at hfits
  have hsame := frames_same (events as) (newTape 500) (Tape.size_new 500 0) hbytes hfits
  have hahead : (newTape 500).ahead = [] := rfl
  rw [hahead, hout] at hsame
  exact hsame fun q hq => Nat.le_trans (hp q hq) (by decide)

variable {κ : Type} {application_frame : Callback κ}

/-- A mode over a stream is the link layer over its frames. -/
theorem Stream.refines {payloads : List (List UInt8)} {as : List Arrival} (h : Stream payloads as)
    (hp : Sendable payloads) {b : buffer_t} {e : event_t} {s : Process κ} {l : Link κ}
    (hb : Holds b (newTape 500)) (he : e.outcount ≤ 0) (hs : ProcessAccounts s l)
    (hl : l.session.tx_fifo = [])
    (hsees : ∀ q ∈ payloads, ∀ s : Link κ, s.session.tx_fifo = [] →
      SeesOnlyThePacket (busmail.busmail_dispatch application_frame) s (packetOf q)) :
    Outcome.Rel BusRefines (mainLoop (busmailMode application_frame) (s, b) e as)
      (linkRun application_frame l (payloads.map packetOf)) := by
  have hrefines := bus_refines application_frame as hb (Tape.size_new 500 0) he h.succeeds h.starts hs
  have hpackets : ∀ p ∈ payloads.map packetOf, ∀ s : Link κ, s.session.tx_fifo = [] →
      SeesOnlyThePacket (busmail.busmail_dispatch application_frame) s p := by
    intro p hmem
    obtain ⟨q, hq, rfl⟩ := List.mem_map.mp hmem
    exact hsees q hq
  rw [linkRun_same (h.frames hp) hpackets l hl] at hrefines
  exact hrefines

/-! ## The laws -/

/-- What the APP and the NVS mode do with a stream of frames is what the link layer does with the
packets of the frames, one after the other, over zeros. So it is the same for all ways to cut the
stream into reads: the same bytes on the tty, the same variables, and the same end. -/
theorem the_busmail_modes_see_the_stream_only (api : Api) (e : event_t)
    (payloads : List (List UInt8)) (as : List Arrival) (he : e.outcount ≤ 0)
    (hp : Sendable payloads) (h : Stream payloads as) :
    ∃ s, event_loop.busmail_init = some s ∧
      ((∀ q ∈ payloads, ∀ reset_ind, app.Settled api reset_ind (packetOf q)) →
        Outcome.Rel BusRefines (mainLoop (appMode api) s e as)
          (linkRun (app.application_frame api) ⟨busmail.busmail_init, 0⟩
            (payloads.map packetOf))) ∧
      ((∀ q ∈ payloads, ∀ reset_ind, nvs.Settled api reset_ind (packetOf q)) →
        Outcome.Rel BusRefines (mainLoop (nvsMode api) s e as)
          (linkRun (nvs.application_frame api) ⟨busmail.busmail_init, 0⟩
            (payloads.map packetOf))) := by
  obtain ⟨b, hinit, hb⟩ := busmail_init_eq
  have hrefines : ProcessAccounts (⟨linked.busmail_init, 0⟩ : Process Int)
      ⟨busmail.busmail_init, 0⟩ := ⟨busmail_init_accounts, rfl⟩
  refine ⟨_, hinit, fun hsettled => ?_, fun hsettled => ?_⟩
  · apply h.refines hp hb he hrefines rfl
    exact fun q hq s hs => (app.sees_iff_settled api hs _).mpr (hsettled q hq s.app)
  · apply h.refines hp hb he hrefines rfl
    exact fun q hq s _ => nvs.sees_of_settled (hsettled q hq s.app)

/-- A poll set, for any values of the headers, is settled. -/
theorem poll_set_settled (api : Api) (reset_ind : Int) :
    app.Settled api reset_ind (packetOf [SAMB_POLL_SET]) := by
  have hbyte : (packetOf [SAMB_POLL_SET]).byte 0 = SAMB_POLL_SET := by
    have hsize : [SAMB_POLL_SET].length ≤ PACKET_SIZE := by decide
    rw [packetOf_eq hsize, carry_getD _ _ hsize (by decide)]
    rfl
  refine ⟨by decide, fun htype => ?_⟩
  rw [hbyte] at htype
  exact absurd htype (by decide)

/-- A poll set that is cut behind its length. -/
theorem the_busmail_modes_see_the_stream_only_for_a_poll_set :
    ∃ s s', event_loop.busmail_init = some s ∧
      mainLoop (appMode headers) s .cleared
        [arrivalOf [0x10, 0, 1] (by decide), arrivalOf [0xC8, 0xC8] (by decide)] = .running s' ∧
      s'.1.vars.tty = [0x10, 0, 1, 0xC0, 0xC0] := by
  have hstream : Stream [[SAMB_POLL_SET]]
      [arrivalOf [0x10, 0, 1] (by decide), arrivalOf [0xC8, 0xC8] (by decide)] := by
    refine ⟨?_, ?_, ?_, rfl, ?_⟩
    · exact List.forall_mem_cons.mpr ⟨rfl, List.forall_mem_singleton.mpr rfl⟩
    · exact List.forall_mem_cons.mpr ⟨fun _ => rfl, List.forall_mem_singleton.mpr fun _ => rfl⟩
    · exact List.forall_mem_cons.mpr ⟨by decide, List.forall_mem_singleton.mpr (by decide)⟩
    · exact Format.fitsIn_of_few _ (by decide) (by decide)
  obtain ⟨s, hinit, happ, -⟩ := the_busmail_modes_see_the_stream_only headers .cleared
    [[SAMB_POLL_SET]] _ (Int.le_refl 0) (by unfold Sendable; decide) hstream
  have hsettled : ∀ q ∈ [[SAMB_POLL_SET]], ∀ reset_ind, app.Settled headers reset_ind (packetOf q) :=
    List.forall_mem_singleton.mpr (poll_set_settled headers)
  have hrel := happ hsettled
  have hrun : linkRun (app.application_frame headers) ⟨busmail.busmail_init, 0⟩
      ([[SAMB_POLL_SET]].map packetOf) = .running ⟨_, 0⟩ := rfl
  rw [hrun] at hrel
  obtain ⟨s', hs', hrefines⟩ := hrel.to_running
  exact ⟨s, s', hinit, hs', hrefines.1.tty⟩

end dect_prog.event_loop
