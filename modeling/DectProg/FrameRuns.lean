-- The frames that a handler finds in some reads, and the dispatcher on one after
-- the other: the loop of main.c over a handler is this, whatever the handler is.
import DectProg.Noise
import DectProg.StalePackets
import Mathlib.Data.List.Forall2

open tape framing dect_prog.buffer

namespace framing.Format

variable {α : Type} [DecidableEq α] {f : Format α}

/-- No frame is longer than the items that it was found in. -/
theorem drain_sizes (c : List α) : ∀ p ∈ (f.drain c).1, p.length + f.trailerLength + 3 ≤ c.length := by
  induction c using f.drain_induct with
  | hframe c p rest hparse ih =>
    intro q hq
    have hlt := f.parse_frame_length hparse
    rw [f.drain_frame hparse] at hq
    rcases List.mem_cons.mp hq with rfl | hq
    · obtain ⟨junk, a, b, rfl, -, -⟩ := f.parse_frame hparse
      simp only [List.length_append, List.length_cons, f.trailer_length]
      omega
    · have := ih q hq
      omega
  | hstop c hstop =>
    intro q hq
    rw [f.drain_stop hstop] at hq
    cases hq

end framing.Format

namespace dect_prog.package

variable {σ : Type}

/-- Ends of the same kind, by way of a third one. -/
theorem Outcome.Rel.trans {α β γ : Type} {R : α → β → Prop} {S : β → γ → Prop} {T : α → γ → Prop}
    (hT : ∀ a b c, R a b → S b c → T a c) {o : Outcome α} {o' : Outcome β} {o'' : Outcome γ}
    (h : Outcome.Rel R o o') (h' : Outcome.Rel S o' o'') : Outcome.Rel T o o'' := by
  cases o with
  | running a =>
    obtain ⟨b, rfl, hab⟩ := h.of_running
    obtain ⟨c, rfl, hbc⟩ := h'.of_running
    exact hT a b c hab hbc
  | exited status a =>
    cases o' with
    | exited status' b =>
      cases o'' with
      | exited status'' c => exact ⟨h.1.trans h'.1, hT a b c h.2 h'.2⟩
      | running | aborted | undefined => exact h'.elim
    | running | aborted | undefined => exact h.elim
  | aborted a =>
    cases o' with
    | aborted b =>
      cases o'' with
      | aborted c => exact hT a b c h h'
      | running | exited | undefined => exact h'.elim
    | running | exited | undefined => exact h.elim
  | undefined =>
    cases o' with
    | undefined =>
      cases o'' with
      | undefined => trivial
      | running | exited | aborted => exact h'.elim
    | running | exited | aborted => exact h.elim

theorem Outcome.Rel.to_exited {α β : Type} {R : α → β → Prop} {o : Outcome α} {status : Int} {b : β}
    (h : Outcome.Rel R o (.exited status b)) : ∃ a, o = .exited status a ∧ R a b := by
  cases o with
  | exited status' a =>
    obtain ⟨rfl, hab⟩ := h
    exact ⟨a, rfl, hab⟩
  | running | aborted | undefined => exact h.elim

theorem Outcome.Rel.to_undefined {α β : Type} {R : α → β → Prop} {o : Outcome α}
    (h : Outcome.Rel R o (.undefined : Outcome β)) : o = .undefined := by
  cases o with
  | undefined => rfl
  | running | exited | aborted => exact h.elim

/-! ## One packet after the other -/

/-- The packets that carry some payloads, each over the bytes of the one before. A payload that is
longer than the packet is copied over its end, and there is no next one. -/
def carried : packet_t → List (List UInt8) → List packet_t
  | _, [] => []
  | p, q :: qs =>
    if h : q.length ≤ PACKET_SIZE then p.carry q h :: carried (p.carry q h) qs
    else [{ p with size := q.length }]

/-- What is behind the end of a packet is not to be written. -/
def deliver (dispatch : σ → packet_t → Outcome σ) (s : σ) (p : packet_t) : Outcome σ :=
  if p.size ≤ PACKET_SIZE then dispatch s p else .undefined

/-- The dispatcher on one packet after the other. -/
def dispatchEach (dispatch : σ → packet_t → Outcome σ) : σ → List packet_t → Outcome σ
  | s, [] => .running s
  | s, p :: ps =>
    match dispatch s p with
    | .running s => dispatchEach dispatch s ps
    | o => o

theorem dispatchAll_eq (dispatch : σ → packet_t → Outcome σ) (qs : List (List UInt8)) :
    ∀ s p, dispatchAll dispatch s p qs = dispatchEach (deliver dispatch) s (carried p qs) := by
  induction qs with
  | nil => exact fun _ _ => rfl
  | cons q qs ih =>
    intro s p
    unfold dispatchAll carried
    by_cases hq : q.length ≤ PACKET_SIZE
    · rw [dif_pos hq, dif_pos hq, dispatchEach, deliver, carry_size, if_pos hq]
      cases dispatch s (p.carry q hq) with
      | running s1 => exact ih s1 _
      | exited | aborted | undefined => rfl
    · rw [dif_neg hq, dif_neg hq, dispatchEach, deliver, if_neg hq]

theorem dispatchEach_append (dispatch : σ → packet_t → Outcome σ) (ps ps' : List packet_t) :
    ∀ s, dispatchEach dispatch s (ps ++ ps') =
      match dispatchEach dispatch s ps with
      | .running s => dispatchEach dispatch s ps'
      | o => o := by
  induction ps with
  | nil => exact fun _ => rfl
  | cons p ps ih =>
    intro s
    rw [List.cons_append, dispatchEach, dispatchEach]
    cases dispatch s p with
    | running s1 => exact ih s1
    | exited | aborted | undefined => rfl

/-- Packets that are all within their bounds. -/
theorem dispatchEach_deliver (dispatch : σ → packet_t → Outcome σ) {ps : List packet_t}
    (h : ∀ p ∈ ps, p.size ≤ PACKET_SIZE) :
    ∀ s, dispatchEach (deliver dispatch) s ps = dispatchEach dispatch s ps := by
  induction ps with
  | nil => exact fun _ => rfl
  | cons p ps ih =>
    intro s
    obtain ⟨hp, h⟩ := List.forall_mem_cons.mp h
    rw [dispatchEach, dispatchEach, deliver, if_pos hp]
    cases dispatch s p with
    | running s1 => exact ih h s1
    | exited | aborted | undefined => rfl

/-! ## The frames of some reads -/

/-- The packets that the reads bring into a receiver with the tape `t`; what does not fit into the
free space of a read is lost. -/
def frames (f : Format UInt8) : Tape UInt8 → List Event → List packet_t
  | _, [] => []
  | t, e :: es =>
    carried { e.packet with size := 0 } (f.drain (t.write e.bytes).ahead).1 ++
      frames f (left f (t.write e.bytes)) es

/-- One read: the dispatcher has its frames, and the buffer has what they leave. -/
theorem handlePackage_each {f : Format UInt8} {cap : Nat}
    {get : Locals → packet_t → buffer_t → Option (Int × packet_t × buffer_t)}
    (dispatch : σ → packet_t → Outcome σ) (s : σ) {b : buffer_t} {t : Tape UInt8} {e : Event}
    (hget : ∀ i, Gets f cap (get (e.locals i))) (hb : Holds b t) (ht : t.size = cap)
    (hcap : cap ≤ INT_MAX) (h0 : 0 ≤ e.incount) :
    Ends (handlePackage get dispatch s b e)
      (dispatchEach (deliver dispatch) s
        (carried { e.packet with size := 0 } (f.drain (t.write e.bytes).ahead).1))
      (left f (t.write e.bytes)) := by
  rw [← dispatchAll_eq]
  exact handlePackage_left dispatch s hget hb ht hcap h0

theorem carried_sizes {n : Nat} {qs : List (List UInt8)} (h : ∀ q ∈ qs, q.length ≤ n) :
    ∀ p, ∀ x ∈ carried p qs, x.size ≤ n := by
  induction qs with
  | nil =>
    intro p x hx
    cases hx
  | cons q qs ih =>
    intro p x hx
    obtain ⟨hq, h⟩ := List.forall_mem_cons.mp h
    unfold carried at hx
    split at hx
    · rcases List.mem_cons.mp hx with rfl | hx
      · exact hq
      · exact ih h _ x hx
    · rw [List.mem_singleton.mp hx]
      exact hq

/-- No frame is longer than the buffer. -/
theorem frames_sizes {f : Format UInt8} (es : List Event) :
    ∀ t : Tape UInt8, ∀ p ∈ frames f t es, p.size ≤ t.size := by
  induction es with
  | nil =>
    intro t p hp
    cases hp
  | cons e es ih =>
    intro t p hp
    rcases List.mem_append.mp hp with hp | hp
    · refine carried_sizes (fun q hq => ?_) _ p hp
      have hlen := f.drain_sizes _ q hq
      have hsize := Tape.size_write t e.bytes
      unfold Tape.size at hsize ⊢
      omega
    · have hsize := ih _ p hp
      rw [left_size, Tape.size_write] at hsize
      exact hsize

/-- One frame in one read. -/
theorem frames_encode {f : Format UInt8} {t : Tape UInt8} {e : Event} {c : List UInt8}
    (hc : c.length ≤ PACKET_SIZE) (hmax : c.length ≤ f.maxLength) (ht : t.ahead = [])
    (hroom : (f.encode c).length ≤ t.past.length) (he : e.bytes = f.encode c) :
    frames f t [e] = [packet_t.carry { e.packet with size := 0 } c hc] := by
  have hahead : (t.write e.bytes).ahead = f.encode c := by
    rw [he, Tape.write_fits t _ hroom, ht, List.nil_append]
  have hparse := f.parse_encode c [] hmax
  rw [List.append_nil] at hparse
  have hdrain : (f.drain (f.encode c)).1 = [c] := by
    rw [f.drain_frame hparse, f.drain_stop (f.parse_few (c := []) (Nat.zero_le 2))]
  rw [frames, hahead, hdrain, carried, dif_pos hc]
  rfl

/-! ## Frames of a stream -/

/-- The packet of a payload, over zeros. -/
def packetOf (q : List UInt8) : packet_t := if h : q.length ≤ PACKET_SIZE then blank.carry q h else blank

theorem packetOf_eq {q : List UInt8} (h : q.length ≤ PACKET_SIZE) : packetOf q = blank.carry q h :=
  dif_pos h

/-- A packet without the bytes behind its size. -/
theorem packetOf_same {p : packet_t} (h : p.size ≤ PACKET_SIZE) :
    SamePacket (packetOf p.payload) p := by
  have hlen : p.payload.length = p.size := by
    rw [packet_t.payload, List.length_take, p.data_length]
    omega
  rw [packetOf_eq (by omega)]
  refine ⟨?_, ?_⟩
  · rw [carry_size, hlen]
  · rw [carry_payload]

/-- Of a packet and of the same one over other bytes a dispatch sees the same. -/
theorem SeesOnlyThePacket.same {dispatch : σ → packet_t → Outcome σ} {s : σ} {p p' : packet_t}
    (h : SeesOnlyThePacket dispatch s p) (hp : SamePacket p p') : SeesOnlyThePacket dispatch s p' :=
  fun p'' hp'' => (h p'' ⟨hp''.1.trans hp.1, hp''.2.trans hp.2⟩).trans (h p' hp).symm

/-- Whatever they are carried over, the packets have the payloads. -/
theorem carried_same {qs : List (List UInt8)} (hqs : ∀ q ∈ qs, q.length ≤ PACKET_SIZE) :
    ∀ p, List.Forall₂ SamePacket (qs.map packetOf) (carried p qs) := by
  induction qs with
  | nil => exact fun _ => .nil
  | cons q qs ih =>
    intro p
    obtain ⟨hq, hqs⟩ := List.forall_mem_cons.mp hqs
    rw [carried, dif_pos hq, List.map_cons, packetOf_eq hq]
    apply List.Forall₂.cons
    · exact ⟨rfl, by rw [carry_payload, carry_payload]⟩
    · exact ih hqs _

/-- The packets of some reads that fit are what the format says that the reads bring. -/
theorem frames_same {f : Format UInt8} {cap : Nat} (es : List Event) :
    ∀ t : Tape UInt8, t.size = cap → (∀ e ∈ es, e.bytes ≠ []) →
      f.FitsIn cap t.ahead (es.map Event.bytes) →
      (∀ q ∈ (f.receiveAll t.ahead (es.map Event.bytes)).1, q.length ≤ PACKET_SIZE) →
      List.Forall₂ SamePacket ((f.receiveAll t.ahead (es.map Event.bytes)).1.map packetOf)
        (frames f t es) := by
  induction es with
  | nil => exact fun _ _ _ _ _ => .nil
  | cons e es ih =>
    intro t ht hne hfits hsizes
    obtain ⟨he, hne⟩ := List.forall_mem_cons.mp hne
    obtain ⟨hlen, hfits⟩ := hfits
    have hwrite : (t.write e.bytes).ahead = t.ahead ++ e.bytes := by
      rw [Tape.write_fits]
      rw [List.length_append] at hlen
      unfold Tape.size at ht
      omega
    have hahead : t.ahead ++ e.bytes ≠ [] := by simp [he]
    have hleft : (left f (t.write e.bytes)).ahead = (f.receive (t.ahead ++ e.bytes)).2 := by
      rw [left_ahead (by rw [hwrite]; exact hahead), hwrite]
    rw [List.map_cons, Format.receiveAll_cons] at hsizes ⊢
    obtain ⟨hnow, hlater⟩ := List.forall_mem_append.mp hsizes
    rw [List.map_append, frames, hwrite]
    apply List.rel_append
    · exact carried_same hnow _
    · rw [← hleft]
      rw [← hleft] at hfits hlater
      exact ih _ (by rw [left_size, Tape.size_write, ht]) hne hfits hlater

end dect_prog.package
