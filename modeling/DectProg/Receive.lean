-- A package handler over the events of a run: what is dispatched, and what the
-- ring buffer keeps. The run is compared with a receiver of the frame format.
import DectProg.Package
import DectProg.Reads

open tape framing dect_prog.buffer

namespace dect_prog.package

variable {σ : Type}

/-- The bytes that the event brings. -/
def Event.bytes (e : Event) : List UInt8 := e.input.take e.incount.toNat

/-- An event that brings some bytes. -/
def eventOf (bytes : List UInt8) : Event where
  input := bytes
  incount := bytes.length
  incount_le := Int.le_refl _
  packet := blank
  locals := fun _ => ⟨0, List.replicate 5000 0, List.length_replicate⟩

@[simp] theorem eventOf_bytes (bytes : List UInt8) : (eventOf bytes).bytes = bytes := by
  show bytes.take (bytes.length : Int).toNat = bytes
  rw [Int.toNat_natCast, List.take_length]

theorem eventOf_count (bytes : List UInt8) : 0 ≤ (eventOf bytes).incount := Int.natCast_nonneg _

theorem event_bytes_ne_nil {e : Event} (h0 : 0 < e.incount) : e.bytes ≠ [] := by
  have := e.incount_le
  rw [Event.bytes, ← List.length_pos_iff, List.length_take]
  omega

theorem reads_ne_nil {es : List Event} (h0 : ∀ e ∈ es, 0 < e.incount) :
    ∀ d ∈ es.map Event.bytes, d ≠ [] := by
  intro d hd
  obtain ⟨e, he, rfl⟩ := List.mem_map.mp hd
  exact event_bytes_ne_nil (h0 e he)

/-- One event after the other, as long as the process lives. -/
def receiveRun (handle : σ → buffer_t → Event → Outcome (σ × buffer_t)) :
    σ → buffer_t → List Event → Outcome (σ × buffer_t)
  | s, b, [] => .running (s, b)
  | s, b, e :: es =>
    match handle s b e with
    | .running (s, b) => receiveRun handle s b es
    | r => r

theorem receiveRun_concat {handle : σ → buffer_t → Event → Outcome (σ × buffer_t)} {s s1 s2 : σ}
    {b b1 b2 : buffer_t} {es : List Event} {e : Event}
    (hrun : receiveRun handle s b es = .running (s1, b1))
    (hlast : handle s1 b1 e = .running (s2, b2)) :
    receiveRun handle s b (es ++ [e]) = .running (s2, b2) := by
  induction es generalizing s b with
  | nil =>
    cases hrun
    simp only [List.nil_append, receiveRun, hlast]
  | cons e' es ih =>
    simp only [List.cons_append, receiveRun] at hrun ⊢
    split
    · rename_i s' b' hstep
      rw [hstep] at hrun
      exact ih hrun
    · rename_i hstep
      split at hrun
      · rename_i s' b' hstep'
        exact absurd hstep' (hstep s' b')
      · exact absurd hrun (hstep s1 b1)

/-- Every read fits in the free space of the buffer as it is when the handler is called. -/
def Fits (handle : σ → buffer_t → Event → Outcome (σ × buffer_t)) : σ → buffer_t → List Event → Prop
  | _, _, [] => True
  | s, b, e :: es => e.incount ≤ b.buf_size - b.count ∧
      ∀ s' b', handle s b e = .running (s', b') → Fits handle s' b' es

/-! ## Dispatchers that write down their packets -/

/-- A packet that was dispatched: its size and its bytes. -/
structure Delivery where
  size : Nat
  payload : List UInt8
  deriving DecidableEq, Repr

def delivery (payload : List UInt8) : Delivery := ⟨payload.length, payload⟩

/-- A dispatcher that only writes down what it gets. -/
def record (log : List Delivery) (p : packet_t) : Outcome (List Delivery) :=
  .running (log ++ [⟨p.size, p.payload⟩])

/-- A dispatcher that also writes down what it gets. -/
def logged (dispatch : σ → packet_t → Outcome σ) (s : σ × List Delivery) (p : packet_t) :
    Outcome (σ × List Delivery) :=
  let log := s.2 ++ [⟨p.size, p.payload⟩]
  match dispatch s.1 p with
  | .running s => .running (s, log)
  | .exited status s => .exited status (s, log)
  | .aborted s => .aborted (s, log)
  | .undefined => .undefined

/-- How a dispatcher that writes down its packets can end, from the log `log` and the payloads `qs`
on: all of them are written down, or those up to the one whose dispatch ended the process. `view`
gives the state of the dispatcher and what was written down. -/
def Logs {α : Type} (dispatch : σ → packet_t → Outcome σ) (Inv : σ → Prop)
    (view : α → σ × List Delivery) (log : List Delivery) (qs : List (List UInt8)) :
    Outcome α → Prop
  | .running a => Inv (view a).1 ∧ (view a).2 = log ++ qs.map delivery
  | .exited status a => ∃ s p qs1 qs2, Inv s ∧ dispatch s p = .exited status (view a).1 ∧
      qs = qs1 ++ p.payload :: qs2 ∧ (view a).2 = log ++ (qs1 ++ [p.payload]).map delivery
  | .aborted a => ∃ s p qs1 qs2, Inv s ∧ dispatch s p = .aborted (view a).1 ∧
      qs = qs1 ++ p.payload :: qs2 ∧ (view a).2 = log ++ (qs1 ++ [p.payload]).map delivery
  | .undefined => ∃ s p, Inv s ∧ dispatch s p = .undefined ∧ p.payload ∈ qs

theorem carry_delivery (p : packet_t) (q : List UInt8) (h : q.length ≤ PACKET_SIZE) :
    (⟨(p.carry q h).size, (p.carry q h).payload⟩ : Delivery) = delivery q := by
  simp [delivery]

theorem dispatchAll_record (qs : List (List UInt8)) (log : List Delivery) (p : packet_t) :
    dispatchAll record log p qs =
      if ∀ q ∈ qs, q.length ≤ PACKET_SIZE then .running (log ++ qs.map delivery)
      else .undefined := by
  induction qs generalizing log p with
  | nil => simp [dispatchAll]
  | cons q qs ih =>
    by_cases hq : q.length ≤ PACKET_SIZE
    · simp only [dispatchAll, dif_pos hq, record, carry_delivery]
      rw [ih]
      simp [hq, List.append_assoc]
    · simp [dispatchAll, hq]

theorem Logs.append {α : Type} {dispatch : σ → packet_t → Outcome σ} {Inv : σ → Prop}
    {view : α → σ × List Delivery} {log : List Delivery} {qs rs : List (List UInt8)} {o : Outcome α}
    (h : Logs dispatch Inv view (log ++ qs.map delivery) rs o) :
    Logs dispatch Inv view log (qs ++ rs) o := by
  cases o with
  | running a => exact ⟨h.1, by rw [h.2]; simp⟩
  | exited status a =>
    obtain ⟨s, p, rs1, rs2, hs, hd, rfl, hlog⟩ := h
    exact ⟨s, p, qs ++ rs1, rs2, hs, hd, by simp, by rw [hlog]; simp⟩
  | aborted a =>
    obtain ⟨s, p, rs1, rs2, hs, hd, rfl, hlog⟩ := h
    exact ⟨s, p, qs ++ rs1, rs2, hs, hd, by simp, by rw [hlog]; simp⟩
  | undefined =>
    obtain ⟨s, p, hs, hd, hmem⟩ := h
    exact ⟨s, p, hs, hd, by simp [hmem]⟩

/-- Where the process ended, the payloads that come later make no difference. -/
theorem Logs.ended {α β : Type} {dispatch : σ → packet_t → Outcome σ} {Inv : σ → Prop}
    {view : α → σ × List Delivery} {view' : β → σ × List Delivery} {log : List Delivery}
    {qs : List (List UInt8)} (rs : List (List UInt8)) {o : Outcome α} {o' : Outcome β}
    (h : Logs dispatch Inv view log qs o)
    (ho : match o with
      | .running _ => False
      | .exited status a => ∃ a', o' = .exited status a' ∧ view' a' = view a
      | .aborted a => ∃ a', o' = .aborted a' ∧ view' a' = view a
      | .undefined => o' = .undefined) :
    Logs dispatch Inv view' log (qs ++ rs) o' := by
  cases o with
  | running a => exact ho.elim
  | exited status a =>
    obtain ⟨a', rfl, hview⟩ := ho
    obtain ⟨s, p, qs1, qs2, hs, hd, rfl, hlog⟩ := h
    exact ⟨s, p, qs1, qs2 ++ rs, hs, by rw [hview]; exact hd, by simp, by rw [hview]; exact hlog⟩
  | aborted a =>
    obtain ⟨a', rfl, hview⟩ := ho
    obtain ⟨s, p, qs1, qs2, hs, hd, rfl, hlog⟩ := h
    exact ⟨s, p, qs1, qs2 ++ rs, hs, by rw [hview]; exact hd, by simp, by rw [hview]; exact hlog⟩
  | undefined =>
    subst ho
    obtain ⟨s, p, hs, hd, hmem⟩ := h
    exact ⟨s, p, hs, hd, by simp [hmem]⟩

/-- A dispatcher that writes down its packets gets the payloads one after the other. -/
theorem dispatchAll_logged {dispatch : σ → packet_t → Outcome σ} {Inv : σ → Prop}
    (hinv : ∀ s p s', Inv s → dispatch s p = .running s' → Inv s') (qs : List (List UInt8))
    (hqs : ∀ q ∈ qs, q.length ≤ PACKET_SIZE) (s : σ) (hs : Inv s) (log : List Delivery)
    (p : packet_t) :
    Logs dispatch Inv id log qs (dispatchAll (logged dispatch) (s, log) p qs) := by
  induction qs generalizing s log p with
  | nil => exact ⟨hs, by simp⟩
  | cons q qs ih =>
    have hq : q.length ≤ PACKET_SIZE := hqs q (by simp)
    have hpayload : (p.carry q hq).payload = q := carry_payload p q hq
    simp only [dispatchAll, dif_pos hq, logged, carry_delivery]
    cases hd : dispatch s (p.carry q hq) with
    | running s' =>
      have hrest := ih (fun q hq => hqs q (by simp [hq])) s' (hinv s _ s' hs hd)
        (log ++ [q].map delivery)
      exact (hrest _).append
    | exited status s' =>
      exact ⟨s, p.carry q hq, [], qs, hs, hd, by simp [hpayload], by simp [hpayload]⟩
    | aborted s' =>
      exact ⟨s, p.carry q hq, [], qs, hs, hd, by simp [hpayload], by simp [hpayload]⟩
    | undefined => exact ⟨s, p.carry q hq, hs, hd, by simp [hpayload]⟩

/-! ## The handler, event by event -/

variable {f : Format UInt8} {cap : Nat}
  {get : Locals → packet_t → buffer_t → Option (Int × packet_t × buffer_t)}

/-- A read that fits goes into the buffer as a whole. -/
theorem handlePackage_fits (dispatch : σ → packet_t → Outcome σ) (s : σ) (b : buffer_t)
    (t : Tape UInt8) (e : Event) (hget : ∀ i, Gets f cap (get (e.locals i))) (hb : Holds b t)
    (ht : t.size = cap) (hcap : cap ≤ INT_MAX) (h0 : 0 < e.incount)
    (hfree : e.incount ≤ b.buf_size - b.count) :
    ∃ t' : Tape UInt8, t'.size = cap ∧ t'.ahead = (f.receive (t.ahead ++ e.bytes)).2 ∧
      Ends (handlePackage get dispatch s b e)
        (dispatchAll dispatch s { e.packet with size := 0 }
          (f.receive (t.ahead ++ e.bytes)).1) t' := by
  obtain ⟨n, hn⟩ : ∃ n : Nat, e.incount = n := ⟨e.incount.toNat, by omega⟩
  have hlen := e.incount_le
  have hcells : t.past.length + t.ahead.length = cap := ht
  have hroom : n ≤ t.past.length := by
    rw [hb.count, hb.buf_size, ht] at hfree
    omega
  have hbytes : e.bytes = e.input.take n := by rw [Event.bytes, hn, Int.toNat_natCast]
  have hne : e.bytes ≠ [] := by
    rw [hbytes, ← List.length_pos_iff, List.length_take]
    omega
  have htake : (e.input.take n).take t.past.length = e.bytes := by
    rw [hbytes, List.take_of_length_le (by rw [List.length_take]; omega)]
  have hspec := handlePackage.spec dispatch s b t e hget hb ht hcap n hn
  rw [htake] at hspec
  exact hspec (by simp [hne])

/-- Reads that fit in the room of a receiver of the format fit in the buffer. -/
theorem fits_of_fitsIn (dispatch : σ → packet_t → Outcome σ) (hcap : cap ≤ INT_MAX)
    (es : List Event) (hget : ∀ e ∈ es, ∀ i, Gets f cap (get (e.locals i)))
    (h0 : ∀ e ∈ es, 0 < e.incount) (s : σ) (b : buffer_t) (t : Tape UInt8) (hb : Holds b t)
    (ht : t.size = cap) (hfits : f.FitsIn cap t.ahead (es.map Event.bytes)) :
    Fits (handlePackage get dispatch) s b es := by
  induction es generalizing s b t with
  | nil => trivial
  | cons e es ih =>
    obtain ⟨hnow, hthen⟩ := hfits
    have hpos := h0 e (by simp)
    have hle := e.incount_le
    have hlen : e.bytes.length = e.incount.toNat := by
      rw [Event.bytes, List.length_take]
      omega
    have hfree : e.incount ≤ b.buf_size - b.count := by
      rw [List.length_append] at hnow
      rw [hb.count, hb.buf_size, ht]
      omega
    refine ⟨hfree, fun s' b' hrun => ?_⟩
    obtain ⟨t', ht', hahead, hends⟩ := handlePackage_fits dispatch s b t e (hget e (by simp)) hb ht
      hcap hpos hfree
    rw [hrun] at hends
    exact ih (fun e he => hget e (by simp [he])) (fun e he => h0 e (by simp [he])) s' b' t'
      hends.holds.2 ht' (by rw [hahead]; exact hthen)

/-- Reads that fit in the buffer all together fit one after the other. -/
theorem fits_of_few (dispatch : σ → packet_t → Outcome σ) (hcap : cap ≤ INT_MAX) (es : List Event)
    (hget : ∀ e ∈ es, ∀ i, Gets f cap (get (e.locals i))) (h0 : ∀ e ∈ es, 0 < e.incount) (s : σ)
    (b : buffer_t) (t : Tape UInt8) (hb : Holds b t) (ht : t.size = cap)
    (hfew : t.ahead.length + (es.flatMap Event.bytes).length ≤ cap) :
    Fits (handlePackage get dispatch) s b es := by
  refine fits_of_fitsIn dispatch hcap es hget h0 s b t hb ht (f.fitsIn_of_few (reads_ne_nil h0) ?_)
  rw [← List.flatMap_def, List.length_append]
  exact hfew

/-- Reads that fit: what is written down is what a receiver of the format gives out, and the
buffer keeps what the receiver keeps. A payload that no packet can hold has no defined effect. -/
theorem receiveRun_record (hcap : cap ≤ INT_MAX) (es : List Event)
    (hget : ∀ e ∈ es, ∀ i, Gets f cap (get (e.locals i))) (h0 : ∀ e ∈ es, 0 < e.incount)
    (log : List Delivery) (b : buffer_t) (t : Tape UInt8) (hb : Holds b t) (ht : t.size = cap)
    (hfits : Fits (handlePackage get record) log b es) :
    (∃ b' t', receiveRun (handlePackage get record) log b es =
          .running (log ++ (f.receiveAll t.ahead (es.map Event.bytes)).1.map delivery, b') ∧
        Holds b' t' ∧ t'.size = cap ∧ t'.ahead = (f.receiveAll t.ahead (es.map Event.bytes)).2 ∧
        ∀ q ∈ (f.receiveAll t.ahead (es.map Event.bytes)).1, q.length ≤ PACKET_SIZE) ∨
      receiveRun (handlePackage get record) log b es = .undefined ∧
        ∃ q ∈ (f.receiveAll t.ahead (es.map Event.bytes)).1, PACKET_SIZE < q.length := by
  induction es generalizing log b t with
  | nil => exact .inl ⟨b, t, by simp [receiveRun], hb, ht, rfl, by simp⟩
  | cons e es ih =>
    obtain ⟨hfree, hrest⟩ := hfits
    obtain ⟨t1, ht1, hahead, hends⟩ := handlePackage_fits record log b t e
      (hget e (by simp)) hb ht hcap (h0 e (by simp)) hfree
    rw [dispatchAll_record] at hends
    rw [List.map_cons, f.receiveAll_cons]
    by_cases hall : ∀ q ∈ (f.receive (t.ahead ++ e.bytes)).1, q.length ≤ PACKET_SIZE
    · rw [if_pos hall] at hends
      obtain ⟨b1, hrun, hb1⟩ := hends
      rcases ih (fun e he => hget e (by simp [he])) (fun e he => h0 e (by simp [he])) _ b1 t1 hb1
        ht1 (hrest _ b1 hrun) with
        ⟨b', t', hrun', hb', ht', hahead', hall'⟩ | ⟨hrun', q, hq, hlong⟩
      · rw [hahead] at hrun' hahead' hall'
        refine .inl ⟨b', t', ?_, hb', ht', hahead', ?_⟩
        · simp only [receiveRun, hrun, hrun', List.map_append, List.append_assoc]
        · intro q hq
          rcases List.mem_append.mp hq with hq | hq
          · exact hall q hq
          · exact hall' q hq
      · rw [hahead] at hq
        exact .inr ⟨by simp only [receiveRun, hrun, hrun'], q, by simp [hq], hlong⟩
    · rw [if_neg hall] at hends
      have hrun : handlePackage get record log b e = .undefined := hends
      obtain ⟨q, hq, hlong⟩ : ∃ q ∈ (f.receive (t.ahead ++ e.bytes)).1, PACKET_SIZE < q.length := by
        simpa using hall
      exact .inr ⟨by simp only [receiveRun, hrun], q, by simp [hq], hlong⟩

/-- Under any dispatcher the same packets are dispatched, for as long as the process lives. -/
theorem receiveRun_logged (hcap : cap ≤ INT_MAX) {dispatch : σ → packet_t → Outcome σ}
    {Inv : σ → Prop} (hinv : ∀ s p s', Inv s → dispatch s p = .running s' → Inv s')
    (es : List Event) (hget : ∀ e ∈ es, ∀ i, Gets f cap (get (e.locals i)))
    (h0 : ∀ e ∈ es, 0 < e.incount) (s : σ) (hs : Inv s) (log log' : List Delivery)
    (b b' : buffer_t) (t t' : Tape UInt8) (hb : Holds b t) (hb' : Holds b' t') (ht : t.size = cap)
    (ht' : t'.size = cap) (hahead : t'.ahead = t.ahead)
    (hfits : Fits (handlePackage get record) log' b' es)
    (hall : ∀ q ∈ (f.receiveAll t.ahead (es.map Event.bytes)).1, q.length ≤ PACKET_SIZE) :
    Logs dispatch Inv Prod.fst log (f.receiveAll t.ahead (es.map Event.bytes)).1
      (receiveRun (handlePackage get (logged dispatch)) (s, log) b es) := by
  induction es generalizing s log log' b b' t t' with
  | nil => exact ⟨hs, by simp⟩
  | cons e es ih =>
    obtain ⟨hfree, hrest⟩ := hfits
    have hpos := h0 e (by simp)
    have hfree' : e.incount ≤ b.buf_size - b.count := by
      rw [hb'.count, hb'.buf_size, ht', hahead, ← ht] at hfree
      rw [hb.count, hb.buf_size]
      exact hfree
    have hget' : ∀ i, Gets f cap (get (e.locals i)) := hget e (by simp)
    obtain ⟨t1, ht1, hahead1, hends⟩ := handlePackage_fits (logged dispatch) (s, log) b t e hget'
      hb ht hcap hpos hfree'
    obtain ⟨t1', ht1', hahead1', hends'⟩ := handlePackage_fits record log' b' t' e hget' hb' ht'
      hcap hpos hfree
    rw [List.map_cons, f.receiveAll_cons] at hall ⊢
    have hnow : ∀ q ∈ (f.receive (t.ahead ++ e.bytes)).1, q.length ≤ PACKET_SIZE :=
      fun q hq => hall q (by simp [hq])
    -- The record goes on, so the rest of the reads still fits.
    rw [hahead, dispatchAll_record, if_pos hnow] at hends'
    obtain ⟨b1', hrun', hb1'⟩ := hends'
    have hlogs := dispatchAll_logged hinv (f.receive (t.ahead ++ e.bytes)).1 hnow s hs log
      { e.packet with size := 0 }
    cases hd : dispatchAll (logged dispatch) (s, log) { e.packet with size := 0 }
      (f.receive (t.ahead ++ e.bytes)).1 with
    | running sl =>
      obtain ⟨s1, l1⟩ := sl
      rw [hd] at hends hlogs
      obtain ⟨b1, hrun, hb1⟩ := hends
      obtain ⟨hs1, hl1⟩ : Inv s1 ∧ l1 = log ++ (f.receive (t.ahead ++ e.bytes)).1.map delivery :=
        hlogs
      have := ih (fun e he => hget e (by simp [he])) (fun e he => h0 e (by simp [he])) s1 hs1 l1 _
        b1 b1' t1 t1' hb1 hb1' ht1 ht1' (by rw [hahead1, hahead1', hahead]) (hrest _ b1' hrun')
        (by rw [hahead1]; exact fun q hq => hall q (by simp [hq]))
      rw [hahead1, hl1] at this
      simp only [receiveRun, hrun]
      rw [hl1]
      exact this.append
    | exited status sl =>
      rw [hd] at hends hlogs
      obtain ⟨b1, hrun⟩ := hends
      exact hlogs.ended _ ⟨(sl, b1), by simp only [receiveRun, hrun], rfl⟩
    | aborted sl =>
      rw [hd] at hends hlogs
      obtain ⟨b1, hrun⟩ := hends
      exact hlogs.ended _ ⟨(sl, b1), by simp only [receiveRun, hrun], rfl⟩
    | undefined =>
      rw [hd] at hends hlogs
      have hrun : handlePackage get (logged dispatch) (s, log) b e = .undefined := hends
      apply hlogs.ended _
      simp only [receiveRun, hrun]

end dect_prog.package
