-- The receivers under noise: a receiver keeps free space in its buffer and takes
-- the next frames again, exactly when what it has pending does not block it.
import DectProg.BusReceive
import DectProg.Capacity
import DectProg.FlashReceive

open tape framing dect_prog.buffer dect_prog.package

namespace dect_prog.package

variable {σ : Type} {f : Format UInt8} {cap : Nat}
  {get : Locals → packet_t → buffer_t → Option (Int × packet_t × buffer_t)}

/-- What the loop of a handler leaves of a tape. -/
def left (f : Format UInt8) (t : Tape UInt8) : Tape UInt8 := afterTape f t (f.drain t.ahead).2

/-- What a receiver has pending after the events, from the tape `t` on. A read is cut to the free
space. -/
def pending (f : Format UInt8) : Tape UInt8 → List Event → Tape UInt8
  | t, [] => t
  | t, e :: es => pending f (left f (t.write e.bytes)) es

/-- No event blocks the receiver. -/
def Unblocked (f : Format UInt8) (cap : Nat) : Tape UInt8 → List Event → Prop
  | _, [] => True
  | t, e :: es => ¬ f.Blocked cap PACKET_SIZE (t.write e.bytes).ahead ∧
      Unblocked f cap (left f (t.write e.bytes)) es

def FreeSpace (b : buffer_t) : Prop := b.count < b.buf_size

/-- There are reads after which every frame with at most `max` bytes of payload is delivered in
the read that brings it. -/
def Recovers (handle : List Delivery → buffer_t → Event → Outcome (List Delivery × buffer_t))
    (Good : Event → Prop) (make_tx_packet : List UInt8 → List UInt8) (max : Nat) (b : buffer_t) :
    Prop :=
  ∃ es log b1, (∀ e ∈ es, 0 < e.incount ∧ Good e) ∧
    receiveRun handle [] b es = .running (log, b1) ∧
    ∀ q e, q.length ≤ max → Good e → e.bytes = make_tx_packet q →
      ∃ b2, handle log b1 e = .running (log ++ [delivery q], b2)

/-- What is delivered from here on has nothing to do with what is read. -/
def Deaf (handle : List Delivery → buffer_t → Event → Outcome (List Delivery × buffer_t))
    (Good : Event → Prop) (b : buffer_t) : Prop :=
  ∀ es es' log log' b1 b2, (∀ e ∈ es, 0 ≤ e.incount ∧ Good e) →
    (∀ e ∈ es', 0 ≤ e.incount ∧ Good e) → es.length = es'.length →
    receiveRun handle [] b es = .running (log, b1) →
    receiveRun handle [] b es' = .running (log', b2) → log = log'

/-- One event: what the handler takes out and what it leaves. -/
theorem handlePackage_left (dispatch : σ → packet_t → Outcome σ) (s : σ) {b : buffer_t}
    {t : Tape UInt8} {e : Event} (hget : ∀ i, Gets f cap (get (e.locals i))) (hb : Holds b t)
    (ht : t.size = cap) (hcap : cap ≤ INT_MAX) (h0 : 0 ≤ e.incount) :
    Ends (handlePackage get dispatch s b e)
      (dispatchAll dispatch s { e.packet with size := 0 } (f.drain (t.write e.bytes).ahead).1)
      (left f (t.write e.bytes)) :=
  handlePackage_tape dispatch s b t e hget hb ht hcap e.incount.toNat (by omega)

@[simp] theorem left_size (f : Format UInt8) (t : Tape UInt8) : (left f t).size = t.size :=
  afterTape_size f t _

theorem left_ahead {t : Tape UInt8} (h : t.ahead ≠ []) :
    (left f t).ahead = (f.receive t.ahead).2 :=
  afterTape_ahead f t _ (f.drain_suffix t.ahead) h

/-- Where there is nothing to look at, no more than one byte is put back. -/
theorem left_few {t : Tape UInt8} (h : t.ahead = []) : (left f t).ahead.length ≤ 1 := by
  unfold left
  rw [h, f.drain_stop (by simp [Format.parse_nil])]
  simp only [afterTape, Format.parse_nil]
  split
  · simp only [Tape.rewind, Tape.read, h, List.length_append, List.length_drop, List.drop_nil,
      List.length_nil]
    omega
  · simp [h]

/-- What is left of bytes that do not block does not block. -/
theorem not_blocked_left {t : Tape UInt8} (h : ¬ f.Blocked cap PACKET_SIZE t.ahead) :
    ¬ f.Blocked cap PACKET_SIZE (left f t).ahead := by
  by_cases hempty : t.ahead = []
  · have hfew := left_few (f := f) hempty
    rcases hleft : (left f t).ahead with _ | ⟨x, _ | ⟨y, s⟩⟩
    · exact fun hb => hb.ne_nil rfl
    · exact Format.not_blocked_singleton x
    · rw [hleft] at hfew
      simp at hfew
  · rw [left_ahead hempty]
    exact Format.not_blocked_receive h

theorem left_leaves_room (hcap : 3 ≤ cap) {t : Tape UInt8} (ht : t.size = cap)
    (h : ¬ f.Blocked cap PACKET_SIZE (left f t).ahead) : (left f t).ahead.length < cap := by
  by_cases hempty : t.ahead = []
  · have := left_few (f := f) hempty
    omega
  · have hroom : t.ahead.length ≤ t.size := Nat.le_add_left _ _
    rw [left_ahead hempty] at h ⊢
    exact Format.receive_leaves_room hcap (by omega) h

/-- The tape under the buffer that a run leaves. -/
theorem receiveRun_pending (dispatch : σ → packet_t → Outcome σ) (hcap : cap ≤ INT_MAX)
    (es : List Event) (hget : ∀ e ∈ es, ∀ i, Gets f cap (get (e.locals i)))
    (h0 : ∀ e ∈ es, 0 ≤ e.incount) {s s' : σ} {b b' : buffer_t} {t : Tape UInt8} (hb : Holds b t)
    (ht : t.size = cap)
    (hrun : receiveRun (handlePackage get dispatch) s b es = .running (s', b')) :
    Holds b' (pending f t es) := by
  induction es generalizing s b t with
  | nil =>
    cases hrun
    exact hb
  | cons e es ih =>
    have hends := handlePackage_left dispatch s (hget e (by simp)) hb ht hcap (h0 e (by simp))
    unfold receiveRun at hrun
    split at hrun
    · rename_i s1 b1 hstep
      rw [hstep] at hends
      exact ih (fun e he => hget e (by simp [he])) (fun e he => h0 e (by simp [he]))
        hends.holds.2 (by simpa using ht) hrun
    · rename_i hstep
      exact absurd hrun (hstep s' b')

/-! ## What a run keeps -/

@[simp] theorem pending_size (f : Format UInt8) (t : Tape UInt8) (es : List Event) :
    (pending f t es).size = t.size := by
  induction es generalizing t with
  | nil => rfl
  | cons e es ih =>
    rw [pending, ih, left_size, Tape.size_write]

theorem unblocked_pending {t : Tape UInt8} {es : List Event}
    (ht : ¬ f.Blocked cap PACKET_SIZE t.ahead) (h : Unblocked f cap t es) :
    ¬ f.Blocked cap PACKET_SIZE (pending f t es).ahead := by
  induction es generalizing t with
  | nil => exact ht
  | cons e es ih => exact ih (not_blocked_left h.1) h.2

/-- When what is pending does not block, there is room. -/
theorem pending_leaves_room (hcap : 3 ≤ cap) {t : Tape UInt8} (ht : t.size = cap) (es : List Event)
    (hroom : ¬ f.Blocked cap PACKET_SIZE t.ahead → t.ahead.length < cap) :
    ¬ f.Blocked cap PACKET_SIZE (pending f t es).ahead → (pending f t es).ahead.length < cap := by
  induction es generalizing t with
  | nil => exact hroom
  | cons e es ih =>
    have hsize : (t.write e.bytes).size = cap := by rw [Tape.size_write, ht]
    exact ih (by rw [left_size, hsize]) (left_leaves_room hcap hsize)

/-! ## Recovery -/

/-- A receiver with pending bytes that do not block it recovers. -/
theorem recovers_of_not_blocked {Good : Event → Prop}
    (hgood : ∀ bytes, Good (eventOf bytes))
    (hget : ∀ e, Good e → ∀ i, Gets f cap (get (e.locals i))) (hcap : cap ≤ INT_MAX)
    (htrailer : 0 < f.trailerLength) (hroom : 3 + f.trailerLength ≤ cap) {max : Nat}
    (hmax : max + f.trailerLength + 3 ≤ cap) (hsize : max ≤ PACKET_SIZE)
    (hlength : max ≤ f.maxLength) {b : buffer_t} {t : Tape UInt8} (hb : Holds b t) (ht : t.size = cap)
    (hlt : t.ahead.length < cap) (h : ¬ f.Blocked cap PACKET_SIZE t.ahead) :
    Recovers (handlePackage get record) Good f.encode max b := by
  have : Nontrivial UInt8 := ⟨⟨0, 1, by decide⟩⟩
  obtain ⟨ds, hds, hfits, hsizes, hnil⟩ := Format.recovers htrailer hroom t.ahead hlt h
  have hbytes : (ds.map eventOf).map Event.bytes = ds := by
    rw [List.map_map]
    exact (List.map_congr_left fun d _ => eventOf_bytes d).trans (List.map_id ds)
  have hes : ∀ e ∈ ds.map eventOf, 0 < e.incount ∧ Good e := by
    intro e he
    obtain ⟨d, hd, rfl⟩ := List.mem_map.mp he
    have := List.length_pos_iff.mpr (hds d hd)
    refine ⟨?_, hgood d⟩
    show (0 : Int) < d.length
    omega
  have hgets : ∀ e ∈ ds.map eventOf, ∀ i, Gets f cap (get (e.locals i)) :=
    fun e he => hget e (hes e he).2
  have hrun := receiveRun_record hcap (ds.map eventOf) hgets (fun e he => (hes e he).1) [] b t hb
    ht (fits_of_fitsIn record hcap _ hgets (fun e he => (hes e he).1) [] b t hb ht
      (by rw [hbytes]; exact hfits))
  rw [hbytes, hnil] at hrun
  rcases hrun with ⟨b1, t1, hrun, hb1, ht1, hahead, -⟩ | ⟨-, q, hq, hlong⟩
  · refine ⟨ds.map eventOf, _, b1, hes, hrun, fun q e hq he hframe => ?_⟩
    have hlen : e.bytes.length = q.length + f.trailerLength + 3 := by
      rw [hframe, f.encode_length]
    have hcount := e.incount_le
    have hcut : e.bytes.length = min e.incount.toNat e.input.length := by
      rw [Event.bytes, List.length_take]
    have hcells : t1.past.length + t1.ahead.length = cap := ht1
    rw [hahead, List.length_nil] at hcells
    obtain ⟨t2, -, -, hends⟩ := handlePackage_fits record _ b1 t1 e (hget e he) hb1 ht1 hcap
      (by omega) (by rw [hb1.count, hb1.buf_size, ht1, hahead, List.length_nil]; omega)
    have hparse : f.parse e.bytes = .frame q [] := by
      have := f.parse_encode q [] (by omega)
      rw [List.append_nil] at this
      rw [hframe, this]
    have hreceive : (f.receive (t1.ahead ++ e.bytes)).1 = [q] := by
      rw [hahead, List.nil_append, Format.receive, f.drain_frame hparse,
        f.drain_stop (by simp [Format.parse_nil])]
    rw [hreceive, dispatchAll_record, if_pos (by simpa using Nat.le_trans hq hsize)] at hends
    obtain ⟨b2, hb2, -⟩ := hends
    exact ⟨b2, hb2⟩
  · exact absurd (hsizes q hq) (by omega)

/-- A receiver waits for a frame that has not arrived as a whole. -/
theorem receiveRun_short (hcap : cap ≤ INT_MAX) {c : List UInt8} (hne : c ≠ [])
    (hlen : c.length ≤ cap) (hparse : f.parse c = .short c)
    (hget : ∀ i, Gets f cap (get ((eventOf c).locals i))) {b : buffer_t} {t : Tape UInt8}
    (hb : Holds b t) (ht : t.size = cap) (hnew : t.ahead = []) :
    ∃ (b' : buffer_t) (t' : Tape UInt8),
      receiveRun (handlePackage get record) [] b [eventOf c] = .running ([], b') ∧
        Holds b' t' ∧ t'.size = cap ∧ t'.ahead = c := by
  have hpos : 0 < (eventOf c).incount := by
    have := List.length_pos_iff.mpr hne
    show (0 : Int) < c.length
    omega
  obtain ⟨t', ht', hahead, hends⟩ := handlePackage_fits record [] b t (eventOf c) hget hb ht hcap
    hpos (by
      rw [hb.count, hb.buf_size, ht, hnew]
      show (c.length : Int) ≤ cap - 0
      omega)
  rw [hnew, List.nil_append, eventOf_bytes, Format.receive_short hparse] at hahead hends
  obtain ⟨b', hrun, hb'⟩ := hends
  exact ⟨b', t', by simp only [receiveRun, hrun], hb', ht', hahead⟩

/-! ## Deaf receivers -/

theorem blocked_step (hcap : cap ≤ INT_MAX) {log log' : List Delivery} {b b' : buffer_t}
    {t : Tape UInt8} {e : Event} (hget : ∀ i, Gets f cap (get (e.locals i)))
    (h0 : 0 ≤ e.incount) (hb : Holds b t) (ht : t.size = cap) {c d : List UInt8}
    (hahead : t.ahead = c ++ d) (h : f.Blocked cap PACKET_SIZE c)
    (hstep : handlePackage get record log b e = .running (log', b')) :
    log' = log ++ (f.receive c).1.map delivery ∧ f.Blocked cap PACKET_SIZE (f.receive c).2 ∧
      ∃ (t' : Tape UInt8) (d' : List UInt8), Holds b' t' ∧ t'.size = cap ∧
        t'.ahead = (f.receive c).2 ++ d' := by
  have hends := handlePackage_left record log hget hb ht hcap h0
  rw [hstep, dispatchAll_record] at hends
  have hsize : (t.write e.bytes).size = cap := by rw [Tape.size_write, ht]
  have hroom : (t.write e.bytes).ahead.length ≤ cap := by
    rw [← hsize]
    exact Nat.le_add_left _ _
  obtain ⟨d', hd'⟩ : ∃ d', (t.write e.bytes).ahead = c ++ d' :=
    ⟨d ++ e.bytes.take t.past.length, by rw [Tape.write_ahead, hahead, List.append_assoc]⟩
  have hne : (t.write e.bytes).ahead ≠ [] := by
    rw [hd']
    exact List.append_ne_nil_of_left_ne_nil h.ne_nil _
  have hblocked := Format.blocked_receive h (hd' ▸ hroom)
  rw [← hd'] at hblocked
  obtain ⟨hrun, hb'⟩ := hends.holds
  split at hrun
  · rename_i hsizes
    cases hrun
    rcases hblocked with ⟨q, hq, hlong⟩ | ⟨hreceive, hkept⟩
    · exact absurd (hsizes q hq) (by omega)
    · have hdrain : (f.drain (t.write e.bytes).ahead).1 = (f.receive c).1 :=
        (congrArg Prod.fst hreceive :)
      refine ⟨by rw [hdrain], hkept, _, d', hb', by rw [left_size, hsize], ?_⟩
      rw [left_ahead hne, hreceive]
  · cases hrun

/-- A receiver with pending bytes that block it gives out what it has, and nothing of what comes
later. -/
theorem blocked_run (hcap : cap ≤ INT_MAX) (es : List Event)
    (hget : ∀ e ∈ es, ∀ i, Gets f cap (get (e.locals i))) (h0 : ∀ e ∈ es, 0 ≤ e.incount)
    {log log' : List Delivery} {b b' : buffer_t} {t : Tape UInt8} (hb : Holds b t)
    (ht : t.size = cap) {c d : List UInt8} (hahead : t.ahead = c ++ d)
    (h : f.Blocked cap PACKET_SIZE c)
    (hrun : receiveRun (handlePackage get record) log b es = .running (log', b')) :
    log' = log ++ (f.given c es.length).map delivery := by
  induction es generalizing log b t c d with
  | nil =>
    cases hrun
    simp [Format.given]
  | cons e es ih =>
    unfold receiveRun at hrun
    split at hrun
    · rename_i log1 b1 hstep
      obtain ⟨rfl, hkept, t1, d1, hb1, ht1, hahead1⟩ := blocked_step hcap (hget e (by simp))
        (h0 e (by simp)) hb ht hahead h hstep
      have hrest := ih (fun e he => hget e (by simp [he])) (fun e he => h0 e (by simp [he])) hb1 ht1
        hahead1 hkept hrun
      rw [hrest, List.length_cons, Format.given, List.map_append, List.append_assoc]
    · rename_i hstep
      exact absurd hrun (hstep log' b')

theorem deaf_of_blocked {Good : Event → Prop}
    (hget : ∀ e, Good e → ∀ i, Gets f cap (get (e.locals i))) (hcap : cap ≤ INT_MAX)
    {b : buffer_t} {t : Tape UInt8} (hb : Holds b t) (ht : t.size = cap)
    (h : f.Blocked cap PACKET_SIZE t.ahead) : Deaf (handlePackage get record) Good b := by
  intro es es' log log' b1 b2 hes hes' hlen hrun hrun'
  have hlog := blocked_run hcap es (fun e he => hget e (hes e he).2) (fun e he => (hes e he).1)
    hb ht (List.append_nil _).symm h hrun
  have hlog' := blocked_run hcap es' (fun e he => hget e (hes' e he).2) (fun e he => (hes' e he).1)
    hb ht (List.append_nil _).symm h hrun'
  rw [hlog, hlog', hlen]

/-- A deaf receiver delivers two different frames as the same packet, and so does not recover. -/
theorem Deaf.not_recovers
    {handle : List Delivery → buffer_t → Event → Outcome (List Delivery × buffer_t)} {Good : Event → Prop} {max : Nat} {b : buffer_t} (h : Deaf handle Good b)
    (hgood : ∀ bytes, Good (eventOf bytes)) (hmax : 1 ≤ max) :
    ¬ Recovers handle Good f.encode max b := by
  rintro ⟨es, log, b1, hes, hrun, hdelivers⟩
  have hnext : ∀ q, q.length ≤ max → ∃ b2,
      receiveRun handle [] b (es ++ [eventOf (f.encode q)]) =
        .running (log ++ [delivery q], b2) := by
    intro q hq
    obtain ⟨b2, hb2⟩ := hdelivers q (eventOf (f.encode q)) hq (hgood _) (eventOf_bytes _)
    exact ⟨b2, receiveRun_concat hrun hb2⟩
  have hgoods : ∀ q, ∀ e ∈ es ++ [eventOf (f.encode q)], 0 ≤ e.incount ∧ Good e := by
    intro q e he
    rcases List.mem_append.mp he with he | he
    · exact ⟨Int.le_of_lt (hes e he).1, (hes e he).2⟩
    · rw [List.mem_singleton.mp he]
      exact ⟨eventOf_count _, hgood _⟩
  obtain ⟨b2, h0⟩ := hnext [0] hmax
  obtain ⟨b3, h1⟩ := hnext [1] hmax
  have hsame := h _ _ _ _ b2 b3 (hgoods [0]) (hgoods [1]) (by simp) h0 h1
  have := List.append_cancel_left hsame
  cases this

/-- The state that a run leaves has free space and recovers exactly when what is pending does
not block. Otherwise it is deaf. -/
theorem free_and_recovers_iff {Good : Event → Prop} (hgood : ∀ bytes, Good (eventOf bytes))
    (hget : ∀ e, Good e → ∀ i, Gets f cap (get (e.locals i))) (hcap : cap ≤ INT_MAX)
    (htrailer : 0 < f.trailerLength) {max : Nat} (hone : 1 ≤ max)
    (hmax : max + f.trailerLength + 3 ≤ cap) (hsize : max ≤ PACKET_SIZE)
    (hlength : max ≤ f.maxLength) (dispatch : σ → packet_t → Outcome σ) {es : List Event}
    (h0 : ∀ e ∈ es, 0 ≤ e.incount) (hes : ∀ e ∈ es, Good e) {s s' : σ} {b0 b : buffer_t}
    {t0 : Tape UInt8} (hb0 : Holds b0 t0) (ht0 : t0.size = cap) (hnew : t0.ahead = [])
    (hrun : receiveRun (handlePackage get dispatch) s b0 es = .running (s', b)) :
    (FreeSpace b ∧ Recovers (handlePackage get record) Good f.encode max b ↔
      ¬ f.Blocked cap PACKET_SIZE (pending f t0 es).ahead) ∧
    (f.Blocked cap PACKET_SIZE (pending f t0 es).ahead →
      Deaf (handlePackage get record) Good b) := by
  have hb := receiveRun_pending dispatch hcap es (fun e he => hget e (hes e he)) h0 hb0 ht0 hrun
  have ht : (pending f t0 es).size = cap := by rw [pending_size, ht0]
  have hdeaf := deaf_of_blocked hget hcap hb ht
  refine ⟨⟨?_, ?_⟩, hdeaf⟩
  · rintro ⟨-, hrecovers⟩ hblocked
    exact (hdeaf hblocked).not_recovers hgood hone hrecovers
  · intro hnot
    have hempty : ¬ f.Blocked cap PACKET_SIZE t0.ahead → t0.ahead.length < cap := fun _ => by
      rw [hnew, List.length_nil]
      omega
    have hlt := pending_leaves_room (by omega) ht0 es hempty hnot
    refine ⟨?_, recovers_of_not_blocked hgood hget hcap htrailer (by omega) hmax hsize hlength hb ht
      hlt hnot⟩
    rw [FreeSpace, hb.count, hb.buf_size, ht]
    omega

end dect_prog.package

namespace dect_prog

/-- The tape under a new buffer. -/
def newTape (cap : Nat) : Tape UInt8 := ⟨List.replicate cap 0, []⟩

theorem newTape_header {cap : Nat} (hcap : 0 < cap) (x : UInt8) :
    ((newTape cap).write (eventOf [x]).bytes).ahead = [x] := by
  rw [eventOf_bytes, Tape.write_ahead, newTape, List.nil_append, List.length_replicate,
    List.take_of_length_le hcap]

/-- Every frame that the packets of the flash loader can hold is delivered again. -/
def flashRecovers (b : buffer_t) : Prop :=
  Recovers (flashloader.handle_flashloader_package record) (fun _ => True)
    flashloader.make_tx_packet PACKET_SIZE b

/-- Every frame that the buffer of the two busmail modes can hold is delivered again, with `start`
as 0. -/
def busmailRecovers (b : buffer_t) : Prop :=
  Recovers (busmail.handleBusmailPackage record) (fun e => ∀ i, (e.locals i).start = 0)
    busmail.make_tx_packet 496 b

def flashDeaf (b : buffer_t) : Prop :=
  Deaf (flashloader.handle_flashloader_package record) (fun _ => True) b

def busmailDeaf (b : buffer_t) : Prop :=
  Deaf (busmail.handleBusmailPackage record) (fun e => ∀ i, (e.locals i).start = 0) b

variable {σ : Type}

theorem flash_free_and_recovers_iff (dispatch : σ → packet_t → Outcome σ) {es : List Event}
    (h0 : ∀ e ∈ es, 0 ≤ e.incount) {b0 b : buffer_t} (hnew : buffer_new 5000 = some b0)
    {s s' : σ} (hrun : receiveRun (flashloader.handle_flashloader_package dispatch) s b0 es =
      .running (s', b)) :
    (FreeSpace b ∧ flashRecovers b ↔
      ¬ flashloader.format.Blocked 5000 PACKET_SIZE
        (pending flashloader.format (newTape 5000) es).ahead) ∧
    (flashloader.format.Blocked 5000 PACKET_SIZE
      (pending flashloader.format (newTape 5000) es).ahead → flashDeaf b) := by
  obtain ⟨b0', hnew', hb0⟩ := flashloader.flash_buffer
  obtain rfl : b0 = b0' := Option.some.inj (hnew.symm.trans hnew')
  exact free_and_recovers_iff (fun _ => trivial) (fun e _ => flashloader.flash_gets e)
    flashloader.flash_capacity (by decide) (by decide : 1 ≤ PACKET_SIZE) (by decide) (by decide)
    (by decide) dispatch h0 (fun _ _ => trivial) hb0 (Tape.size_new 5000 0) rfl hrun

theorem busmail_free_and_recovers_iff (dispatch : σ → packet_t → Outcome σ) {es : List Event}
    (h0 : ∀ e ∈ es, 0 ≤ e.incount) (hstart : busmail.StartsAtZero es) {b0 b : buffer_t}
    (hnew : buffer_new 500 = some b0) {s s' : σ}
    (hrun : receiveRun (busmail.handleBusmailPackage dispatch) s b0 es = .running (s', b)) :
    (FreeSpace b ∧ busmailRecovers b ↔
      ¬ busmail.format.Blocked 500 PACKET_SIZE
        (pending busmail.format (newTape 500) es).ahead) ∧
    (busmail.format.Blocked 500 PACKET_SIZE
      (pending busmail.format (newTape 500) es).ahead → busmailDeaf b) := by
  obtain ⟨b0', hnew', hb0⟩ := busmail.bus_buffer
  obtain rfl : b0 = b0' := Option.some.inj (hnew.symm.trans hnew')
  exact free_and_recovers_iff (fun _ _ => rfl)
    (fun e he i => busmail.busmail_get.spec _ (he i) 500 (by decide) (by decide))
    busmail.bus_capacity (by decide) (by decide : 1 ≤ 496) (by decide) (by decide) (by decide)
    dispatch h0 hstart hb0 (Tape.size_new 500 0) rfl hrun

/-! ## The law -/

/-- A handler that returns leaves free space, and a receiver that recovers, exactly when what is
pending does not block it; otherwise the receiver is deaf. When no event of a run blocks it,
nothing pending ever does. -/
theorem noise_wedges_a_receiver_exactly_when_it_blocks (dispatch : σ → packet_t → Outcome σ)
    (es : List Event) (s s' : σ) (b0 b : buffer_t) (h0 : ∀ e ∈ es, 0 ≤ e.incount) :
    (buffer_new 5000 = some b0 →
      receiveRun (flashloader.handle_flashloader_package dispatch) s b0 es = .running (s', b) →
      (FreeSpace b ∧ flashRecovers b ↔
        ¬ flashloader.format.Blocked 5000 PACKET_SIZE
          (pending flashloader.format (newTape 5000) es).ahead) ∧
      (flashloader.format.Blocked 5000 PACKET_SIZE
        (pending flashloader.format (newTape 5000) es).ahead → flashDeaf b) ∧
      (Unblocked flashloader.format 5000 (newTape 5000) es → FreeSpace b ∧ flashRecovers b)) ∧
    (buffer_new 500 = some b0 → busmail.StartsAtZero es →
      receiveRun (busmail.handleBusmailPackage dispatch) s b0 es = .running (s', b) →
      (FreeSpace b ∧ busmailRecovers b ↔
        ¬ busmail.format.Blocked 500 PACKET_SIZE
          (pending busmail.format (newTape 500) es).ahead) ∧
      (busmail.format.Blocked 500 PACKET_SIZE
        (pending busmail.format (newTape 500) es).ahead → busmailDeaf b) ∧
      (Unblocked busmail.format 500 (newTape 500) es → FreeSpace b ∧ busmailRecovers b)) := by
  constructor
  · intro hnew hrun
    obtain ⟨hiff, hdeaf⟩ := flash_free_and_recovers_iff dispatch h0 hnew hrun
    refine ⟨hiff, hdeaf, fun h => ?_⟩
    exact hiff.mpr (unblocked_pending (fun hb => hb.ne_nil rfl) h)
  · intro hnew hstart hrun
    obtain ⟨hiff, hdeaf⟩ := busmail_free_and_recovers_iff dispatch h0 hstart hnew hrun
    refine ⟨hiff, hdeaf, fun h => ?_⟩
    exact hiff.mpr (unblocked_pending (fun hb => hb.ne_nil rfl) h)

/-- Both receivers recover from a header byte alone. -/
theorem noise_wedges_a_receiver_exactly_when_it_blocks_for_a_header :
    (∃ b0 b, buffer_new 5000 = some b0 ∧
      receiveRun (flashloader.handle_flashloader_package record) [] b0 [eventOf [0x46]] =
        .running ([], b) ∧ FreeSpace b ∧ flashRecovers b) ∧
    ∃ b0 b, buffer_new 500 = some b0 ∧
      receiveRun (busmail.handleBusmailPackage record) [] b0 [eventOf [0x10]] =
        .running ([], b) ∧ FreeSpace b ∧ busmailRecovers b := by
  constructor
  · obtain ⟨b0, hnew, hb0⟩ := flashloader.flash_buffer
    obtain ⟨b, -, hrun, -⟩ := receiveRun_short flashloader.flash_capacity (by simp) (by simp)
      (by decide : flashloader.format.parse [0x46] = .short [0x46])
      (flashloader.flash_gets _) hb0 (Tape.size_new 5000 0) rfl
    refine ⟨b0, b, hnew, hrun, ?_⟩
    apply ((noise_wedges_a_receiver_exactly_when_it_blocks record _ [] _ b0 b
      fun e he => by rw [List.mem_singleton.mp he]; exact eventOf_count _).1 hnew hrun).2.2
    refine ⟨?_, trivial⟩
    rw [newTape_header (by decide)]
    exact Format.not_blocked_singleton 0x46
  · obtain ⟨b0, hnew, hb0⟩ := busmail.bus_buffer
    have hstart := busmail.singles_start [[0x10]]
    obtain ⟨b, -, hrun, -⟩ := receiveRun_short busmail.bus_capacity (by simp) (by simp)
      (by decide : busmail.format.parse [0x10] = .short [0x10])
      (busmail.bus_gets hstart _ (by simp)) hb0 (Tape.size_new 500 0) rfl
    refine ⟨b0, b, hnew, hrun, ?_⟩
    apply ((noise_wedges_a_receiver_exactly_when_it_blocks record _ [] _ b0 b
      fun e he => by rw [List.mem_singleton.mp he]; exact eventOf_count _).2 hnew hstart hrun).2.2
    refine ⟨?_, trivial⟩
    rw [newTape_header (by decide)]
    exact Format.not_blocked_singleton 0x10

/-- A header that announces more than the buffer has room for. -/
def flashNoise : List UInt8 := [0x46, 0xFF, 0xFF] ++ List.replicate 4997 0

theorem flashNoise_length : flashNoise.length = 5000 := by
  rw [flashNoise, List.length_append, List.length_replicate]
  rfl

theorem flashNoise_short : flashloader.format.parse flashNoise = .short flashNoise := by
  have hheader : flashNoise = flashloader.format.header :: 0xFF :: 0xFF ::
    List.replicate 4997 0 := rfl
  rw [hheader, flashloader.format.parse_header]
  simp only [Format.body, List.length_replicate]
  rw [if_pos (by decide)]

/-- Behind a false header the buffer of the flash loader fills up. The header and the length
0xFFFF are enough to make a busmail receiver deaf. -/
theorem a_false_header_wedges_the_receivers :
    (∃ b0 b, buffer_new 5000 = some b0 ∧
      receiveRun (flashloader.handle_flashloader_package record) [] b0 [eventOf flashNoise] =
        .running ([], b) ∧ ¬ FreeSpace b) ∧
    ∃ b0 b, buffer_new 500 = some b0 ∧
      receiveRun (busmail.handleBusmailPackage record) [] b0 [eventOf [0x10, 0xFF, 0xFF]] =
        .running ([], b) ∧ busmailDeaf b ∧ ¬ busmailRecovers b := by
  constructor
  · obtain ⟨b0, hnew, hb0⟩ := flashloader.flash_buffer
    have hlen := flashNoise_length
    obtain ⟨b, t, hrun, hb, ht, hahead⟩ := receiveRun_short flashloader.flash_capacity
      (by rw [← List.length_pos_iff, hlen]; decide) (Nat.le_of_eq hlen) flashNoise_short
      (flashloader.flash_gets _) hb0 (Tape.size_new 5000 0) rfl
    refine ⟨b0, b, hnew, hrun, fun hfree => ?_⟩
    rw [FreeSpace, hb.count, hb.buf_size, ht, hahead, hlen] at hfree
    omega
  · obtain ⟨b0, hnew, hb0⟩ := busmail.bus_buffer
    have hstart := busmail.singles_start [[0x10, 0xFF, 0xFF]]
    have hparse : busmail.format.parse [0x10, 0xFF, 0xFF] = .short [0x10, 0xFF, 0xFF] := by decide
    obtain ⟨b, t, hrun, hb, ht, hahead⟩ := receiveRun_short busmail.bus_capacity (by simp) (by simp)
      hparse (busmail.bus_gets hstart _ (by simp)) hb0 (Tape.size_new 500 0) rfl
    have hblocked : busmail.format.Blocked 500 PACKET_SIZE t.ahead := by
      rw [hahead]
      refine .long hparse fun y hy => ?_
      obtain rfl : 0xFF = y := by simpa using hy
      decide
    have hdeaf : busmailDeaf b := deaf_of_blocked
      (fun e he i => busmail.busmail_get.spec _ (he i) 500 (by decide) (by decide))
      busmail.bus_capacity hb ht hblocked
    have hnot : ¬ busmailRecovers b :=
      Deaf.not_recovers (f := busmail.format) hdeaf (fun _ _ => rfl) (by decide : 1 ≤ 496)
    exact ⟨b0, b, hnew, hrun, hdeaf, hnot⟩

end dect_prog
