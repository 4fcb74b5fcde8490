-- The loop of main.c over an `event_t` that the stack held before, and what it
-- writes after a call of a handler. The loop resets the event behind each turn
-- and not before the first.
import DectProg.Receive

open dect_prog.package dect_prog.buffer

namespace dect_prog.event_loop

def BUF_SIZE : Nat := 50000

/-! ## The event -/

/-- The event of `main` with its two arrays. Before the first read all of it is what the stack
held; `incount` is set before anything looks at it. -/
structure event_t where
  input : List UInt8
  out : List UInt8
  outcount : Int
  input_length : input.length = BUF_SIZE
  out_length : out.length = BUF_SIZE

theorem zeros_length : (List.replicate BUF_SIZE (0 : UInt8)).length = BUF_SIZE :=
  List.length_replicate

/-- The event that the loop leaves behind a turn. -/
def event_t.cleared : event_t where
  input := List.replicate BUF_SIZE 0
  out := List.replicate BUF_SIZE 0
  outcount := 0
  input_length := zeros_length
  out_length := zeros_length

/-- What one turn finds: the bytes that are read, nothing where `read` fails, and the locals of the
handler. -/
structure Arrival where
  received : Option (List UInt8)
  received_le : ∀ bytes ∈ received, bytes.length ≤ BUF_SIZE
  packet : packet_t
  locals : Nat → Locals

def Arrival.bytes (a : Arrival) : List UInt8 := a.received.getD []

def Arrival.incount (a : Arrival) : Int :=
  match a.received with
  | some bytes => bytes.length
  | none => -1

theorem Arrival.bytes_le (a : Arrival) : a.bytes.length ≤ BUF_SIZE := by
  unfold bytes
  cases h : a.received with
  | none => exact Nat.zero_le _
  | some bytes => exact a.received_le bytes (by rw [h]; rfl)

theorem Arrival.incount_toNat (a : Arrival) : a.incount.toNat = a.bytes.length := by
  unfold incount bytes
  cases a.received <;> rfl

theorem Arrival.incount_le (a : Arrival) : a.incount ≤ a.bytes.length := by
  rw [← a.incount_toNat]
  exact Int.self_le_toNat _

theorem Arrival.incount_pos {a : Arrival} (h : a.bytes ≠ []) : 0 < a.incount := by
  have hpos := List.length_pos_iff.mpr h
  have := a.incount_toNat
  omega

theorem input_of_read (e : event_t) (a : Arrival) :
    (overwrite e.input 0 a.bytes).length = BUF_SIZE := by
  rw [overwrite_length, e.input_length]
  rw [e.input_length]
  have := a.bytes_le
  omega

/-- `e->incount = read(e->fd, e->in, BUF_SIZE)`. -/
def read (e : event_t) (a : Arrival) : Event where
  input := overwrite e.input 0 a.bytes
  incount := a.incount
  incount_le := by
    rw [input_of_read]
    have := a.incount_le
    have := a.bytes_le
    omega
  packet := a.packet
  locals := a.locals

/-- The bytes that `main` writes when the handler is back. More than the array holds is
undefined. -/
def reply (e : event_t) : Option (List UInt8) :=
  if e.outcount > 0 then
    if e.outcount ≤ BUF_SIZE then some (e.out.take e.outcount.toNat) else none
  else some []

/-! ## The handlers -/

abbrev Handler (σ : Type) := σ → event_t → Event → Outcome (σ × event_t)

variable {σ : Type}

/-- A handler that does not touch the reply. -/
def silent (handle : σ → Event → Outcome σ) : Handler σ :=
  fun s e ev => (handle s ev).map fun s => (s, e)

/-- The call leaves the reply as it found it. -/
def Leaves (handler : Handler σ) (s : σ) (ev : Event) : Prop :=
  ∀ e, handler s e ev = (handler s .cleared ev).map fun r => (r.1, e)

/-- The call returns with the same reply, whatever it found. -/
def Replies (handler : Handler σ) (s : σ) (ev : Event) (bytes : List UInt8) : Prop :=
  ∃ s', ∀ e, ∃ e', handler s e ev = .running (s', e') ∧ reply e' = some bytes

theorem silent_leaves (handle : σ → Event → Outcome σ) (s : σ) (ev : Event) :
    Leaves (silent handle) s ev := by
  intro e
  unfold silent
  cases handle s ev <;> rfl

/-! ## The modes -/

/-- A mode is its handler and its tty. What the handler replies does not depend on what it found in
the event. -/
structure Mode (σ : Type) where
  handler : Handler σ
  tty : σ → List UInt8
  write : σ → List UInt8 → σ
  write_nil : ∀ s, write s [] = s
  tty_write : ∀ s bytes, tty (write s bytes) = tty s ++ bytes
  leaves_or_replies : ∀ s ev, Leaves handler s ev ∨ ∃ bytes ≠ [], Replies handler s ev bytes

/-! ## The loop -/

variable (mode : Mode σ)

/-- Write reply if there is one. -/
def writeReply (s : σ) (e : event_t) : Outcome σ :=
  match reply e with
  | some bytes => .running (mode.write s bytes)
  | none => .undefined

/-- One turn. The handler is called on the read, and its reply is written when it is back. -/
def mainStep (s : σ) (e : event_t) (a : Arrival) : Outcome σ :=
  match mode.handler s e (read e a) with
  | .running (s, e) => writeReply mode s e
  | .exited status (s, _) => .exited status s
  | .aborted (s, _) => .aborted s
  | .undefined => .undefined

def mainLoop : σ → event_t → List Arrival → Outcome σ
  | s, _, [] => .running s
  | s, e, a :: as =>
    match mainStep mode s e a with
    -- Reset event_t
    | .running s => mainLoop s .cleared as
    | o => o

variable {mode} {s s' : σ} {e e' : event_t} {ev : Event} {a : Arrival} {as as' : List Arrival}

/-! ## The reply -/

theorem reply_of_le (h : e.outcount ≤ 0) : reply e = some [] := by
  unfold reply
  rw [if_neg (by omega)]

theorem reply_cleared : reply .cleared = some [] := reply_of_le (Int.le_refl 0)

theorem reply_of_pos (h : 0 < e.outcount) : reply e ≠ some [] := by
  unfold reply
  rw [if_pos h]
  split
  · intro hnil
    have hlen := congrArg List.length (Option.some.inj hnil)
    rw [List.length_take, e.out_length, List.length_nil, BUF_SIZE] at hlen
    omega
  · simp

theorem reply_some (h : e.outcount ≤ BUF_SIZE) :
    reply e = some (e.out.take e.outcount.toNat) := by
  unfold reply
  by_cases hpos : e.outcount > 0
  · rw [if_pos hpos, if_pos h]
  · have hzero : e.outcount.toNat = 0 := by omega
    rw [if_neg hpos, hzero, List.take_zero]

theorem reply_none (h : (BUF_SIZE : Int) < e.outcount) : reply e = none := by
  have hpos : e.outcount > 0 := Int.lt_of_le_of_lt (Int.natCast_nonneg BUF_SIZE) h
  unfold reply
  rw [if_pos hpos, if_neg (Int.not_le.mpr h)]

theorem writeReply_of_le (s : σ) (h : e.outcount ≤ 0) : writeReply mode s e = .running s := by
  rw [writeReply, reply_of_le h]
  exact congrArg Outcome.running (mode.write_nil s)

/-! ## One turn -/

/-- A call that leaves the event as it is, with nothing to reply. -/
theorem mainStep_silent {o : Outcome σ}
    (h : mode.handler s e (read e a) = o.map fun s => (s, e)) (he : e.outcount ≤ 0) :
    mainStep mode s e a = o := by
  rw [mainStep, h]
  cases o with
  | running s' => exact writeReply_of_le s' he
  | exited | aborted | undefined => rfl

theorem mainStep_running (h : mainStep mode s e a = .running s') :
    ∃ s1 e1 bytes, mode.handler s e (read e a) = .running (s1, e1) ∧ reply e1 = some bytes ∧
      s' = mode.write s1 bytes := by
  unfold mainStep at h
  cases hcall : mode.handler s e (read e a) with
  | running r =>
    obtain ⟨s1, e1⟩ := r
    simp only [hcall, writeReply] at h
    cases hreply : reply e1 with
    | some bytes =>
      rw [hreply] at h
      cases h
      exact ⟨s1, e1, bytes, rfl, hreply, rfl⟩
    | none =>
      rw [hreply] at h
      cases h
  | exited | aborted | undefined =>
    rw [hcall] at h
    cases h

theorem mainStep_exited {status : Int} (h : mainStep mode s e a = .exited status s') :
    ∃ e1, mode.handler s e (read e a) = .exited status (s', e1) := by
  unfold mainStep writeReply at h
  cases hcall : mode.handler s e (read e a) with
  | exited status1 r =>
    rw [hcall] at h
    cases h
    exact ⟨r.2, rfl⟩
  | running r =>
    rw [hcall] at h
    cases hreply : reply r.2 <;> simp only [hreply] at h <;> cases h
  | aborted | undefined =>
    rw [hcall] at h
    cases h

theorem mainStep_aborted (h : mainStep mode s e a = .aborted s') :
    ∃ e1, mode.handler s e (read e a) = .aborted (s', e1) := by
  unfold mainStep writeReply at h
  cases hcall : mode.handler s e (read e a) with
  | aborted r =>
    rw [hcall] at h
    cases h
    exact ⟨r.2, rfl⟩
  | running r =>
    rw [hcall] at h
    cases hreply : reply r.2 <;> simp only [hreply] at h <;> cases h
  | exited | undefined =>
    rw [hcall] at h
    cases h

theorem mainStep_tty_eq {bytes : List UInt8}
    (hcall : mode.handler s e (read e a) = .running (s', e')) (hreply : reply e' = some bytes) :
    (mainStep mode s e a).map mode.tty = .running (mode.tty s' ++ bytes) := by
  simp only [mainStep, hcall, writeReply, hreply]
  exact congrArg Outcome.running (mode.tty_write s' bytes)

/-! ## The turns -/

theorem mainLoop_cons (h : mainStep mode s e a = .running s') :
    mainLoop mode s e (a :: as) = mainLoop mode s' .cleared as := by
  rw [mainLoop, h]

theorem mainLoop_one : mainLoop mode s e [a] = mainStep mode s e a := by
  unfold mainLoop
  cases mainStep mode s e a <;> rfl

theorem mainLoop_append : ∀ {s : σ} {e : event_t}, as ≠ [] →
    mainLoop mode s e as = .running s' →
    mainLoop mode s e (as ++ as') = mainLoop mode s' .cleared as' := by
  induction as with
  | nil => exact fun hne => absurd rfl hne
  | cons a as ih =>
    intro s e _ h
    rw [List.cons_append]
    rw [mainLoop] at h
    cases hstep : mainStep mode s e a with
    | running s1 =>
      rw [hstep] at h
      rw [mainLoop_cons hstep]
      cases as with
      | nil =>
        cases h
        rfl
      | cons a' as => exact ih (List.cons_ne_nil a' as) h
    | exited | aborted | undefined =>
      rw [hstep] at h
      cases h

/-- A run that has ended, or not: after its first turn. -/
theorem mainLoop_last (h : (mainLoop mode s e (a :: as)).last = some s') :
    (∃ s1, mainStep mode s e a = .running s1 ∧ (mainLoop mode s1 .cleared as).last = some s') ∨
      (mainStep mode s e a).last = some s' := by
  rw [mainLoop] at h
  cases hstep : mainStep mode s e a with
  | running s1 =>
    rw [hstep] at h
    exact .inl ⟨s1, rfl, h⟩
  | exited | aborted | undefined =>
    rw [hstep] at h
    exact .inr h

/-! ## What a read brings -/

theorem read_take (e : event_t) (a : Arrival) :
    (read e a).input.take a.bytes.length = a.bytes := by
  simp [read, overwrite]

theorem read_bytes (e : event_t) (a : Arrival) : (read e a).bytes = a.bytes := by
  show (read e a).input.take a.incount.toNat = a.bytes
  rw [a.incount_toNat, read_take]

theorem read_head (e : event_t) (h : a.bytes ≠ []) :
    (read e a).input.headD 0 = a.bytes.headD 0 := by
  show (overwrite e.input 0 a.bytes).headD 0 = a.bytes.headD 0
  unfold overwrite
  cases hbytes : a.bytes with
  | nil => exact absurd hbytes h
  | cons b bytes => rfl

theorem read_head_cleared (h : a.bytes = []) : (read .cleared a).input.headD 0 = 0 := by
  show (overwrite event_t.cleared.input 0 a.bytes).headD 0 = 0
  rw [h, overwrite_nil]
  rfl

/-- A package handler takes the bytes that were read, and nothing behind them. -/
theorem package_read {get : Locals → packet_t → buffer_t → Option (Int × packet_t × buffer_t)}
    {dispatch : σ → packet_t → Outcome σ} {b : buffer_t} (s : σ) (e e' : event_t) (a : Arrival) :
    handlePackage get dispatch s b (read e a) = handlePackage get dispatch s b (read e' a) := by
  have hwrite : buffer_write b (read e a).input (read e a).incount =
      buffer_write b (read e' a).input (read e' a).incount := by
    refine buffer_write_congr ?_ ?_ a.incount_le
    · exact (input_of_read e a).trans (input_of_read e' a).symm
    · rw [read_take, read_take]
  rw [handlePackage, handlePackage, hwrite]
  rfl

/-- The reads, as a handler has them when the event was reset. -/
def events (as : List Arrival) : List Event := as.map (read .cleared)

theorem events_bytes (as : List Arrival) :
    (events as).map Event.bytes = as.map Arrival.bytes := by
  rw [events, List.map_map]
  exact List.map_congr_left fun a _ => read_bytes .cleared a

/-- Each `read` brought something or found nothing, and none failed. -/
def Succeeds (as : List Arrival) : Prop := ∀ a ∈ as, a.received.isSome

theorem Arrival.incount_nonneg (h : a.received.isSome) : 0 ≤ a.incount := by
  obtain ⟨bytes, hbytes⟩ := Option.isSome_iff_exists.mp h
  unfold incount
  rw [hbytes]
  exact Int.natCast_nonneg bytes.length

/-- A read of some bytes. -/
def arrivalOf (bytes : List UInt8) (h : bytes.length ≤ BUF_SIZE) : Arrival where
  received := some bytes
  received_le := fun _ hbytes => by cases hbytes; exact h
  packet := blank
  locals := (eventOf bytes).locals

end dect_prog.event_loop
