-- The APP and the NVS mode as a whole: the loop of main.c over reads, the ring
-- buffer, the packet function, and busmail.c with its linked list do what the
-- link layer does with one packet after the other.
import DectProg.BusReceive
import DectProg.EventLoop
import DectProg.FrameRuns

open tape framing dect_prog.buffer

namespace dect_prog.busmail

open dect_prog.package

variable {κ : Type} (application_frame : Callback κ)

theorem linked.processRun_eq (ps : List packet_t) :
    ∀ s, linked.processRun application_frame s ps =
      dispatchEach (linked.busmail_dispatch application_frame) s ps := by
  induction ps with
  | nil => exact fun _ => rfl
  | cons p ps ih =>
    intro s
    simp only [linked.processRun, dispatchEach]
    cases linked.busmail_dispatch application_frame s p with
    | running s1 => exact ih s1
    | exited | aborted | undefined => rfl

end dect_prog.busmail

namespace dect_prog.event_loop

open dect_prog.package dect_prog.busmail dect_prog.busmail.linked

/-! ## The reads -/

/-- The uninitialised `start` of `busmail_get` is 0 in every call. -/
def StartsAtZero (as : List Arrival) : Prop := ∀ a ∈ as, ∀ i, (a.locals i).start = 0

variable {κ : Type} (application_frame : Callback κ)

/-- Two ends of the same kind, where the state of the first has also a buffer. -/
def SameProcess : Outcome (Bus κ) → Outcome (Process κ) → Prop := Outcome.Rel fun s s' => s.1 = s'

/-- One turn of the loop. -/
theorem bus_step {b : buffer_t} {t : Tape UInt8} {e : event_t} {a : Arrival} (s : Process κ)
    (hb : Holds b t) (ht : t.size = 500) (he : e.outcount ≤ 0) (hread : a.received.isSome)
    (hstart : ∀ i, (a.locals i).start = 0) :
    Ends (mainStep (busmailMode application_frame) (s, b) e a)
      (dispatchEach (deliver (linked.busmail_dispatch application_frame)) s
        (carried { a.packet with size := 0 } (busmail.format.drain (t.write a.bytes).ahead).1))
      (package.left busmail.format (t.write a.bytes)) := by
  have hends := handlePackage_each (linked.busmail_dispatch application_frame) s
    (e := read e a) (fun i => busmail_get.spec _ (hstart i) 500 (by decide) (by decide)) hb ht
    bus_capacity (Arrival.incount_nonneg hread)
  rw [read_bytes] at hends
  have hstep : mainStep (busmailMode application_frame) (s, b) e a =
      handlePackage busmail_get (linked.busmail_dispatch application_frame) s b (read e a) :=
    mainStep_silent rfl he
  rw [hstep]
  exact hends

/-- The loop does with the reads what the process does with their packets. -/
theorem bus_loop (as : List Arrival) :
    ∀ {b : buffer_t} {t : Tape UInt8} {e : event_t} (s : Process κ), Holds b t → t.size = 500 →
      e.outcount ≤ 0 → Succeeds as → StartsAtZero as →
      SameProcess (mainLoop (busmailMode application_frame) (s, b) e as)
        (dispatchEach (deliver (linked.busmail_dispatch application_frame)) s
          (frames busmail.format t (events as))) := by
  induction as with
  | nil => exact fun _ _ _ _ _ _ => rfl
  | cons a as ih =>
    intro b t e s hb ht he hreads hstarts
    obtain ⟨hread, hreads⟩ := List.forall_mem_cons.mp hreads
    obtain ⟨hstart, hstarts⟩ := List.forall_mem_cons.mp hstarts
    have hends := bus_step application_frame s hb ht he hread hstart
    have hframes : frames busmail.format t (events (a :: as)) =
        carried { a.packet with size := 0 } (busmail.format.drain (t.write a.bytes).ahead).1 ++
          frames busmail.format (package.left busmail.format (t.write a.bytes)) (events as) := by
      rw [← read_bytes .cleared a]
      rfl
    rw [hframes, dispatchEach_append, mainLoop]
    cases hd : dispatchEach (deliver (linked.busmail_dispatch application_frame)) s
      (carried { a.packet with size := 0 } (busmail.format.drain (t.write a.bytes).ahead).1) with
    | running s1 =>
      rw [hd] at hends
      obtain ⟨b1, hstep, hb1⟩ := hends
      rw [hstep]
      apply ih s1 hb1 _ (Int.le_refl 0) hreads hstarts
      rw [left_size, Tape.size_write, ht]
    | exited status s1 =>
      rw [hd] at hends
      obtain ⟨b1, hstep⟩ := hends
      rw [hstep]
      exact ⟨rfl, rfl⟩
    | aborted s1 =>
      rw [hd] at hends
      obtain ⟨b1, hstep⟩ := hends
      rw [hstep]
      exact rfl
    | undefined =>
      rw [hd] at hends
      have hstep : mainStep (busmailMode application_frame) (s, b) e a = .undefined := hends
      rw [hstep]
      trivial

/-! ## The link layer under the loop -/

/-- The variables of the process and the bytes on the tty are those of the link layer. -/
def BusRefines (s : Bus κ) (l : Link κ) : Prop := ProcessRefines s.1 l

theorem bus_refines {b : buffer_t} {t : Tape UInt8} {e : event_t} {s : Process κ} {l : Link κ}
    (as : List Arrival) (hb : Holds b t) (ht : t.size = 500) (he : e.outcount ≤ 0)
    (hreads : Succeeds as) (hstarts : StartsAtZero as) (h : ProcessAccounts s l) :
    Outcome.Rel BusRefines (mainLoop (busmailMode application_frame) (s, b) e as)
      (linkRun application_frame l (frames busmail.format t (events as))) := by
  have hloop := bus_loop application_frame as s hb ht he hreads hstarts
  have hsizes : ∀ p ∈ frames busmail.format t (events as), p.size ≤ PACKET_SIZE := by
    intro p hp
    have hsize := frames_sizes (events as) t p hp
    rw [ht] at hsize
    exact hsize
  rw [dispatchEach_deliver _ hsizes, ← processRun_eq] at hloop
  refine Outcome.Rel.trans (fun s1 s2 l1 h1 h2 => ?_) hloop
    (processRun_refines application_frame (frames busmail.format t (events as)) h)
  show ProcessRefines s1.1 l1
  rw [h1]
  exact h2

/-! ## How the modes end -/

theorem app_run_returns (api : Api) (ps : List packet_t) :
    ∀ {l : Link Int}, l.session.tx_fifo = [] →
      ∃ l', linkRun (app.application_frame api) l ps = .running l' := by
  induction ps with
  | nil => exact fun _ => ⟨_, rfl⟩
  | cons p ps ih =>
    intro l hl
    obtain ⟨l1, hd⟩ := app_dispatch_returns api hl p
    rw [linkRun, hd]
    exact ih (dispatch_tx_fifo hl hd)

theorem nvs_run_ends (api : Api) (ps : List packet_t) :
    ∀ {l : Link Int}, l.session.tx_fifo = [] →
      (∃ l', linkRun (nvs.application_frame api) l ps = .running l') ∨
        ∃ l', linkRun (nvs.application_frame api) l ps = .exited 0 l' ∧
          ∃ p ∈ ps, Accepted p ∧ nvs.Last api p := by
  induction ps with
  | nil => exact fun _ => .inl ⟨_, rfl⟩
  | cons p ps ih =>
    intro l hl
    rw [linkRun]
    rcases nvs_dispatch_ends api hl p with ⟨l1, hd⟩ | ⟨hacc, hlast, l1, hd⟩
    · rw [hd]
      rcases ih (dispatch_tx_fifo hl hd) with hrunning | ⟨l', hexit, q, hq, hend⟩
      · exact .inl hrunning
      · exact .inr ⟨l', hexit, q, List.mem_cons_of_mem _ hq, hend⟩
    · rw [hd]
      exact .inr ⟨l1, rfl, p, List.mem_cons_self, hacc, hlast⟩

theorem busmail_init_eq :
    ∃ b, busmail_init = some (⟨linked.busmail_init, 0⟩, b) ∧ Holds b (newTape 500) := by
  obtain ⟨b, hnew, hb⟩ := bus_buffer
  refine ⟨b, ?_, hb⟩
  unfold event_loop.busmail_init
  rw [hnew]
  rfl

/-- For whatever is read, also more than the buffer takes, the APP and the NVS mode are the link layer
over the packets of the reads: they end as it does, with its variables and with the bytes of its frames
on the tty. So the APP mode goes on for ever and no access in it is undefined, and the NVS mode ends
only with 0, and only on a GET_NVS confirm. -/
theorem the_busmail_modes_refine_the_link_layer (api : Api) (e : event_t) (as : List Arrival)
    (he : e.outcount ≤ 0) (hreads : Succeeds as) (hstarts : StartsAtZero as) :
    ∃ s, event_loop.busmail_init = some s ∧
      Outcome.Rel BusRefines (mainLoop (appMode api) s e as)
        (linkRun (app.application_frame api) ⟨busmail.busmail_init, 0⟩
          (frames busmail.format (newTape 500) (events as))) ∧
      Outcome.Rel BusRefines (mainLoop (nvsMode api) s e as)
        (linkRun (nvs.application_frame api) ⟨busmail.busmail_init, 0⟩
          (frames busmail.format (newTape 500) (events as))) ∧
      (∃ s', mainLoop (appMode api) s e as = .running s') ∧
      ((∃ s', mainLoop (nvsMode api) s e as = .running s') ∨
        ∃ s', mainLoop (nvsMode api) s e as = .exited 0 s' ∧
          ∃ p ∈ frames busmail.format (newTape 500) (events as), Accepted p ∧ nvs.Last api p) := by
  obtain ⟨b, hinit, hb⟩ := busmail_init_eq
  have hrefines : ProcessAccounts (⟨linked.busmail_init, 0⟩ : Process Int)
      ⟨busmail.busmail_init, 0⟩ := ⟨busmail_init_accounts, rfl⟩
  have happ := bus_refines (app.application_frame api) as hb
    (Tape.size_new 500 0) he hreads hstarts hrefines
  have hnvs := bus_refines (nvs.application_frame api) as hb
    (Tape.size_new 500 0) he hreads hstarts hrefines
  refine ⟨_, hinit, happ, hnvs, ?_, ?_⟩
  · obtain ⟨l', hl'⟩ := app_run_returns api (frames busmail.format (newTape 500) (events as))
      (l := ⟨busmail.busmail_init, 0⟩) rfl
    rw [hl'] at happ
    obtain ⟨s', hs', -⟩ := happ.to_running
    exact ⟨s', hs'⟩
  · rcases nvs_run_ends api (frames busmail.format (newTape 500) (events as))
      (l := ⟨busmail.busmail_init, 0⟩) rfl with ⟨l', hl'⟩ | ⟨l', hl', hp⟩
    · rw [hl'] at hnvs
      obtain ⟨s', hs', -⟩ := hnvs.to_running
      exact .inl ⟨s', hs'⟩
    · rw [hl'] at hnvs
      obtain ⟨s', hs', -⟩ := hnvs.to_exited
      exact .inr ⟨s', hs', hp⟩

/-- A poll set in two reads. -/
theorem the_busmail_modes_refine_the_link_layer_for_a_poll_set :
    ∃ s s', event_loop.busmail_init = some s ∧
      mainLoop (appMode headers) s .cleared
        [arrivalOf [0x10, 0, 1] (by decide), arrivalOf [0xC8, 0xC8] (by decide)] = .running s' := by
  obtain ⟨s, hinit, -, -, ⟨s', hs'⟩, -⟩ := the_busmail_modes_refine_the_link_layer headers .cleared
    [arrivalOf [0x10, 0, 1] (by decide), arrivalOf [0xC8, 0xC8] (by decide)] (Int.le_refl 0)
    (List.forall_mem_cons.mpr ⟨rfl, List.forall_mem_singleton.mpr rfl⟩)
    (List.forall_mem_cons.mpr ⟨fun _ => rfl, List.forall_mem_singleton.mpr fun _ => rfl⟩)
  exact ⟨s, s', hinit, hs'⟩

end dect_prog.event_loop
