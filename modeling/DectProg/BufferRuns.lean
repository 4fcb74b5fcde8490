-- The law of the ring buffer: under any sequence of writes, reads and rewinds
-- it answers as a queue of bytes that remembers what it gave out since the
-- last write.
import DectProg.BufferQueue
import DectProg.Machine

open tape machine

namespace dect_prog.buffer

/-- A call. A write has the array to read from, a read the array to write to. -/
inductive Op
  | write (input : List UInt8) (k : Nat)
  | read (buf : List UInt8) (k : Nat)
  | rewind (k : Nat)

/-- What the caller sees: the returned number, the array of a read after it, and
`buffer_size` after the call. -/
structure Seen where
  returned : Int
  array : List UInt8
  size : Int
  deriving DecidableEq, Repr

/-- The call on the ring buffer. -/
def bufferStep (b : buffer_t) : Op → Option (buffer_t × Seen)
  | .write input k => do
    let (b, n) ← buffer_write b input k
    some (b, ⟨n, [], buffer_size b⟩)
  | .read buf k => do
    let (b, buf, n) ← buffer_read b buf 0 k
    some (b, ⟨n, buf, buffer_size b⟩)
  | .rewind k =>
    let (b, n) := buffer_rewind b k
    some (b, ⟨n, [], buffer_size b⟩)

/-! ## The queue of bytes -/

/-- The bytes in the queue are ahead; the past is what was consumed since the last write
and not rewound yet. -/
structure Queue where
  capacity : Nat
  bytes : Tape UInt8

/-- The call on the queue. It is there for a count that is an `int`, an array that is long
enough, and a rewind of no more than what was consumed since the last write. -/
def queueStep (q : Queue) : Op → Option (Queue × Seen)
  | .write input k =>
    if k ≤ input.length ∧ k ≤ INT_MAX then
      let n := min k (q.capacity - q.bytes.ahead.length)
      let ahead := q.bytes.ahead ++ input.take n
      some ({ q with bytes := ⟨[], ahead⟩ }, ⟨n, [], ahead.length⟩)
    else none
  | .read buf k =>
    if k ≤ buf.length ∧ k ≤ INT_MAX then
      let n := min k q.bytes.ahead.length
      let bytes := q.bytes.read n
      some ({ q with bytes }, ⟨n, q.bytes.ahead.take n ++ buf.drop n, bytes.ahead.length⟩)
    else none
  | .rewind k =>
    if k ≤ q.bytes.past.length ∧ k ≤ INT_MAX then
      let bytes := q.bytes.rewind k
      some ({ q with bytes }, ⟨k, [], bytes.ahead.length⟩)
    else none

/-- The buffer stands for a tape that has the bytes of the queue ahead, and at the end of
its past what the queue can still take back. -/
def Refines (q : Queue) (b : buffer_t) : Prop :=
  ∃ t, Holds b t ∧ t.size = q.capacity ∧ t.size ≤ INT_MAX ∧ t.ahead = q.bytes.ahead ∧
    q.bytes.past <:+ t.past

theorem queueStep_refines (q : Queue) (b : buffer_t) (op : Op) (q' : Queue) (o : Seen)
    (hR : Refines q b) (h : queueStep q op = some (q', o)) :
    ∃ b', bufferStep b op = some (b', o) ∧ Refines q' b' := by
  obtain ⟨t, hb, hcap, hsize, hahead, hpast⟩ := hR
  cases op with
  | write input k =>
    simp only [queueStep] at h
    split at h
    · rename_i hk
      cases h
      obtain ⟨b', hw, hb'⟩ := buffer_write.spec hb hsize input k hk.1
      have hroom : q.capacity - q.bytes.ahead.length = t.past.length := by
        rw [← hcap, ← hahead, Tape.size]
        omega
      have hnew : (t.write (input.take k)).ahead =
          q.bytes.ahead ++ input.take (min k (q.capacity - q.bytes.ahead.length)) := by
        rw [Tape.write_ahead, hahead, List.take_take, hroom, Nat.min_comm]
      refine ⟨b', ?_, t.write (input.take k), hb', by simpa using hcap, by simpa using hsize,
        hnew, by simp⟩
      simp only [bufferStep, hw, Option.bind_eq_bind, Option.bind_some,
        buffer_size.spec hb' (by simpa using hsize), hnew, hroom]
    · cases h
  | read buf k =>
    simp only [queueStep] at h
    split at h
    · rename_i hk
      cases h
      obtain ⟨b', hr, hb'⟩ := buffer_read.spec hb hsize buf 0 k hk.2 (by omega)
      obtain ⟨p, hp⟩ := hpast
      have htake : t.ahead.take k = q.bytes.ahead.take (min k q.bytes.ahead.length) := by
        rw [hahead, ← List.take_eq_take_min]
      have hdrop : (t.read k).ahead = (q.bytes.read (min k q.bytes.ahead.length)).ahead := by
        rw [Tape.read_ahead, Tape.read_ahead, hahead, ← List.drop_eq_drop_min]
      refine ⟨b', ?_, t.read k, hb', by simpa using hcap, by simpa using hsize, hdrop, p, ?_⟩
      · have hlen : (q.bytes.ahead.take (min k q.bytes.ahead.length)).length =
            min k q.bytes.ahead.length := by
          rw [List.length_take]
          omega
        have hr' : buffer_read b buf 0 k = _ := hr
        simp only [bufferStep, hr', Option.bind_eq_bind, Option.bind_some,
          buffer_size.spec hb' (by simpa using hsize), hdrop, htake, overwrite, hlen]
        simp [hahead]
      · rw [Tape.read_past, Tape.read_past, htake, ← hp, List.append_assoc]
    · cases h
  | rewind k =>
    simp only [queueStep] at h
    split at h
    · rename_i hk
      cases h
      obtain ⟨p, hp⟩ := hpast
      have hlen : t.past.length = p.length + q.bytes.past.length := by
        rw [← hp, List.length_append]
      obtain ⟨b', hr, hb'⟩ := buffer_rewind.spec hb hsize k (by omega)
      have hcut : t.past.length - k = p.length + (q.bytes.past.length - k) := by omega
      have hback : (t.rewind k).ahead = (q.bytes.rewind k).ahead := by
        simp only [Tape.rewind, hcut, hahead]
        rw [← hp, List.drop_length_add_append]
      refine ⟨b', ?_, t.rewind k, hb', by simpa using hcap, by simpa using hsize, hback, p, ?_⟩
      · simp only [bufferStep, hr, buffer_size.spec hb' (by simpa using hsize), hback]
      · simp only [Tape.rewind, hcut]
        rw [← hp, List.take_length_add_append]
    · cases h

/-! ## The law -/

/-- The ring buffer answers as the queue, from a new buffer on and for as long as the calls
are calls that the queue takes. -/
theorem the_ring_buffer_is_a_queue_of_bytes (n : Nat) (h0 : 0 < n) (h1 : n ≤ INT_MAX) :
    ∃ b, buffer_new n = some b ∧
      ∀ (ops : List Op) (q : Queue) (seen : List Seen),
        run queueStep ⟨n, [], []⟩ ops = some (q, seen) →
        ∃ b', run bufferStep b ops = some (b', seen) ∧ buffer_size b' = q.bytes.ahead.length := by
  obtain ⟨b, hnew, hb⟩ := buffer_new.spec n h0 h1
  refine ⟨b, hnew, fun ops q seen hrun => ?_⟩
  have hR : Refines ⟨n, [], []⟩ b :=
    ⟨_, hb, by simp [Tape.size], by simpa [Tape.size] using h1, rfl, by simp⟩
  obtain ⟨b', hb', t, ht, _, hsize, hahead, _⟩ :=
    run_simulates queueStep_refines ops _ b q seen hR hrun
  exact ⟨b', hb', by rw [buffer_size.spec ht hsize, hahead]⟩

/-- Three bytes of room: a write that is cut short, a read, a rewind of a part of it, and a
write that goes round the end. -/
theorem the_ring_buffer_is_a_queue_of_bytes_for_three_cells :
    0 < 3 ∧ (3 : Int) ≤ INT_MAX ∧
    ∃ b, buffer_new 3 = some b ∧ ∃ b',
      run bufferStep b [.write [1, 2, 3, 4] 4, .read [9, 9] 2, .rewind 1, .write [5] 1] =
        some (b', [⟨3, [], 3⟩, ⟨2, [1, 2], 1⟩, ⟨1, [], 2⟩, ⟨1, [], 3⟩]) ∧ buffer_size b' = 3 := by
  refine ⟨by decide, by decide, ?_⟩
  obtain ⟨b, hb, hops⟩ := the_ring_buffer_is_a_queue_of_bytes 3 (by decide) (by decide)
  exact ⟨b, hb, hops _ ⟨3, [], [2, 3, 5]⟩ _ rfl⟩

end dect_prog.buffer
