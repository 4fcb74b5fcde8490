-- The ring buffer is a tape: the bytes between `data_start` and `data_end` are
-- ahead, and the rest of the storage, from `data_end` round to `data_start`,
-- is the past that a rewind can take back. Both states of the buffer, and each
-- place of the data in the storage, stand for such a tape.
import DectProg.Buffer
import DectProg.Tape

open tape

namespace dect_prog.buffer

/-! ## The representation invariant -/

/-- The data `d` lies in one piece: past bytes `a` before it and `c` after it. -/
structure Normal (b : buffer_t) (a d c : List UInt8) : Prop where
  storage : b.storage = a ++ d ++ c
  data_start : b.data_start = a.length
  data_end : b.data_end = a.length + d.length
  count : b.count = d.length
  buf_size : b.buf_size = a.length + d.length + c.length
  state : b.state = .NORMAL_STATE

/-- The data is cut: `c` runs to the end of the storage, and `a` goes on at its start. -/
structure Wrapped (b : buffer_t) (a f c : List UInt8) : Prop where
  storage : b.storage = a ++ f ++ c
  data_start : b.data_start = a.length + f.length
  data_end : b.data_end = a.length
  count : b.count = a.length + c.length
  buf_size : b.buf_size = a.length + f.length + c.length
  state : b.state = .WRAPPED_STATE

/-- The buffer stands for the tape. -/
inductive Holds (b : buffer_t) : Tape UInt8 → Prop
  | normal (a d c : List UInt8) : Normal b a d c → Holds b ⟨c ++ a, d⟩
  | wrapped (a f c : List UInt8) : Wrapped b a f c → Holds b ⟨f, c ++ a⟩

theorem Holds.of_eq {b : buffer_t} {t t' : Tape UInt8} (h : Holds b t) (e : t = t') : Holds b t' :=
  e ▸ h

theorem Holds.count {b : buffer_t} {t : Tape UInt8} (h : Holds b t) :
    b.count = t.ahead.length := by
  cases h with
  | normal a d c h => exact h.count
  | wrapped a f c h => rw [h.count]; simp only [List.length_append]; omega

theorem Holds.buf_size {b : buffer_t} {t : Tape UInt8} (h : Holds b t) : b.buf_size = t.size := by
  cases h with
  | normal a d c h => rw [h.buf_size]; simp only [Tape.size, List.length_append]; omega
  | wrapped a f c h => rw [h.buf_size]; simp only [Tape.size, List.length_append]; omega

theorem buffer_size.spec {b : buffer_t} {t : Tape UInt8} (h : Holds b t)
    (hsize : t.size ≤ INT_MAX) : buffer_size b = t.ahead.length := by
  have : (t.ahead.length : Int) ≤ t.size := by simp only [Tape.size]; omega
  rw [buffer_size, h.count, s32_of_range (by omega) (by omega)]

/-- A new buffer is an empty queue with a past of zeros. -/
theorem buffer_new.spec (n : Nat) (h0 : 0 < n) (h1 : n ≤ INT_MAX) :
    ∃ b, buffer_new n = some b ∧ Holds b ⟨List.replicate n 0, []⟩ := by
  refine ⟨_, by rw [buffer_new, if_pos (by omega)], ?_⟩
  rw [← List.append_nil (List.replicate n 0)]
  exact .normal [] [] (List.replicate n 0)
    ⟨by simp, by simp, by simp, by simp, by simp [u32_of_range (Int.natCast_nonneg n) h1], rfl⟩

/-! ## Writes -/

/-- `k` new bytes of the array `input`, from place `ioff` on. -/
theorem write_normal.spec {b : buffer_t} {a d c : List UInt8} (h : Normal b a d c)
    (hsize : a.length + d.length + c.length ≤ INT_MAX) (input : List UInt8) (ioff k n : Nat)
    (hn : n = min k c.length) (hk : ioff + k ≤ input.length) :
    ∃ b', write_normal b input ioff k = some (b', (n : Int)) ∧
      Normal b' a (d ++ (input.drop ioff).take n) (c.drop n) := by
  have hclamp : (if b.data_end + (k : Int) > b.buf_end then b.buf_end - b.data_end else (k : Int)) =
      n := by
    simp only [buffer_t.buf_end, h.data_end, h.storage, List.length_append]
    split <;> omega
  have hlen : ((input.drop ioff).take n).length = n := by
    simp only [List.length_take, List.length_drop]
    omega
  have hcopy := memcpy_eq b.storage input (a ++ d).length ioff n
    (by simp only [h.storage, List.length_append]; omega) (by omega)
  rw [List.length_append, Int.natCast_add, ← h.data_end] at hcopy
  unfold write_normal
  simp only [hclamp, hcopy, Option.bind_eq_bind, Option.bind_some]
  refine ⟨_, rfl, ?_, h.data_start, ?_, ?_, ?_, h.state⟩
  · rw [← List.length_append, h.storage, overwrite, List.take_left, hlen, ← List.drop_drop,
      List.drop_left]
    simp [List.append_assoc]
  · simp only [h.data_end, List.length_append, hlen]
    omega
  · simp only [h.count, List.length_append, hlen]
    rw [u32_of_range (by omega) (by omega)]
    omega
  · simp only [h.buf_size, List.length_append, hlen, List.length_drop]
    omega

theorem write_wrapped.spec {b : buffer_t} {a f c : List UInt8} (h : Wrapped b a f c)
    (hsize : a.length + f.length + c.length ≤ INT_MAX) (input : List UInt8) (ioff k n : Nat)
    (hn : n = min k f.length) (hk : ioff + k ≤ input.length) :
    ∃ b', write_wrapped b input ioff k = some (b', (n : Int)) ∧
      Wrapped b' (a ++ (input.drop ioff).take n) (f.drop n) c := by
  have hclamp : (if b.data_end + (k : Int) > b.data_start then b.data_start - b.data_end
      else (k : Int)) = n := by
    simp only [h.data_end, h.data_start]
    split <;> omega
  have hlen : ((input.drop ioff).take n).length = n := by
    simp only [List.length_take, List.length_drop]
    omega
  have hcopy := memcpy_eq b.storage input a.length ioff n
    (by simp only [h.storage, List.length_append]; omega) (by omega)
  rw [← h.data_end] at hcopy
  unfold write_wrapped
  simp only [hclamp, hcopy, Option.bind_eq_bind, Option.bind_some]
  refine ⟨_, rfl, ?_, ?_, ?_, ?_, ?_, h.state⟩
  · rw [h.storage, overwrite, List.append_assoc a f c, List.take_left, hlen, ← List.drop_drop,
      List.drop_left, List.drop_append_of_le_length (by omega)]
    simp [List.append_assoc]
  · simp only [h.data_start, List.length_append, hlen, List.length_drop]
    omega
  · simp only [h.data_end, List.length_append, hlen]
    omega
  · simp only [h.count, List.length_append, hlen]
    rw [u32_of_range (by omega) (by omega)]
    omega
  · simp only [h.buf_size, List.length_append, hlen, List.length_drop]
    omega

/-- A normal buffer with no cell after the data, as the wrapped buffer that it becomes
when `data_end` goes back to the start. -/
theorem Normal.wrap_end {b : buffer_t} {a d : List UInt8} (h : Normal b a d []) :
    Wrapped { b with state := .WRAPPED_STATE, data_end := b.buf_start } [] a d := by
  refine ⟨?_, ?_, rfl, ?_, ?_, rfl⟩
  · simp [h.storage]
  · simp [h.data_start]
  · simp [h.count]
  · simp [h.buf_size]

/-- Bytes that fit, in the words of the tape. -/
theorem write_into (p q d xs : List UInt8) (n : Nat) (hn : n ≤ p.length) (hx : xs.length = n) :
    (⟨p ++ q, d⟩ : Tape UInt8).write xs = ⟨p.drop n ++ q, d ++ xs⟩ := by
  rw [Tape.write_fits _ _ (by simp only [List.length_append]; omega), hx,
    List.drop_append_of_le_length hn]

/-- `buffer_write` appends what fits, and returns how much that is. -/
theorem buffer_write.spec {b : buffer_t} {t : Tape UInt8} (h : Holds b t)
    (hsize : t.size ≤ INT_MAX) (input : List UInt8) (k : Nat) (hk : k ≤ input.length) :
    ∃ b', buffer_write b input k = some (b', ((min k t.past.length : Nat) : Int)) ∧
      Holds b' (t.write (input.take k)) := by
  unfold buffer_write
  by_cases hfull : b.count = b.buf_size
  · have hpast : t.past = [] := by
      rw [h.count, h.buf_size] at hfull
      apply List.eq_nil_of_length_eq_zero
      simp only [Tape.size] at hfull
      omega
    refine ⟨b, by simp [hfull, hpast], h.of_eq ?_⟩
    ext1 <;> simp [hpast]
  rw [if_neg hfull, ← Tape.write_take]
  cases h with
  | normal a d c h =>
    simp only [Tape.size, List.length_append] at hsize ⊢
    obtain ⟨b1, hw1, h1⟩ := write_normal.spec h (by omega) input 0 k (min k c.length) rfl (by omega)
    rw [List.drop_zero] at h1
    have hw1' : write_normal b input 0 k = some (b1, ((min k c.length : Nat) : Int)) := hw1
    have ht1 := write_into c a d (input.take (min k c.length)) (min k c.length) (by omega)
      (by rw [List.length_take]; omega)
    rw [h.state]
    simp only [hw1', Option.bind_eq_bind, Option.bind_some]
    by_cases hmore : c.length < k ∧ 0 < a.length
    · -- The first phase stops at the end of the storage, the second goes on at its start.
      have hc : min k c.length = c.length := by omega
      rw [hc] at h1 ht1 ⊢
      rw [List.drop_length] at h1 ht1
      obtain ⟨b2, hw2, h2⟩ := write_wrapped.spec h1.wrap_end
        (by simp only [List.length_nil, List.length_append, List.length_take]; omega) input c.length
        (k - c.length) (min (k - c.length) a.length) rfl (by omega)
      have ht2 := write_into a [] (d ++ input.take c.length)
        ((input.drop c.length).take (min (k - c.length) a.length)) (min (k - c.length) a.length)
        (by omega) (by rw [List.length_take, List.length_drop]; omega)
      have hsum : min k (c.length + a.length) = c.length + min (k - c.length) a.length := by omega
      rw [Int.natCast_sub (by omega)] at hw2
      rw [if_pos (by
        rw [h1.count, h1.buf_size]
        simp only [List.length_append, List.length_take, List.length_nil]
        omega), hw2, Option.bind_some]
      refine ⟨b2, by rw [hsum, Int.natCast_add], (Holds.wrapped _ _ _ h2).of_eq ?_⟩
      rw [List.append_nil, List.append_nil] at ht2
      rw [hsum, List.take_add, Tape.write_append, ht1, List.nil_append, List.nil_append, ht2]
    · rw [if_neg (by
        rw [h1.count, h1.buf_size]
        simp only [List.length_append, List.length_take, List.length_drop]
        omega)]
      have hsum : min k (c.length + a.length) = min k c.length := by omega
      exact ⟨b1, by rw [hsum], (Holds.normal _ _ _ h1).of_eq (by rw [hsum, ht1])⟩
  | wrapped a f c h =>
    simp only [Tape.size, List.length_append] at hsize ⊢
    obtain ⟨b1, hw1, h1⟩ :=
      write_wrapped.spec h (by omega) input 0 k (min k f.length) rfl (by omega)
    rw [List.drop_zero] at h1
    have hw1' : write_wrapped b input 0 k = some (b1, ((min k f.length : Nat) : Int)) := hw1
    have ht1 := write_into f [] (c ++ a) (input.take (min k f.length)) (min k f.length) (by omega)
      (by rw [List.length_take]; omega)
    rw [h.state]
    simp only [hw1', Option.bind_eq_bind, Option.bind_some]
    -- A wrapped buffer that takes less than it is given is full, so it never turns here.
    rw [if_neg (by
      rw [h1.count, h1.buf_size]
      simp only [List.length_append, List.length_take, List.length_drop]
      omega)]
    refine ⟨b1, rfl, (Holds.wrapped _ _ _ h1).of_eq ?_⟩
    rw [List.append_nil, List.append_nil] at ht1
    rw [ht1, List.append_assoc]

/-! ## Reads -/

/-- `k` bytes into the array `buf`, from place `off` on. -/
theorem read_normal.spec {b : buffer_t} {a d c : List UInt8} (h : Normal b a d c)
    (hsize : a.length + d.length + c.length ≤ INT_MAX) (buf : List UInt8) (off k : Nat)
    (hk : k ≤ INT_MAX) (hoff : off + min k d.length ≤ buf.length) :
    ∃ b', read_normal b buf off k =
        some (b', overwrite buf off (d.take k), ((min k d.length : Nat) : Int)) ∧
      Normal b' (a ++ d.take k) (d.drop k) c := by
  have hclamp : (if u32 k > b.count then b.count else (k : Int)) = (min k d.length : Nat) := by
    rw [u32_of_range (by omega) hk, h.count]
    split <;> omega
  have hdata : (b.storage.drop a.length).take (min k d.length) = d.take k := by
    rw [h.storage, List.append_assoc, List.drop_left, List.take_append_of_le_length (by omega),
      ← List.take_eq_take_min]
  have hcopy := memcpy_eq buf b.storage off a.length (min k d.length) hoff
    (by simp only [h.storage, List.length_append]; omega)
  rw [← h.data_start, hdata] at hcopy
  unfold read_normal
  simp only [hclamp, hcopy, Option.bind_eq_bind, Option.bind_some]
  refine ⟨_, rfl, ?_, ?_, ?_, ?_, ?_, h.state⟩
  · simp [h.storage, List.append_assoc]
  · simp only [h.data_start, List.length_append, List.length_take]
    omega
  · simp only [h.data_end, List.length_append, List.length_take, List.length_drop]
    omega
  · simp only [h.count, List.length_drop]
    rw [u32_of_range (by omega) (by omega)]
    omega
  · simp only [h.buf_size, List.length_append, List.length_take, List.length_drop]
    omega

theorem read_wrapped.spec {b : buffer_t} {a f c : List UInt8} (h : Wrapped b a f c)
    (hsize : a.length + f.length + c.length ≤ INT_MAX) (buf : List UInt8) (off k : Nat)
    (hoff : off + min k c.length ≤ buf.length) :
    ∃ b', read_wrapped b buf off k =
        some (b', overwrite buf off (c.take k), ((min k c.length : Nat) : Int)) ∧
      Wrapped b' a (f ++ c.take k) (c.drop k) := by
  have hclamp : (if b.data_start + (k : Int) > b.buf_end then b.buf_end - b.data_start
      else (k : Int)) = (min k c.length : Nat) := by
    simp only [buffer_t.buf_end, h.data_start, h.storage, List.length_append]
    split <;> omega
  have hdata : (b.storage.drop (a ++ f).length).take (min k c.length) = c.take k := by
    rw [h.storage, List.drop_left, ← List.take_eq_take_min]
  have hcopy := memcpy_eq buf b.storage off (a ++ f).length (min k c.length) hoff
    (by simp only [h.storage, List.length_append]; omega)
  rw [hdata, List.length_append, Int.natCast_add, ← h.data_start] at hcopy
  unfold read_wrapped
  simp only [hclamp, hcopy, Option.bind_eq_bind, Option.bind_some]
  refine ⟨_, rfl, ?_, ?_, h.data_end, ?_, ?_, h.state⟩
  · simp [h.storage, List.append_assoc]
  · simp only [h.data_start, List.length_append, List.length_take]
    omega
  · simp only [h.count, List.length_drop]
    rw [u32_of_range (by omega) (by omega)]
    omega
  · simp only [h.buf_size, List.length_append, List.length_take, List.length_drop]
    omega

/-- A wrapped buffer that gave out its first piece, as the normal buffer that it becomes
when `data_start` goes back to the start. -/
theorem Wrapped.unwrap {b : buffer_t} {a f : List UInt8} (h : Wrapped b a f []) :
    Normal { b with state := .NORMAL_STATE, data_start := b.buf_start } [] a f := by
  refine ⟨?_, rfl, ?_, ?_, ?_, rfl⟩
  · simp [h.storage]
  · simp [h.data_end]
  · simp [h.count]
  · simp [h.buf_size]

/-- `buffer_read` takes the oldest bytes, and returns how many. -/
theorem buffer_read.spec {b : buffer_t} {t : Tape UInt8} (h : Holds b t)
    (hsize : t.size ≤ INT_MAX) (buf : List UInt8) (off k : Nat) (hk : k ≤ INT_MAX)
    (hoff : off + min k t.ahead.length ≤ buf.length) :
    ∃ b', buffer_read b buf off k =
        some (b', overwrite buf off (t.ahead.take k), ((min k t.ahead.length : Nat) : Int)) ∧
      Holds b' (t.read k) := by
  unfold buffer_read
  cases h with
  | normal a d c h =>
    simp only [Tape.size, List.length_append] at hsize hoff ⊢
    obtain ⟨b1, hr1, h1⟩ := read_normal.spec h (by omega) buf off k hk hoff
    rw [h.state]
    simp only [hr1, Option.bind_eq_bind, Option.bind_some]
    -- A normal buffer that gives less than it is asked for is empty, so it never turns here.
    rw [if_neg (by
      rw [h1.count, List.length_drop]
      omega)]
    exact ⟨b1, rfl, (Holds.normal _ _ _ h1).of_eq (by rw [Tape.read, List.append_assoc])⟩
  | wrapped a f c h =>
    simp only [Tape.size, List.length_append] at hsize hoff ⊢
    obtain ⟨b1, hr1, h1⟩ := read_wrapped.spec h (by omega) buf off k (by omega)
    rw [h.state]
    simp only [hr1, Option.bind_eq_bind, Option.bind_some]
    by_cases hmore : c.length < k ∧ 0 < a.length
    · -- The first phase stops at the end of the storage, the second goes on at its start.
      have hc : c.take k = c := List.take_of_length_le (by omega)
      have hlen : (overwrite buf off c).length = buf.length := overwrite_length (by omega)
      rw [hc, List.drop_of_length_le (by omega)] at h1
      obtain ⟨b2, hr2, h2⟩ := read_normal.spec h1.unwrap
        (by simp only [List.length_nil, List.length_append]; omega) (overwrite buf off c)
        (off + c.length) (k - c.length) (by omega) (by omega)
      rw [Int.natCast_add, Int.natCast_sub (by omega)] at hr2
      rw [if_pos (by rw [h1.count, List.length_nil]; omega), hc, Nat.min_eq_right (by omega),
        hr2, Option.bind_some, overwrite_overwrite _ _ _ _ (by omega), List.take_append, hc]
      refine ⟨b2, ?_, (Holds.normal _ _ _ h2).of_eq ?_⟩
      · rw [← Int.natCast_add, show c.length + min (k - c.length) a.length =
          min k (c.length + a.length) by omega]
      · simp [Tape.read, List.take_append, List.drop_append, hc,
          List.drop_of_length_le (show c.length ≤ k by omega)]
    · rw [if_neg (by
        rw [h1.count, List.length_drop]
        omega)]
      have ha : c.take k = (c ++ a).take k := by
        rw [List.take_append]
        rcases Nat.eq_zero_or_pos a.length with h0 | h0
        · rw [List.eq_nil_of_length_eq_zero h0]; simp
        · rw [show k - c.length = 0 by omega]; simp
      refine ⟨b1, ?_, (Holds.wrapped _ _ _ h1).of_eq ?_⟩
      · rw [ha, show min k c.length = min k (c.length + a.length) by omega]
      · rw [ha, Tape.read, List.drop_append]
        rcases Nat.eq_zero_or_pos a.length with h0 | h0
        · rw [List.eq_nil_of_length_eq_zero h0]; simp
        · rw [show k - c.length = 0 by omega, List.drop_zero]

/-! ## Rewinds -/

theorem rewind_normal.spec {b : buffer_t} {a d c : List UInt8} (h : Normal b a d c)
    (hsize : a.length + d.length + c.length ≤ INT_MAX) (k n : Nat) (hn : n = min k a.length) :
    ∃ b', rewind_normal b k = (b', (n : Int)) ∧
      Normal b' (a.take (a.length - n)) (a.drop (a.length - n) ++ d) c := by
  have hclamp : (if b.data_start - (k : Int) < b.buf_start then b.data_start - b.buf_start
      else (k : Int)) = n := by
    simp only [buffer_t.buf_start, h.data_start]
    split <;> omega
  unfold rewind_normal
  simp only [hclamp]
  refine ⟨_, rfl, ?_, ?_, ?_, ?_, ?_, h.state⟩
  · rw [← List.append_assoc, List.take_append_drop, h.storage]
  · simp only [h.data_start, List.length_take]
    omega
  · simp only [h.data_end, List.length_append, List.length_take, List.length_drop]
    omega
  · simp only [h.count, List.length_append, List.length_drop]
    rw [u32_of_range (by omega) (by omega)]
    omega
  · simp only [h.buf_size, List.length_append, List.length_take, List.length_drop]
    omega

theorem rewind_wrapped.spec {b : buffer_t} {a f c : List UInt8} (h : Wrapped b a f c)
    (hsize : a.length + f.length + c.length ≤ INT_MAX) (k n : Nat) (hn : n = min k f.length) :
    ∃ b', rewind_wrapped b k = (b', (n : Int)) ∧
      Wrapped b' a (f.take (f.length - n)) (f.drop (f.length - n) ++ c) := by
  have hclamp : (if b.data_start - (k : Int) < b.data_end then b.data_start - b.data_end
      else (k : Int)) = n := by
    simp only [h.data_start, h.data_end]
    split <;> omega
  unfold rewind_wrapped
  simp only [hclamp]
  refine ⟨_, rfl, ?_, ?_, h.data_end, ?_, ?_, h.state⟩
  · rw [h.storage, List.append_assoc, List.append_assoc, ← List.append_assoc (f.take _),
      List.take_append_drop]
  · simp only [h.data_start, List.length_take]
    omega
  · simp only [h.count, List.length_append, List.length_drop]
    rw [u32_of_range (by omega) (by omega)]
    omega
  · simp only [h.buf_size, List.length_append, List.length_take, List.length_drop]
    omega

/-- A normal buffer whose data starts at the start of the storage, as the wrapped buffer
that it becomes when `data_start` goes to the end. -/
theorem Normal.wrap_start {b : buffer_t} {d c : List UInt8} (h : Normal b [] d c) :
    Wrapped { b with state := .WRAPPED_STATE, data_start := b.buf_end } d c [] := by
  refine ⟨?_, ?_, ?_, ?_, ?_, rfl⟩
  · simp [h.storage]
  · simp [buffer_t.buf_end, h.storage]
  · simp [h.data_end]
  · simp [h.count]
  · simp [h.buf_size]

/-- `buffer_rewind` takes back what it can. In the wrapped state only a rewind of no more than the
past is clamped as it should be. -/
theorem buffer_rewind.clamps {b : buffer_t} {t : Tape UInt8} (h : Holds b t)
    (hsize : t.size ≤ INT_MAX) (k : Nat) (hk : b.state = .NORMAL_STATE ∨ k ≤ t.past.length) :
    ∃ b', buffer_rewind b k = (b', ((min k t.past.length : Nat) : Int)) ∧ Holds b' (t.rewind k) := by
  unfold buffer_rewind
  cases h with
  | normal a d c h =>
    simp only [Tape.size, List.length_append] at hsize
    have hpast : (c ++ a).length = c.length + a.length := List.length_append
    rw [h.state]
    by_cases hmore : a.length < k
    · -- The first phase stops at the start of the storage, the second goes on at its end.
      obtain ⟨b1, hr1, h1⟩ := rewind_normal.spec h (by omega) k a.length (by omega)
      rw [Nat.sub_self, List.take_zero, List.drop_zero] at h1
      obtain ⟨b2, hr2, h2⟩ := rewind_wrapped.spec h1.wrap_start
        (by simp only [List.length_nil, List.length_append]; omega) (k - a.length)
        (min (k - a.length) c.length) rfl
      rw [Int.natCast_sub (by omega)] at hr2
      simp only [hr1, hr2]
      rw [if_pos (by omega)]
      refine ⟨b2, by rw [Prod.mk.injEq]; exact ⟨rfl, by omega⟩, (Holds.wrapped _ _ _ h2).of_eq ?_⟩
      have hlen : (c ++ a).length - k = c.length - min (k - a.length) c.length := by omega
      rw [Tape.rewind, hlen, List.take_append_of_le_length (by omega),
        List.drop_append_of_le_length (by omega)]
      simp [List.append_assoc]
    · obtain ⟨b1, hr1, h1⟩ := rewind_normal.spec h (by omega) k k (by omega)
      simp only [hr1]
      rw [if_neg (by omega)]
      refine ⟨b1, by rw [Prod.mk.injEq]; exact ⟨rfl, by omega⟩, (Holds.normal _ _ _ h1).of_eq ?_⟩
      have hlen : (c ++ a).length - k = c.length + (a.length - k) := by omega
      rw [Tape.rewind, hlen, List.take_length_add_append, List.drop_length_add_append]
  | wrapped a f c h =>
    simp only [Tape.size, List.length_append] at hsize
    have hfits : k ≤ f.length := by
      rcases hk with hnormal | hfits
      · rw [h.state] at hnormal
        cases hnormal
      · exact hfits
    obtain ⟨b1, hr1, h1⟩ := rewind_wrapped.spec h (by omega) k k (by omega)
    rw [h.state]
    simp only [hr1]
    rw [if_neg (by omega)]
    refine ⟨b1, by rw [Prod.mk.injEq]; exact ⟨rfl, by omega⟩, (Holds.wrapped _ _ _ h1).of_eq ?_⟩
    rw [Tape.rewind, List.append_assoc]

/-- `buffer_rewind` of no more than the past takes all of it back. -/
theorem buffer_rewind.spec {b : buffer_t} {t : Tape UInt8} (h : Holds b t)
    (hsize : t.size ≤ INT_MAX) (k : Nat) (hk : k ≤ t.past.length) :
    ∃ b', buffer_rewind b k = (b', (k : Int)) ∧ Holds b' (t.rewind k) := by
  obtain ⟨b', hr, hb'⟩ := buffer_rewind.clamps h hsize k (.inr hk)
  rw [Nat.min_eq_left hk] at hr
  exact ⟨b', hr, hb'⟩

/-! ## What a buffer holds -/

/-- The bytes in the buffer: what a read of all of them gives. -/
def contents (b : buffer_t) : List UInt8 :=
  match buffer_read b (List.replicate b.count.toNat 0) 0 b.count with
  | some (_, bytes, _) => bytes
  | none => []

theorem Holds.contents {b : buffer_t} {t : Tape UInt8} (h : Holds b t)
    (hsize : t.size ≤ INT_MAX) : contents b = t.ahead := by
  have hle : (t.ahead.length : Int) ≤ t.size := by simp only [Tape.size]; omega
  obtain ⟨b', hr, _⟩ := buffer_read.spec h hsize (List.replicate t.ahead.length 0) 0
    t.ahead.length (by omega) (by simp)
  have hr' : buffer_read b (List.replicate t.ahead.length 0) 0 t.ahead.length = _ := hr
  rw [buffer.contents, h.count, Int.toNat_natCast, hr']
  simp [overwrite]

end dect_prog.buffer
