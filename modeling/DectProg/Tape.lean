-- A tape is a queue that remembers what it gave out. A read moves items from
-- the front of the queue into the past, a rewind takes them back, and a write
-- puts new items in the place of the oldest items of the past. So the number
-- of cells never changes.
import Mathlib.Data.List.Basic

namespace tape

variable {α : Type}

/-- `past` holds the items that were read, oldest first, and `ahead` the items
still to read. -/
structure Tape (α : Type) where
  past : List α
  ahead : List α

namespace Tape

/-- The number of cells. -/
def size (t : Tape α) : Nat := t.past.length + t.ahead.length

/-- New items go to the end of the queue, as many as there are cells in the past. -/
def write (t : Tape α) (xs : List α) : Tape α :=
  ⟨t.past.drop xs.length, t.ahead ++ xs.take t.past.length⟩

/-- The first `n` items of the queue become the newest items of the past. -/
def read (t : Tape α) (n : Nat) : Tape α :=
  ⟨t.past ++ t.ahead.take n, t.ahead.drop n⟩

/-- The newest `n` items of the past go back to the front of the queue. -/
def rewind (t : Tape α) (n : Nat) : Tape α :=
  ⟨t.past.take (t.past.length - n), t.past.drop (t.past.length - n) ++ t.ahead⟩

@[ext] theorem ext {s t : Tape α} (h1 : s.past = t.past) (h2 : s.ahead = t.ahead) : s = t := by
  cases s; cases t; simp_all

@[simp] theorem read_ahead (t : Tape α) (n : Nat) : (t.read n).ahead = t.ahead.drop n := rfl

@[simp] theorem read_past (t : Tape α) (n : Nat) :
    (t.read n).past = t.past ++ t.ahead.take n := rfl

@[simp] theorem write_ahead (t : Tape α) (xs : List α) :
    (t.write xs).ahead = t.ahead ++ xs.take t.past.length := rfl

@[simp] theorem write_past (t : Tape α) (xs : List α) :
    (t.write xs).past = t.past.drop xs.length := rfl

/-! ## The number of cells -/

@[simp] theorem size_read (t : Tape α) (n : Nat) : (t.read n).size = t.size := by
  simp only [size, read, List.length_append, List.length_take, List.length_drop]
  omega

@[simp] theorem size_write (t : Tape α) (xs : List α) : (t.write xs).size = t.size := by
  simp only [size, write, List.length_append, List.length_take, List.length_drop]
  omega

@[simp] theorem size_rewind (t : Tape α) (n : Nat) : (t.rewind n).size = t.size := by
  simp only [size, rewind, List.length_append, List.length_take, List.length_drop]
  omega

/-- A tape with nothing ahead yet. -/
theorem size_new (n : Nat) (x : α) : (⟨List.replicate n x, []⟩ : Tape α).size = n := by
  rw [size, List.length_replicate, List.length_nil, Nat.add_zero]

/-! ## Reads and rewinds -/

@[simp] theorem read_zero (t : Tape α) : t.read 0 = t := by
  simp [read]

theorem read_read (t : Tape α) (m n : Nat) : (t.read m).read n = t.read (m + n) := by
  ext1
  · simp [List.take_add]
  · simp [List.drop_drop]

/-- A rewind takes back the end of a read. -/
theorem rewind_read (t : Tape α) (m n : Nat) (h : m + n ≤ t.ahead.length) :
    (t.read (m + n)).rewind n = t.read m := by
  have hlen : (t.past ++ t.ahead.take (m + n)).length - n = t.past.length + m := by
    simp only [List.length_append, List.length_take]
    omega
  have htake : (t.ahead.take (m + n)).take m = t.ahead.take m := by
    rw [List.take_take, Nat.min_eq_left (Nat.le_add_right m n)]
  have hdrop : (t.ahead.take (m + n)).drop m ++ t.ahead.drop (m + n) = t.ahead.drop m := by
    rw [List.drop_take, Nat.add_sub_cancel_left, ← List.drop_drop, List.take_append_drop]
  ext1
  · simp only [rewind, read, hlen, List.take_length_add_append, htake]
  · simp only [rewind, read, hlen, List.drop_length_add_append, hdrop]

/-- A rewind of what is in the past keeps the rest of the past. -/
theorem rewind_append (p q a : List α) : (⟨p ++ q, a⟩ : Tape α).rewind q.length = ⟨p, q ++ a⟩ := by
  simp [rewind]

/-- A rewind of one item after everything was read. -/
theorem rewind_read_all (t : Tape α) {init : List α} {x : α} (h : t.ahead = init ++ [x]) :
    (t.read t.ahead.length).rewind 1 = ⟨t.past ++ init, [x]⟩ := by
  have hread : t.read t.ahead.length = ⟨(t.past ++ init) ++ [x], []⟩ := by
    ext1 <;> simp [← h]
  rw [hread]
  exact rewind_append (t.past ++ init) [x] []

/-- A write into a tape with enough past cells keeps every new item. -/
theorem write_fits (t : Tape α) (xs : List α) (h : xs.length ≤ t.past.length) :
    t.write xs = ⟨t.past.drop xs.length, t.ahead ++ xs⟩ := by
  rw [write, List.take_of_length_le h]

/-- What does not fit is not written. -/
theorem write_take (t : Tape α) (xs : List α) (k : Nat) :
    t.write (xs.take (min k t.past.length)) = t.write (xs.take k) := by
  ext1
  · simp only [write_past, List.length_take]
    by_cases h : min k xs.length ≤ t.past.length
    · congr 1
      omega
    · rw [List.drop_of_length_le (by omega), List.drop_of_length_le (by omega)]
  · simp only [write_ahead, List.take_take]
    congr 2
    omega

theorem write_append (t : Tape α) (xs ys : List α) :
    t.write (xs ++ ys) = (t.write xs).write ys := by
  ext1
  · simp [List.drop_drop]
  · simp [List.take_append]

end Tape

/-! ## Moves -/

/-- `t'` comes from `t` by reads and rewinds that take no more back than they read, or
than one item where nothing was ahead. -/
def Moves (t t' : Tape α) : Prop :=
  t'.past ++ t'.ahead = t.past ++ t.ahead ∧ t'.ahead.length ≤ max 1 t.ahead.length

theorem Moves.refl (t : Tape α) : Moves t t := ⟨rfl, Nat.le_max_right ..⟩

theorem Moves.trans {t u v : Tape α} (h : Moves t u) (h' : Moves u v) : Moves t v :=
  ⟨h'.1.trans h.1, by have := h.2; have := h'.2; omega⟩

theorem Moves.read (t : Tape α) (n : Nat) : Moves t (t.read n) := by
  refine ⟨?_, ?_⟩
  · rw [Tape.read_past, Tape.read_ahead, List.append_assoc, List.take_append_drop]
  · rw [Tape.read_ahead, List.length_drop]
    omega

/-- Everything is read, and one item is taken back. -/
theorem Moves.read_all_rewind (t : Tape α) : Moves t ((t.read t.ahead.length).rewind 1) := by
  refine ⟨?_, ?_⟩
  · simp [Tape.rewind]
  · simp only [Tape.rewind, Tape.read, List.length_append, List.length_drop, List.length_take]
    omega

theorem Moves.size {t t' : Tape α} (h : Moves t t') : t'.size = t.size := by
  have := congrArg List.length h.1
  simpa [Tape.size] using this

/-- When something was ahead, nothing that was not ahead comes back. -/
theorem Moves.suffix {t t' : Tape α} (h : Moves t t') (hne : t.ahead ≠ []) :
    t'.ahead <:+ t.ahead := by
  have hpos := List.length_pos_iff.mpr hne
  have hlen := h.2
  have hsuffix : t'.ahead <:+ t.past ++ t.ahead := by
    rw [← h.1]
    exact List.suffix_append ..
  exact List.suffix_of_suffix_length_le hsuffix (List.suffix_append ..) (by omega)

end tape
