-- A memory of blocks that are asked for and given back. A block that was given
-- back is not used again, and no pointer leads to it; that there may be no room
-- for a new block is left out.
import Mathlib.Data.List.Basic

namespace blocks

variable {α : Type}

/-- The blocks in the order in which they were asked for; one that was given back is `none`. -/
abbrev Blocks (α : Type) : Type := List (Option α)

/-- A new block, and the pointer to it. -/
def alloc (m : Blocks α) (x : α) : Blocks α × Nat := (m ++ [some x], m.length)

def load (m : Blocks α) (p : Nat) : Option α := m[p]?.join

def store (m : Blocks α) (p : Nat) (x : α) : Option (Blocks α) :=
  match load m p with
  | some _ => some (m.set p (some x))
  | none => none

def free (m : Blocks α) (p : Nat) : Option (Blocks α) :=
  match load m p with
  | some _ => some (m.set p none)
  | none => none

/-- The number of blocks that were not given back. -/
def live (m : Blocks α) : Nat := m.countP Option.isSome

/-- What can be read in the one memory can be read in the other. -/
def Keeps (m m' : Blocks α) : Prop := ∀ p x, load m p = some x → load m' p = some x

variable {m m' m'' : Blocks α} {p q : Nat} {x y : α}

theorem Keeps.refl (m : Blocks α) : Keeps m m := fun _ _ h => h

theorem Keeps.trans (h : Keeps m m') (h' : Keeps m' m'') : Keeps m m'' :=
  fun p x hp => h' p x (h p x hp)

theorem load_lt (h : load m p = some x) : p < m.length := by
  unfold load at h
  by_contra hge
  rw [List.getElem?_eq_none (by omega)] at h
  cases h

theorem load_eq (h : load m p = some x) : m[p]? = some (some x) := by
  unfold load at h
  exact Option.join_eq_some_iff.mp h

/-- A block is replaced by another one, or it goes. -/
theorem live_set (h : load m p = some x) (c : Option α) :
    live (m.set p c) + 1 = live m + if c.isSome then 1 else 0 := by
  obtain ⟨hlt, hget⟩ := List.getElem?_eq_some_iff.mp (load_eq h)
  have hpos : 0 < m.countP Option.isSome :=
    List.countP_pos_iff.mpr ⟨some x, hget ▸ List.getElem_mem hlt, rfl⟩
  unfold live
  rw [List.countP_set hlt, hget, Option.isSome_some, if_pos rfl]
  omega

/-! ## A new block -/

@[simp] theorem load_alloc (m : Blocks α) (x : α) : load (alloc m x).1 (alloc m x).2 = some x := by
  simp [load, alloc]

theorem keeps_alloc (m : Blocks α) (x : α) : Keeps m (alloc m x).1 := by
  intro p y h
  have hlt := load_lt h
  unfold load at *
  rw [alloc, List.getElem?_append_left hlt]
  exact h

/-- No pointer led to it before. -/
theorem load_fresh (m : Blocks α) (x : α) : load m (alloc m x).2 = none := by
  unfold load alloc
  rw [List.getElem?_eq_none (Nat.le_refl _)]
  rfl

@[simp] theorem live_alloc (m : Blocks α) (x : α) : live (alloc m x).1 = live m + 1 := by
  simp [live, alloc]

/-! ## A block that is written -/

theorem exists_store (x : α) (h : load m p = some y) : ∃ m', store m p x = some m' := by
  unfold store
  rw [h]
  exact ⟨_, rfl⟩

theorem store_eq (h : store m p x = some m') : m' = m.set p (some x) ∧ ∃ y, load m p = some y := by
  unfold store at h
  split at h
  · rename_i y hy
    cases h
    exact ⟨rfl, y, hy⟩
  · cases h

theorem load_store (h : store m p x = some m') : load m' p = some x := by
  obtain ⟨rfl, y, hy⟩ := store_eq h
  simp [load, load_lt hy]

theorem load_store_ne (h : store m p x = some m') (hne : q ≠ p) : load m' q = load m q := by
  obtain ⟨rfl, -⟩ := store_eq h
  rw [load, List.getElem?_set_ne (Ne.symm hne), load]

theorem live_store (h : store m p x = some m') : live m' = live m := by
  obtain ⟨rfl, y, hy⟩ := store_eq h
  have hset := live_set hy (some x)
  rw [Option.isSome_some, if_pos rfl] at hset
  omega

/-- A block that the other memory does not have is written. -/
theorem Keeps.store (h : Keeps m m') (hp : load m p = none) (hs : store m' p x = some m'') :
    Keeps m m'' := by
  intro q y hq
  have hne : q ≠ p := by
    rintro rfl
    rw [hp] at hq
    cases hq
  rw [load_store_ne hs hne]
  exact h q y hq

/-! ## A block that is given back -/

theorem exists_free (h : load m p = some y) : ∃ m', free m p = some m' := by
  unfold free
  rw [h]
  exact ⟨_, rfl⟩

theorem free_eq (h : free m p = some m') : m' = m.set p none ∧ ∃ y, load m p = some y := by
  unfold free at h
  split at h
  · rename_i y hy
    cases h
    exact ⟨rfl, y, hy⟩
  · cases h

theorem load_free_ne (h : free m p = some m') (hne : q ≠ p) : load m' q = load m q := by
  obtain ⟨rfl, -⟩ := free_eq h
  rw [load, List.getElem?_set_ne (Ne.symm hne), load]

theorem live_free (h : free m p = some m') : live m' + 1 = live m := by
  obtain ⟨rfl, y, hy⟩ := free_eq h
  rw [live_set hy none]
  rfl

/-- A block that the other memory does not have is given back. -/
theorem Keeps.free (h : Keeps m m') (hp : load m p = none) (hs : free m' p = some m'') :
    Keeps m m'' := by
  intro q y hq
  have hne : q ≠ p := by
    rintro rfl
    rw [hp] at hq
    cases hq
  rw [load_free_ne hs hne]
  exact h q y hq

end blocks
