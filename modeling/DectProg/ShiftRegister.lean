-- A shift register with feedback. A bit comes in at the top: where it differs
-- from the bit that falls out, the generator is added to what is left. So the
-- register holds the remainder of the bits by the generator, and it finds out
-- an odd number of errors, and errors that lie close together.
import Mathlib.Data.List.GetD

namespace shift_register

variable {w : Nat} (g : BitVec w)

/-- One bit comes in. -/
def step (r : BitVec w) (b : Bool) : BitVec w := (r <<< 1) ^^^ (if r.msb ^^ b then g else 0#w)

/-- One bit after the other comes in. -/
def feed (r : BitVec w) (bs : List Bool) : BitVec w := bs.foldl (step g) r

/-- The bits of a register, the top one first. -/
def bits (r : BitVec w) : List Bool := (List.range w).map r.getMsbD

@[simp] theorem feed_nil (r : BitVec w) : feed g r [] = r := rfl

@[simp] theorem feed_cons (r : BitVec w) (b : Bool) (bs : List Bool) :
    feed g r (b :: bs) = feed g (step g r b) bs := rfl

theorem feed_append (r : BitVec w) (as bs : List Bool) :
    feed g r (as ++ bs) = feed g (feed g r as) bs := List.foldl_append

@[simp] theorem bits_length (r : BitVec w) : (bits r).length = w := by simp [bits]

theorem bits_getElem (r : BitVec w) {i : Nat} (h : i < (bits r).length) :
    (bits r)[i] = r.getMsbD i := by simp [bits]

theorem bits_xor (r s : BitVec w) : bits (r ^^^ s) = List.zipWith xor (bits r) (bits s) := by
  apply List.ext_getElem
  · simp
  · intro i h1 h2
    simp [bits_getElem]

@[simp] theorem bits_zero : bits (0#w) = List.replicate w false := by
  apply List.ext_getElem
  · simp
  · intro i h1 h2
    simp [bits_getElem]

theorem bits_inj {r s : BitVec w} (h : bits r = bits s) : r = s := by
  apply BitVec.eq_of_getMsbD_eq
  intro i hi
  have := List.getElem_of_eq h (i := i) (by simpa using hi)
  simpa [bits_getElem] using this

/-! ## Linearity -/

theorem ite_xor (a b : Bool) :
    (if a ^^ b then g else 0#w) = (if a then g else 0#w) ^^^ (if b then g else 0#w) := by
  cases a <;> cases b <;> simp

theorem step_xor (r s : BitVec w) (b c : Bool) :
    step g (r ^^^ s) (b ^^ c) = step g r b ^^^ step g s c := by
  have hout : ((r ^^^ s).msb ^^ (b ^^ c)) = ((r.msb ^^ b) ^^ (s.msb ^^ c)) := by
    rw [BitVec.msb_xor]
    cases r.msb <;> cases s.msb <;> cases b <;> cases c <;> rfl
  unfold step
  rw [hout, ite_xor, BitVec.shiftLeft_xor_distrib]
  ac_rfl

/-- The errors that are added to the bits are added to the remainder as their own remainder. -/
theorem feed_xor (as bs : List Bool) :
    ∀ r s : BitVec w, as.length = bs.length →
      feed g (r ^^^ s) (List.zipWith xor as bs) = feed g r as ^^^ feed g s bs := by
  induction as generalizing bs with
  | nil =>
    intro r s h
    rw [List.eq_nil_of_length_eq_zero h.symm]
    rfl
  | cons a as ih =>
    intro r s h
    match bs, h with
    | b :: bs, h =>
      rw [List.zipWith_cons_cons, feed_cons, feed_cons, feed_cons, step_xor]
      exact ih bs _ _ (by simpa using h)

/-- Bits that are those at the top of the register only push it out. -/
theorem feed_top (bs : List Bool) :
    ∀ r : BitVec w, (∀ i (h : i < bs.length), r.getMsbD i = bs[i]) → feed g r bs = r <<< bs.length := by
  induction bs with
  | nil =>
    intro r _
    simp
  | cons b bs ih =>
    intro r h
    have hb : r.msb = b := by
      rw [BitVec.msb_eq_getMsbD_zero]
      exact h 0 (by simp)
    have hstep : step g r b = r <<< 1 := by simp [step, hb]
    rw [feed_cons, hstep, ih, ← BitVec.shiftLeft_add, List.length_cons, Nat.add_comm]
    intro i hi
    rw [BitVec.getMsbD_shiftLeft]
    exact h (i + 1) (by simpa using hi)

theorem feed_zeros (n : Nat) : feed g 0#w (List.replicate n false) = 0#w := by
  rw [feed_top]
  · simp
  · intro i hi
    simp

/-! ## Errors that lie close together -/

variable {g}

/-- A register that is empty after as many bits as it has places, or fewer, had just these bits at
its top. -/
theorem top_of_feed_eq_zero (hg : g.getLsbD 0 = true) (bs : List Bool) :
    ∀ r : BitVec w, bs.length ≤ w → feed g r bs = 0#w →
      ∀ i, r.getMsbD i = bs.getD i false := by
  induction bs with
  | nil =>
    intro r _ h i
    rw [feed_nil] at h
    simp [h]
  | cons b bs ih =>
    intro r hlen h
    rw [List.length_cons] at hlen
    have hstep := ih (step g r b) (by omega) h
    -- The place that comes up at the bottom is empty, so nothing was added.
    have hbottom : (step g r b).getMsbD (w - 1) = (r.msb ^^ b) := by
      have hlast : (step g r b).getMsbD (w - 1) = (step g r b).getLsbD 0 := by
        rw [BitVec.getMsbD]
        simp
        omega
      rw [hlast, step]
      cases hfeed : (r.msb ^^ b) <;> simp [hg]
    have hnone : (r.msb ^^ b) = false := by
      rw [← hbottom, hstep (w - 1), List.getD_eq_default _ _ (by omega)]
    have hshift : step g r b = r <<< 1 := by simp [step, hnone]
    intro i
    cases i with
    | zero =>
      rw [← BitVec.msb_eq_getMsbD_zero]
      simpa using hnone
    | succ i =>
      rw [← BitVec.getMsbD_shiftLeft, ← hshift]
      exact hstep i

/-- Zeros do not empty a register. -/
theorem feed_replicate_ne_zero (hg : g.getLsbD 0 = true) {r : BitVec w} (hr : r ≠ 0#w) (n : Nat) :
    feed g r (List.replicate n false) ≠ 0#w := by
  have hw : 0 < w := by
    rcases Nat.eq_zero_or_pos w with rfl | h
    · simp at hg
    · exact h
  induction n generalizing r with
  | zero => simpa using hr
  | succ n ih =>
    rw [List.replicate_succ, feed_cons]
    apply ih
    intro hzero
    apply hr
    apply BitVec.eq_of_getMsbD_eq
    intro i _
    have := top_of_feed_eq_zero hg [false] r hw hzero i
    rw [this]
    cases i <;> simp

/-- Errors that lie within as many bits as the register has places are not divisible by the
generator. -/
theorem burst_ne_zero (hg : g.getLsbD 0 = true) {bs : List Bool} (hlen : bs.length ≤ w)
    (hone : true ∈ bs) (m n : Nat) :
    feed g 0#w (List.replicate m false ++ bs ++ List.replicate n false) ≠ 0#w := by
  rw [feed_append, feed_append, feed_zeros]
  apply feed_replicate_ne_zero hg
  intro hzero
  obtain ⟨i, hi, hbit⟩ := List.getElem_of_mem hone
  have := top_of_feed_eq_zero hg bs 0#w hlen hzero i
  rw [BitVec.getMsbD_zero, List.getD_eq_getElem _ _ hi, hbit] at this
  cases this

/-! ## Odd numbers of errors -/

/-- Whether the number of ones is odd. -/
def parity (bs : List Bool) : Bool := bs.foldr xor false

@[simp] theorem parity_nil : parity [] = false := rfl

@[simp] theorem parity_cons (b : Bool) (bs : List Bool) : parity (b :: bs) = (b ^^ parity bs) := rfl

theorem parity_append (as bs : List Bool) : parity (as ++ bs) = (parity as ^^ parity bs) := by
  induction as with
  | nil => simp
  | cons a as ih => simp [ih]

theorem parity_zipWith (as bs : List Bool) (h : as.length = bs.length) :
    parity (List.zipWith xor as bs) = (parity as ^^ parity bs) := by
  induction as generalizing bs with
  | nil =>
    rw [List.eq_nil_of_length_eq_zero h.symm]
    rfl
  | cons a as ih =>
    match bs, h with
    | b :: bs, h =>
      rw [List.zipWith_cons_cons, parity_cons, ih bs (by simpa using h), parity_cons, parity_cons]
      cases a <;> cases b <;> simp

theorem parity_eq (bs : List Bool) : parity bs = decide (bs.count true % 2 = 1) := by
  induction bs with
  | nil => rfl
  | cons b bs ih =>
    cases b with
    | false => simp [ih]
    | true =>
      rw [parity_cons, ih, List.count_cons_self]
      have hmod := Nat.mod_two_eq_zero_or_one (bs.count true)
      rcases hmod with h | h <;> simp [Nat.add_mod, h]

theorem parity_shift (r : BitVec w) : parity (bits (r <<< 1)) = (parity (bits r) ^^ r.msb) := by
  cases w with
  | zero => simp [bits, BitVec.msb_zero_length]
  | succ n =>
    have hout : bits r = r.msb :: (List.range n).map fun i => r.getMsbD (i + 1) := by
      unfold bits
      rw [List.range_succ_eq_map, List.map_cons, BitVec.msb_eq_getMsbD_zero, List.map_map]
      rfl
    have hin : bits (r <<< 1) = ((List.range n).map fun i => r.getMsbD (i + 1)) ++ [false] := by
      unfold bits
      rw [List.range_succ, List.map_append]
      simp
    rw [hin, hout, parity_append, parity_cons]
    cases r.msb <;> simp

/-- A generator with an odd number of terms below the first keeps the parity. -/
theorem parity_step (hg : parity (bits g) = true) (r : BitVec w) (b : Bool) :
    parity (bits (step g r b)) = (parity (bits r) ^^ b) := by
  have hzero : parity (List.replicate w false) = false := by
    rw [parity_eq, List.count_replicate]
    simp
  unfold step
  rw [bits_xor, parity_zipWith _ _ (by simp), parity_shift]
  cases r.msb <;> cases b <;> simp [hg, hzero]

theorem parity_feed (hg : parity (bits g) = true) (bs : List Bool) :
    ∀ r : BitVec w, parity (bits (feed g r bs)) = (parity (bits r) ^^ parity bs) := by
  induction bs with
  | nil =>
    intro r
    simp
  | cons b bs ih =>
    intro r
    rw [feed_cons, ih, parity_step hg, parity_cons]
    cases parity (bits r) <;> simp

end shift_register
