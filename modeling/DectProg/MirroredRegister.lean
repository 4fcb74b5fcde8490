-- A shift register with feedback that shifts the other way: a bit comes in at the
-- bottom, and where it differs from the bit that falls out, the generator is added
-- to what is left. Several bits may come in at once, before they are shifted out.
import DectProg.ShiftRegister
import Mathlib.Data.List.Basic
import Mathlib.Logic.Function.Iterate

namespace mirrored_register

variable {w : Nat} (g : BitVec w)

/-- One bit comes in. -/
def step (r : BitVec w) (b : Bool) : BitVec w :=
  (r >>> 1) ^^^ (if r.getLsbD 0 ^^ b then g else 0#w)

/-- One bit after the other comes in. -/
def feed (r : BitVec w) (bs : List Bool) : BitVec w := bs.foldl (step g) r

/-- A turn without a new bit. -/
def turn (r : BitVec w) : BitVec w := step g r false

/-- The lowest `n` bits of a word, the bottom one first. -/
def lowBits (n : Nat) (x : BitVec w) : List Bool := (List.range n).map x.getLsbD

@[simp] theorem feed_nil (r : BitVec w) : feed g r [] = r := rfl

@[simp] theorem feed_cons (r : BitVec w) (b : Bool) (bs : List Bool) :
    feed g r (b :: bs) = feed g (step g r b) bs := rfl

theorem feed_append (r : BitVec w) (as bs : List Bool) :
    feed g r (as ++ bs) = feed g (feed g r as) bs := List.foldl_append

@[simp] theorem lowBits_zero (x : BitVec w) : lowBits 0 x = [] := rfl

theorem lowBits_succ (n : Nat) (x : BitVec w) :
    lowBits (n + 1) x = x.getLsbD 0 :: lowBits n (x >>> 1) := by
  unfold lowBits
  rw [List.range_succ_eq_map, List.map_cons, List.map_map]
  congr 1
  apply List.map_congr_left
  intro i _
  simp [Nat.add_comm]

/-- A word that is added to the register comes in with its bottom bit at the next turn. -/
theorem turn_xor (r x : BitVec w) : turn g (r ^^^ x) = step g r (x.getLsbD 0) ^^^ (x >>> 1) := by
  unfold turn step
  rw [BitVec.ushiftRight_xor_distrib, BitVec.getLsbD_xor, Bool.xor_false]
  ac_rfl

/-- After `n` turns the lowest `n` bits of an added word have come in, one after the other, and the
others are still to come. -/
theorem turns_xor (n : Nat) :
    ∀ r x : BitVec w, (turn g)^[n] (r ^^^ x) = feed g r (lowBits n x) ^^^ (x >>> n) := by
  induction n with
  | zero =>
    intro r x
    simp
  | succ n ih =>
    intro r x
    rw [Function.iterate_succ_apply, turn_xor, ih, lowBits_succ, feed_cons, ← BitVec.shiftRight_add,
      Nat.add_comm 1]

/-- A word in which nothing is set below the `n`th place is shifted only. -/
theorem turns_high (n : Nat) (r x : BitVec w) (hx : ∀ i < n, x.getLsbD i = false) :
    (turn g)^[n] (r ^^^ x) = (turn g)^[n] r ^^^ (x >>> n) := by
  have hzeros : lowBits n x = lowBits n 0#w := by
    unfold lowBits
    apply List.map_congr_left
    intro i hi
    rw [hx i (List.mem_range.mp hi), BitVec.getLsbD_zero]
  have hnone := turns_xor g n r 0#w
  rw [BitVec.xor_zero, BitVec.zero_ushiftRight, BitVec.xor_zero] at hnone
  rw [turns_xor, hzeros, hnone]

/-! ## Several bits by a table -/

variable {m : BitVec w} {n : Nat}

/-- The mask `m` of the lowest `n` bits cuts a word in two. -/
theorem mask_xor (x : BitVec w) : (x &&& m) ^^^ (x &&& ~~~m) = x := by
  ext i hi
  simp only [BitVec.getElem_xor, BitVec.getElem_and, BitVec.getElem_not]
  cases x[i] <;> cases m[i] <;> rfl

theorem mask_shift (hm : ∀ i < w, m.getLsbD i = decide (i < n)) (x : BitVec w) :
    (x &&& ~~~m) >>> n = x >>> n := by
  apply BitVec.eq_of_getLsbD_eq
  intro i _
  simp only [BitVec.getLsbD_ushiftRight, BitVec.getLsbD_and, BitVec.getLsbD_not]
  by_cases hi : n + i < w
  · have hout : m.getLsbD (n + i) = false := by
      rw [hm _ hi]
      simp
    rw [hout]
    simp [hi]
  · rw [BitVec.getLsbD_of_ge x _ (by omega), Bool.false_and]

/-- The bits come in at once: what the lowest `n` bits of the sum become is looked up, and the rest
of the register is shifted. -/
theorem feed_lookup (hm : ∀ i < w, m.getLsbD i = decide (i < n)) (r x : BitVec w)
    (hx : x >>> n = 0#w) :
    feed g r (lowBits n x) = (r >>> n) ^^^ (turn g)^[n] ((r ^^^ x) &&& m) := by
  have hlow : ∀ i < n, ((r ^^^ x) &&& ~~~m).getLsbD i = false := by
    intro i hi
    by_cases hw : i < w
    · simp [BitVec.getLsbD_and, BitVec.getLsbD_not, hm i hw, hi]
    · exact BitVec.getLsbD_of_ge _ i (by omega)
  have hin := turns_xor g n r x
  rw [hx, BitVec.xor_zero] at hin
  have hsplit := turns_high g n ((r ^^^ x) &&& m) ((r ^^^ x) &&& ~~~m) hlow
  rw [mask_xor, mask_shift hm, BitVec.ushiftRight_xor_distrib, hx, BitVec.xor_zero] at hsplit
  rw [← hin, hsplit, BitVec.xor_comm]

/-! ## The mirror image -/

theorem reverse_xor (x y : BitVec w) : (x ^^^ y).reverse = x.reverse ^^^ y.reverse := by
  apply BitVec.eq_of_getMsbD_eq
  intro i _
  rw [BitVec.getMsbD_xor, BitVec.getMsbD_reverse, BitVec.getMsbD_reverse, BitVec.getMsbD_reverse,
    BitVec.getLsbD_xor]

theorem reverse_zero : (0#w).reverse = 0#w := by
  apply BitVec.eq_of_getMsbD_eq
  intro i _
  rw [BitVec.getMsbD_reverse, BitVec.getLsbD_zero, BitVec.getMsbD_zero]

theorem reverse_inj {x y : BitVec w} (h : x.reverse = y.reverse) : x = y := by
  rw [← BitVec.reverse_reverse_eq (x := x), h, BitVec.reverse_reverse_eq]

theorem step_reverse (r : BitVec w) (b : Bool) :
    (step g r b).reverse = shift_register.step g.reverse r.reverse b := by
  have hshift : (r >>> 1).reverse = r.reverse <<< 1 := by
    apply BitVec.eq_of_getMsbD_eq
    intro i hi
    rw [BitVec.getMsbD_reverse, BitVec.getLsbD_ushiftRight, BitVec.getMsbD_shiftLeft,
      BitVec.getMsbD_reverse, Nat.add_comm]
  have hout : r.reverse.msb = r.getLsbD 0 := BitVec.msb_reverse
  unfold step shift_register.step
  rw [reverse_xor, hshift, hout]
  split
  · rfl
  · rw [reverse_zero]

/-- The register in the mirror is the one that shifts the other way, over the generator in the
mirror. -/
theorem feed_reverse (bs : List Bool) :
    ∀ r : BitVec w, (feed g r bs).reverse = shift_register.feed g.reverse r.reverse bs := by
  induction bs with
  | nil => exact fun _ => rfl
  | cons b bs ih =>
    intro r
    rw [feed_cons, ih, step_reverse, shift_register.feed_cons]

/-- The errors that are added to the bits are added to the remainder as their own remainder. -/
theorem feed_xor (as bs : List Bool) (r s : BitVec w) (h : as.length = bs.length) :
    feed g (r ^^^ s) (List.zipWith xor as bs) = feed g r as ^^^ feed g s bs := by
  apply reverse_inj
  rw [reverse_xor, feed_reverse, feed_reverse, feed_reverse, reverse_xor,
    shift_register.feed_xor _ as bs _ _ h]

variable {g}

/-- Errors that lie within as many bits as the register has places are not divisible by the
generator. -/
theorem burst_ne_zero (hg : g.msb = true) {bs : List Bool} (hlen : bs.length ≤ w)
    (hone : true ∈ bs) (a c : Nat) :
    feed g 0#w (List.replicate a false ++ bs ++ List.replicate c false) ≠ 0#w := by
  have hbottom : g.reverse.getLsbD 0 = true := by
    rw [BitVec.getLsbD_reverse, ← BitVec.msb_eq_getMsbD_zero]
    exact hg
  intro hzero
  apply shift_register.burst_ne_zero hbottom hlen hone a c
  have hmirror := feed_reverse g (List.replicate a false ++ bs ++ List.replicate c false) 0#w
  rw [hzero, reverse_zero] at hmirror
  exact hmirror.symm

end mirrored_register
