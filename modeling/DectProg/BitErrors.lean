-- Messages of symbols that are sent bit by bit, and the bits in which two of them
-- differ. Which bit of a symbol comes first is a parameter.
import Mathlib.Data.List.Basic

namespace bit_errors

variable {α : Type} (bitsOf : α → List Bool)

/-- The bits of some symbols. -/
def message (a : List α) : List Bool := a.flatMap bitsOf

/-- Where the bits of two messages differ. -/
def flips (a b : List α) : List Bool := List.zipWith xor (message bitsOf a) (message bitsOf b)

@[simp] theorem message_nil : message bitsOf [] = [] := rfl

theorem message_cons (x : α) (a : List α) :
    message bitsOf (x :: a) = bitsOf x ++ message bitsOf a := rfl

theorem message_append (a b : List α) :
    message bitsOf (a ++ b) = message bitsOf a ++ message bitsOf b := List.flatMap_append

theorem flips_self (a : List α) :
    flips bitsOf a a = List.replicate (message bitsOf a).length false := by
  rw [flips, List.zipWith_self, List.eq_replicate_iff]
  refine ⟨List.length_map _, fun b hb => ?_⟩
  obtain ⟨x, -, rfl⟩ := List.mem_map.mp hb
  exact Bool.xor_self x

theorem eq_of_no_flip {as : List Bool} :
    ∀ {bs : List Bool}, as.length = bs.length → true ∉ List.zipWith xor as bs → as = bs := by
  induction as with
  | nil => exact fun hlen _ => (List.eq_nil_of_length_eq_zero hlen.symm).symm
  | cons a as ih =>
    intro bs hlen h
    cases bs with
    | nil => cases hlen
    | cons b bs =>
      rw [List.zipWith_cons_cons, List.mem_cons, not_or] at h
      have hab : a = b := by
        have hne := h.1
        cases a <;> cases b <;> simp at hne ⊢
      rw [hab, ih (Nat.succ.inj hlen) h.2]

/-! ## Symbols of one length -/

variable {bitsOf} {k : Nat} (hk : ∀ x, (bitsOf x).length = k)

include hk

theorem message_length (a : List α) : (message bitsOf a).length = k * a.length := by
  induction a with
  | nil => rfl
  | cons x a ih => rw [message_cons, List.length_append, hk, ih, List.length_cons, Nat.mul_succ,
      Nat.add_comm]

theorem flips_length {a b : List α} (h : a.length = b.length) :
    (flips bitsOf a b).length = k * a.length := by
  rw [flips, List.length_zipWith, message_length hk, message_length hk, h, Nat.min_self]

theorem flips_append {a a' : List α} (b b' : List α) (h : a.length = a'.length) :
    flips bitsOf (a ++ b) (a' ++ b') = flips bitsOf a a' ++ flips bitsOf b b' := by
  unfold flips
  rw [message_append, message_append, List.zipWith_append]
  rw [message_length hk, message_length hk, h]

variable (hinj : ∀ {x y}, bitsOf x = bitsOf y → x = y)

include hinj

theorem message_inj {a : List α} :
    ∀ {b : List α}, a.length = b.length → message bitsOf a = message bitsOf b → a = b := by
  induction a with
  | nil => exact fun hlen _ => (List.eq_nil_of_length_eq_zero hlen.symm).symm
  | cons x a ih =>
    intro b hlen h
    cases b with
    | nil => cases hlen
    | cons y b =>
      rw [message_cons, message_cons] at h
      obtain ⟨hsymbol, hrest⟩ := List.append_inj h ((hk x).trans (hk y).symm)
      rw [hinj hsymbol, ih (Nat.succ.inj hlen) hrest]

/-- Messages that differ have a flipped bit. -/
theorem exists_flip {a b : List α} (hlen : a.length = b.length) (hne : a ≠ b) :
    true ∈ flips bitsOf a b := by
  by_contra hnone
  apply hne
  apply message_inj hk hinj hlen
  apply eq_of_no_flip _ hnone
  rw [message_length hk, message_length hk, hlen]

end bit_errors
