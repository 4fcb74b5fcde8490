-- Runs of a machine that takes one input after the other. A step gives the
-- next state and what it shows, or nothing where the machine has no behaviour.
import Mathlib.Data.List.Basic

namespace machine

variable {σ τ ι ο : Type}

/-- The state after the inputs, and what each step showed. -/
def run (step : σ → ι → Option (σ × ο)) : σ → List ι → Option (σ × List ο)
  | s, [] => some (s, [])
  | s, i :: is => do
    let (s, o) ← step s i
    let (s, os) ← run step s is
    some (s, o :: os)

theorem run_cons_eq_some {step : σ → ι → Option (σ × ο)} {s s' : σ} {i : ι} {is : List ι}
    {os : List ο} :
    run step s (i :: is) = some (s', os) ↔
      ∃ s1 o os', step s i = some (s1, o) ∧ run step s1 is = some (s', os') ∧ os = o :: os' := by
  constructor
  · intro h
    simp only [run, Option.bind_eq_bind, Option.bind_eq_some_iff] at h
    obtain ⟨⟨s1, o⟩, h1, ⟨s2, os'⟩, h2, h3⟩ := h
    cases h3
    exact ⟨s1, o, os', h1, h2, rfl⟩
  · rintro ⟨s1, o, os', h1, h2, rfl⟩
    simp [run, h1, h2]

/-- A relation that each step keeps, with the same output on both sides, holds after every
run: the second machine follows the first. -/
theorem run_simulates {step : σ → ι → Option (σ × ο)} {step' : τ → ι → Option (τ × ο)}
    {R : σ → τ → Prop}
    (hstep : ∀ s t i s' o, R s t → step s i = some (s', o) →
      ∃ t', step' t i = some (t', o) ∧ R s' t') :
    ∀ (is : List ι) (s : σ) (t : τ) (s' : σ) (os : List ο), R s t →
      run step s is = some (s', os) → ∃ t', run step' t is = some (t', os) ∧ R s' t' := by
  intro is
  induction is with
  | nil =>
    intro s t s' os hR h
    cases h
    exact ⟨t, rfl, hR⟩
  | cons i is ih =>
    intro s t s' os hR h
    obtain ⟨s1, o, os', h1, h2, rfl⟩ := run_cons_eq_some.mp h
    obtain ⟨t1, ht1, hR1⟩ := hstep s t i s1 o hR h1
    obtain ⟨t', ht', hR'⟩ := ih s1 t1 s' os' hR1 h2
    exact ⟨t', run_cons_eq_some.mpr ⟨t1, o, os', ht1, ht', rfl⟩, hR'⟩

/-- An invariant that each step keeps holds after every run. -/
theorem run_invariant {step : σ → ι → Option (σ × ο)} {Inv : σ → Prop}
    (hstep : ∀ s i s' o, Inv s → step s i = some (s', o) → Inv s') :
    ∀ (is : List ι) (s s' : σ) (os : List ο), Inv s → run step s is = some (s', os) → Inv s' := by
  intro is
  induction is with
  | nil =>
    intro s s' os hI h
    cases h
    exact hI
  | cons i is ih =>
    intro s s' os hI h
    obtain ⟨s1, o, os', h1, h2, rfl⟩ := run_cons_eq_some.mp h
    exact ih s1 s' os' (hstep s i s1 o hI h1) h2

end machine
