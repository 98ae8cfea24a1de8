import Mathlib.Tactic

/-!
# Runs whose steps should be exact

A `Run` is a computation with machine arithmetic: it ends with a value, with an error of the program or with a
panic, and a mark that is not part of the program says whether some step did not give its exact result.  A
`Guarded` computation does the same steps exactly and gives up at a step that is out of its bounds.  `Follows`
relates a run to the exact computation and to one whose guards say when every step is exact; it is kept by
sequencing, so it has to be shown for single steps only.
-/

namespace ExactRun

/-- How a run ends. -/
inductive Outcome (ε α : Type) where
  | value (a : α)
  | raised (e : ε)
  | panicked

/-- A run, with a mark that is set when some step was not exact. -/
structure Run (ε α : Type) where
  inexact : Bool
  outcome : Outcome ε α

/-- A computation that gives up at a step out of its bounds. -/
inductive Guarded (ε α : Type) where
  | value (a : α)
  | raised (e : ε)
  | outOfBounds

variable {ε α β : Type}

instance : Monad (Run ε) where
  pure a := ⟨false, .value a⟩
  bind r f :=
    match r.outcome with
    | .value a => ⟨r.inexact || (f a).inexact, (f a).outcome⟩
    | .raised e => ⟨r.inexact, .raised e⟩
    | .panicked => ⟨r.inexact, .panicked⟩

instance : Monad (Guarded ε) where
  pure a := .value a
  bind s f :=
    match s with
    | .value a => f a
    | .raised e => .raised e
    | .outOfBounds => .outOfBounds

/-- A step that stops the program. -/
def Run.panic : Run ε α := ⟨false, .panicked⟩

/-- A step that goes on with a value that is not its exact result. -/
def Run.wrapped (a : α) : Run ε α := ⟨true, .value a⟩

/-- A step with the given result, of which it is known whether it is exact. -/
def Run.report (exact : Bool) (a : α) : Run ε α := ⟨!exact, .value a⟩

/-- A step of the guarded computation. -/
def Guarded.within (inBounds : Bool) (a : α) : Guarded ε α := if inBounds then .value a else .outOfBounds

/-- Some step of the run was not exact, or the run panicked. -/
def Run.Fails (r : Run ε α) : Prop := r.inexact = true ∨ r.outcome = .panicked

/-- The run ends with an error or with the exact result, and no step of it was inexact. -/
structure Run.Exactly (r : Run ε α) (exact : Guarded ε α) : Prop where
  steps : r.inexact = false
  returns : r.outcome ≠ .panicked
  result : (∃ e, r.outcome = .raised e) ∨ ∃ a, r.outcome = .value a ∧ exact = .value a

/-- The run does what the guarded computation does, exactly, and fails where that gives up. -/
inductive Follows : Run ε α → Guarded ε α → Guarded ε α → Prop where
  | value (a : α) : Follows ⟨false, .value a⟩ (.value a) (.value a)
  | raised (e : ε) : Follows ⟨false, .raised e⟩ (.raised e) (.raised e)
  | outOfBounds (r : Run ε α) (s : Guarded ε α) (h : r.Fails) : Follows r s .outOfBounds

namespace Follows

lemma pure (a : α) : Follows (Pure.pure a : Run ε α) (Pure.pure a) (Pure.pure a) := Follows.value a

/-- A step that is exact when it is within its bounds. -/
lemma step {r : Run ε α} {inBounds : Bool} {a : α} (hin : inBounds = true → r = ⟨false, .value a⟩)
    (hout : inBounds = false → r.Fails) {inBounds' : Bool} (hle : inBounds = true → inBounds' = true) :
    Follows r (Guarded.within inBounds' a) (Guarded.within inBounds a) := by
  cases hcase : inBounds with
  | false => exact Follows.outOfBounds r _ (hout hcase)
  | true =>
    rw [hin hcase, Guarded.within, Guarded.within, hle hcase]
    exact Follows.value a

/-- A failure is not undone by what follows. -/
lemma fails_bind {r : Run ε α} (h : r.Fails) (f : α → Run ε β) : (r >>= f).Fails := by
  obtain ⟨inexact, outcome⟩ := r
  cases outcome with
  | value a =>
    rcases h with h | h
    · exact Or.inl (by simp only [Bind.bind] at h ⊢; rw [h, Bool.true_or])
    · exact absurd h (by simp)
  | raised e =>
    rcases h with h | h
    · exact Or.inl h
    · exact absurd h (by simp)
  | panicked => exact Or.inr rfl

/-- Sequencing. -/
lemma bind {r : Run ε α} {s t : Guarded ε α} (h : Follows r s t) {f : α → Run ε β} {g k : α → Guarded ε β}
    (hf : ∀ a, Follows (f a) (g a) (k a)) : Follows (r >>= f) (s >>= g) (t >>= k) := by
  cases h with
  | value a => exact hf a
  | raised e => exact Follows.raised e
  | outOfBounds r s h => exact Follows.outOfBounds _ _ (fails_bind h f)

/-- Applying a function to the result. -/
lemma map {r : Run ε α} {s t : Guarded ε α} (h : Follows r s t) (f : α → β) :
    Follows (f <$> r) (f <$> s) (f <$> t) :=
  h.bind fun a => Follows.pure (f a)

/-- A run that follows a guarded computation is exact if and only if that does not give up. -/
theorem exactly_iff {r : Run ε α} {s t : Guarded ε α} (h : Follows r s t) :
    r.Exactly s ↔ t ≠ .outOfBounds := by
  constructor
  · rintro hr rfl
    cases h with
    | outOfBounds r s h =>
      rcases h with h | h
      · rw [hr.steps] at h
        exact absurd h (by decide)
      · exact hr.returns h
  · intro ht
    cases h with
    | value a => exact ⟨rfl, by simp, Or.inr ⟨a, rfl, rfl⟩⟩
    | raised e => exact ⟨rfl, by simp, Or.inl ⟨e, rfl⟩⟩
    | outOfBounds r s h => exact absurd rfl ht

end Follows

end ExactRun
