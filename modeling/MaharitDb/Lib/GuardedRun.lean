import Mathlib.Tactic

/-!
# Guarded runs

A system takes steps from a state, and a guard says which steps are harmless in which states.
`Along step guard s cs` says that the guard holds before every step of the run `cs` from `s`; an
invariant that every guarded step keeps then holds at the end of the run.
-/

namespace GuardedRun

variable {S C : Type*}

/-- A guard that holds before each step of a run. -/
def Along (step : S → C → S) (guard : S → C → Prop) : S → List C → Prop
  | _, [] => True
  | s, c :: cs => guard s c ∧ Along step guard (step s c) cs

instance Along.decidable (step : S → C → S) (guard : S → C → Prop)
    [∀ s c, Decidable (guard s c)] : ∀ (s : S) (cs : List C), Decidable (Along step guard s cs)
  | _, [] => .isTrue trivial
  | s, c :: cs =>
      have := Along.decidable step guard (step s c) cs
      inferInstanceAs (Decidable (_ ∧ _))

/-- A run that meets a guard meets a weaker one. -/
theorem Along.mono {step : S → C → S} {guard guard' : S → C → Prop}
    (himp : ∀ s c, guard s c → guard' s c) {s : S} {cs : List C} (h : Along step guard s cs) :
    Along step guard' s cs := by
  induction cs generalizing s with
  | nil => trivial
  | cons c cs ih => exact ⟨himp s c h.1, ih h.2⟩

/-- What the guard says of the steps alone holds of every step. -/
theorem Along.forall_mem {step : S → C → S} {guard : S → C → Prop} {P : C → Prop}
    (himp : ∀ s c, guard s c → P c) {s : S} {cs : List C} (h : Along step guard s cs) :
    ∀ c ∈ cs, P c := by
  induction cs generalizing s with
  | nil => simp
  | cons c cs ih => exact List.forall_mem_cons.mpr ⟨himp s c h.1, ih h.2⟩

/-- A run meets the guard when its two parts do. -/
theorem along_append {step : S → C → S} {guard : S → C → Prop} {s : S} {cs cs' : List C} :
    Along step guard s (cs ++ cs') ↔
      Along step guard s cs ∧ Along step guard (cs.foldl step s) cs' := by
  induction cs generalizing s with
  | nil => simp [Along]
  | cons c cs ih => simp [Along, ih, and_assoc]

/-- An invariant kept by every guarded step holds at the end of a guarded run. -/
theorem inv_foldl {step : S → C → S} {guard : S → C → Prop}
    {Inv : S → Prop} (hstep : ∀ s c, Inv s → guard s c → Inv (step s c)) {s : S} (hs : Inv s) {cs : List C}
    (hcs : Along step guard s cs) : Inv (cs.foldl step s) := by
  induction cs generalizing s with
  | nil => exact hs
  | cons c cs ih => exact ih (hstep s c hs hcs.1) hcs.2

/-- When the guard says exactly which steps keep a property, the property holds in every state of a
run exactly when the run meets the guard.  The proof goes through a stronger invariant. -/
theorem forall_prefix_iff_along {step : S → C → S} {guard : S → C → Prop} {Inv Good : S → Prop}
    (hgood : ∀ s, Inv s → Good s) (hkeep : ∀ s c, Inv s → guard s c → Inv (step s c))
    (hexact : ∀ s c, Inv s → Good (step s c) → guard s c) {s : S} (hs : Inv s) {cs : List C} :
    (∀ pre, pre <+: cs → Good (pre.foldl step s)) ↔ Along step guard s cs := by
  induction cs generalizing s with
  | nil =>
    refine iff_of_true (fun pre hpre => ?_) trivial
    rw [List.prefix_nil.mp hpre]
    exact hgood s hs
  | cons c cs ih =>
    constructor
    · intro hall
      have hguard : guard s c := hexact s c hs (hall [c] (by simp))
      refine ⟨hguard, (ih (hkeep s c hs hguard)).mp fun pre hpre => ?_⟩
      exact hall (c :: pre) (List.cons_prefix_cons.mpr ⟨rfl, hpre⟩)
    · rintro ⟨hguard, hrest⟩ pre hpre
      cases pre with
      | nil => exact hgood s hs
      | cons c' pre =>
        obtain ⟨rfl, hrest'⟩ := List.cons_prefix_cons.mp hpre
        exact (ih (hkeep s c' hs hguard)).mpr hrest pre hrest'

end GuardedRun
