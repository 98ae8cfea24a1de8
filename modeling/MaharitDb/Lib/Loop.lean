import Mathlib.Logic.Relation
import MaharitDb.Lib.AssocMap
import MaharitDb.Lib.EnoughFuel

/-!
# Loops

A loop takes step after step until a step gives a result.  The number of its turns is bounded by fuel; it comes to a
result with enough fuel when every step descends in a well-founded order, and what holds of the result follows from an
invariant.  A loop over a list whose body is such a loop comes to a result when each of its turns does.  A search that
marks nodes descends in the number of nodes that it has not marked yet.
-/

namespace Loop

variable {S A R : Type}

/-- Take steps until one gives a result. -/
def run (step : S → S ⊕ R) : ℕ → S → Option R
  | 0, _ => none
  | fuel + 1, s =>
      match step s with
      | .inl s' => run step fuel s'
      | .inr r => some r

variable {step : S → S ⊕ R}

lemma run_inl {s s' : S} (h : step s = .inl s') (fuel : ℕ) : run step (fuel + 1) s = run step fuel s' := by
  rw [run, h]

lemma run_inr {s : S} {r : R} (h : step s = .inr r) (fuel : ℕ) : run step (fuel + 1) s = some r := by
  rw [run, h]

/-- A result stays the result with more fuel. -/
lemma run_of_le {n m : ℕ} {s : S} {r : R} (h : run step n s = some r) (hle : n ≤ m) : run step m s = some r := by
  induction n generalizing m s with
  | zero => cases h
  | succ n ih =>
    obtain ⟨m, rfl⟩ : ∃ k, m = k + 1 := ⟨m - 1, by omega⟩
    rw [run] at h ⊢
    cases hnext : step s with
    | inl s' =>
      rw [hnext] at h
      exact ih h (Nat.le_of_succ_le_succ hle)
    | inr r' =>
      rw [hnext] at h
      exact h

lemma withFuel_of_run {n : ℕ} {s : S} {r : R} (h : run step n s = some r) :
    WithFuel (fun fuel => run step fuel s) (· = some r) :=
  Filter.eventually_atTop.mpr ⟨n, fun _ hm => run_of_le h hm⟩

/-- The states to which the steps of the loop lead. -/
def Reached (step : S → S ⊕ R) : S → S → Prop := Relation.ReflTransGen fun s s' => step s = .inl s'

/-- A result that a reached state gives is the result of the loop. -/
lemma Reached.withFuel {s s' : S} {r : R} (h : Reached step s s') (hr : step s' = .inr r) :
    WithFuel (fun fuel => run step fuel s) (· = some r) := by
  induction h using Relation.ReflTransGen.head_induction_on with
  | refl => exact WithFuel.of_succ (run_inr hr) (WithFuel.of_forall fun _ => rfl)
  | head hstep _ ih => exact WithFuel.of_succ (run_inl hstep) ih

/-- The rule of the loop with a history: the invariant and the rank may speak of more than the state. -/
theorem run_withFuel_history {G α : Type*} [LT α] [WellFoundedLT α] (step : S → S ⊕ R) (Inv : G → S → Prop) (Post : R → Prop)
    (rank : G → S → α)
    (hstep : ∀ h s s', Inv h s → step s = .inl s' → ∃ h', Inv h' s' ∧ rank h' s' < rank h s)
    (hdone : ∀ h s r, Inv h s → step s = .inr r → Post r) {h : G} {s : S} (hs : Inv h s) :
    ∃ r, Post r ∧ WithFuel (fun fuel => run step fuel s) (· = some r) := by
  induction hrank : rank h s using WellFoundedLT.induction generalizing h s with
  | _ a ih =>
    subst hrank
    cases hnext : step s with
    | inl s' =>
      obtain ⟨h', hs', hlt⟩ := hstep h s s' hs hnext
      obtain ⟨r, hr, hrun⟩ := ih _ hlt hs' rfl
      exact ⟨r, hr, WithFuel.of_succ (run_inl hnext) hrun⟩
    | inr r =>
      refine ⟨r, hdone h s r hs hnext, ?_⟩
      exact WithFuel.of_succ (run_inr hnext) (WithFuel.of_forall fun _ => rfl)

/-- The rule of the loop: an invariant that the steps keep while they descend. -/
theorem run_withFuel (Inv : S → Prop) (Post : R → Prop) {lt : S → S → Prop} (hwf : WellFounded lt)
    (hstep : ∀ s s', Inv s → step s = .inl s' → Inv s' ∧ lt s' s)
    (hdone : ∀ s r, Inv s → step s = .inr r → Post r) {s : S} (hs : Inv s) :
    ∃ r, Post r ∧ WithFuel (fun fuel => run step fuel s) (· = some r) := by
  induction s using hwf.induction with
  | _ s ih =>
    cases hnext : step s with
    | inl s' =>
      obtain ⟨hs', hlt⟩ := hstep s s' hs hnext
      obtain ⟨r, hr, hrun⟩ := ih s' hlt hs'
      exact ⟨r, hr, WithFuel.of_succ (run_inl hnext) hrun⟩
    | inr r =>
      refine ⟨r, hdone s r hs hnext, ?_⟩
      exact WithFuel.of_succ (run_inr hnext) (WithFuel.of_forall fun _ => rfl)

/-- A computation that comes to a result, and then the rest on what it comes to. -/
lemma bind_withFuel {p : ℕ → Option S} {f : ℕ → S → Option R} {s : S} {r : R} (hp : WithFuel p (· = some s))
    (hf : WithFuel (fun fuel => f fuel s) (· = some r)) : WithFuel (fun fuel => p fuel >>= f fuel) (· = some r) := by
  refine Filter.Eventually.mp (Filter.Eventually.and hp hf) (Filter.Eventually.of_forall fun fuel h => ?_)
  obtain ⟨hfirst, hrest⟩ := h
  show p fuel >>= f fuel = some r
  rw [hfirst]
  exact hrest

/-- The rule of a loop over a list: the invariant speaks of the items that are done. -/
theorem foldlM_withFuel (Inv : List A → S → Prop) {f : ℕ → S → A → Option S} (l : List A)
    (hstep : ∀ done a rest s, l = done ++ a :: rest → Inv done s →
      ∃ s', Inv (done ++ [a]) s' ∧ WithFuel (fun fuel => f fuel s a) (· = some s'))
    {s : S} (hs : Inv [] s) : ∃ s', Inv l s' ∧ WithFuel (fun fuel => l.foldlM (f fuel) s) (· = some s') := by
  have hrest : ∀ rest done s, l = done ++ rest → Inv done s →
      ∃ s', Inv l s' ∧ WithFuel (fun fuel => rest.foldlM (f fuel) s) (· = some s') := by
    intro rest
    induction rest with
    | nil =>
      intro done s hl hdone
      rw [List.append_nil] at hl
      subst hl
      exact ⟨s, hdone, WithFuel.of_forall fun _ => rfl⟩
    | cons a rest ih =>
      intro done s hl hdone
      obtain ⟨s', hs', hrun⟩ := hstep done a rest s hl hdone
      obtain ⟨s'', hs'', hrun'⟩ := ih (done ++ [a]) s' (by simpa using hl) hs'
      refine ⟨s'', hs'', ?_⟩
      simp only [List.foldlM_cons]
      exact bind_withFuel hrun hrun'
  exact hrest l [] s rfl hs

/-- Computations that come to results, one after another. -/
theorem mapM_withFuel {B : Type} (Post : A → B → Prop) {f : ℕ → A → Option B} (l : List A)
    (hf : ∀ a ∈ l, ∃ b, Post a b ∧ WithFuel (fun fuel => f fuel a) (· = some b)) :
    ∃ bs, List.Forall₂ Post l bs ∧ WithFuel (fun fuel => (l.map (f fuel)).mapM id) (· = some bs) := by
  induction l with
  | nil => exact ⟨[], .nil, WithFuel.of_forall fun _ => rfl⟩
  | cons a l ih =>
    obtain ⟨b, hb, hrun⟩ := hf a List.mem_cons_self
    obtain ⟨bs, hbs, hrest⟩ := ih fun a' ha' => hf a' (List.mem_cons_of_mem _ ha')
    refine ⟨b :: bs, .cons hb hbs, ?_⟩
    simp only [List.map_cons, List.mapM_cons, id]
    exact bind_withFuel hrun (bind_withFuel hrest (WithFuel.of_forall fun _ => rfl))

/-! ## Nodes left to mark -/

variable {V W : Type} [DecidableEq V]

/-- The number of listed nodes that are not marked yet. -/
def unseen (nodes : List V) (seen : HashMap V W) : ℕ := nodes.countP fun v => decide (v ∉ seen)

/-- Marking one of them leaves fewer. -/
lemma unseen_lt {W' : Type} {nodes : List V} {seen : HashMap V W} {seen' : HashMap V W'}
    (hle : ∀ v ∈ seen, v ∈ seen') {v : V} (hv : v ∈ nodes) (hfresh : v ∉ seen) (hmarked : v ∈ seen') :
    unseen nodes seen' < unseen nodes seen := by
  have hcount : ∀ l : List V, l.countP (fun u => decide (u ∉ seen')) ≤ l.countP fun u => decide (u ∉ seen) := by
    intro l
    refine List.countP_mono_left fun u _ hu => ?_
    exact decide_eq_true fun hmem => of_decide_eq_true hu (hle u hmem)
  obtain ⟨l, l', rfl⟩ := List.append_of_mem hv
  have hl := hcount l
  have hl' := hcount l'
  rw [unseen, unseen, List.countP_append, List.countP_append, List.countP_cons, List.countP_cons,
    decide_eq_false (not_not_intro hmarked), decide_eq_true hfresh]
  simp only [Bool.false_eq_true, if_false, if_true]
  omega

lemma unseen_insert_lt {nodes : List V} {seen : HashMap V W} {v : V} (w : W) (hv : v ∈ nodes) (hfresh : v ∉ seen) :
    unseen nodes (seen.insert v w) < unseen nodes seen :=
  unseen_lt (fun _ hu => (AList.mem_insert _).mpr (.inr hu)) hv hfresh ((AList.mem_insert _).mpr (.inl rfl))

lemma unseen_congr {W' : Type} (nodes : List V) {seen : HashMap V W} {seen' : HashMap V W'}
    (h : ∀ v, v ∈ seen ↔ v ∈ seen') : unseen nodes seen = unseen nodes seen' :=
  List.countP_congr fun v _ => by simp only [decide_eq_true_eq, h]

end Loop
