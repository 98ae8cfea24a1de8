import Mathlib.Tactic

/-!
# Layered search

A search that goes through a list of layers: in each layer it takes one of the hops possible from
the state it is in, and the hop decides the next state.  `search` lists the hop sequences a search
finds when each layer lists its hops; `IsPath` says declaratively which sequences are paths.  A
search finds exactly the paths, and it finds each one once when no hop on a path is listed twice.
-/

namespace LayeredSearch

variable {L S H : Type*} (next : L → S → H → S)

/-- Every hop of the sequence is admissible in its layer, from the state reached so far. -/
def IsPath (ok : L → S → H → Prop) : List L → S → List H → Prop
  | [], _, [] => True
  | l :: ls, s, h :: hs => ok l s h ∧ IsPath ok ls (next l s h) hs
  | _, _, _ => False

/-- The state after a sequence of hops. -/
def stateAfter : List L → S → List H → S
  | l :: ls, s, h :: hs => stateAfter ls (next l s h) hs
  | _, s, _ => s

/-- The hop sequences found, when a layer lists its hops. -/
def search (hops : L → S → List H) : List L → S → List (List H)
  | [], _ => [[]]
  | l :: ls, s => (hops l s).flatMap fun h => (search hops ls (next l s h)).map (h :: ·)

/-- A condition on layers and states holds wherever the search comes by. -/
def Throughout (hops : L → S → List H) (D : L → S → Prop) : List L → S → Prop
  | [], _ => True
  | l :: ls, s => D l s ∧ ∀ h ∈ hops l s, Throughout hops D ls (next l s h)

variable {next}

/-! ## Paths -/

theorem IsPath.imp {ok ok' : L → S → H → Prop} (himp : ∀ l s h, ok l s h → ok' l s h)
    {ls : List L} {s : S} {hs : List H} (hpath : IsPath next ok ls s hs) :
    IsPath next ok' ls s hs := by
  induction ls generalizing s hs with
  | nil => cases hs <;> exact hpath
  | cons l ls ih =>
    cases hs with
    | nil => exact hpath
    | cons h hs => exact ⟨himp l s h hpath.1, ih hpath.2⟩

theorem isPath_singleton {ok : L → S → H → Prop} {l : L} {s : S} {hs : List H} :
    IsPath next ok [l] s hs ↔ ∃ h, hs = [h] ∧ ok l s h := by
  cases hs with
  | nil => simp [IsPath]
  | cons h hs => cases hs <;> simp [IsPath]

/-- Two conditions on the hops hold along a path when both hold along it. -/
theorem isPath_and {ok ok' : L → S → H → Prop} {ls : List L} {s : S} {hs : List H} :
    IsPath next (fun l s h => ok l s h ∧ ok' l s h) ls s hs ↔
      IsPath next ok ls s hs ∧ IsPath next ok' ls s hs := by
  induction ls generalizing s hs with
  | nil => cases hs <;> simp [IsPath]
  | cons l ls ih =>
    cases hs with
    | nil => simp [IsPath]
    | cons h hs =>
      simp only [IsPath, ih]
      tauto

/-! ## Searching -/

/-- A search finds the sequences of listed hops. -/
theorem mem_search {hops : L → S → List H} {ls : List L} {s : S} {hs : List H} :
    hs ∈ search next hops ls s ↔ IsPath next (fun l s h => h ∈ hops l s) ls s hs := by
  induction ls generalizing s hs with
  | nil => cases hs <;> simp [search, IsPath]
  | cons l ls ih =>
    cases hs with
    | nil => simp [search, IsPath]
    | cons h hs => simp [search, IsPath, ih]

/-- How often a search finds a sequence. -/
theorem count_search [DecidableEq H] (hops : L → S → List H) (l : L) (ls : List L) (s : S) (h : H)
    (hs : List H) :
    (search next hops (l :: ls) s).count (h :: hs) =
      (hops l s).count h * (search next hops ls (next l s h)).count hs := by
  have hinj : Function.Injective (fun hs : List H => h :: hs) := fun _ _ e => List.tail_eq_of_cons_eq e
  have hstep : ∀ h', ((search next hops ls (next l s h')).map (h' :: ·)).count (h :: hs) =
      if h' = h then (search next hops ls (next l s h)).count hs else 0 := by
    intro h'
    by_cases heq : h' = h
    · subst heq
      rw [if_pos rfl, List.count_map_of_injective _ _ hinj]
    · rw [if_neg heq, List.count_eq_zero]
      intro hmem
      obtain ⟨hs', -, hcons⟩ := List.mem_map.mp hmem
      exact heq (List.head_eq_of_cons_eq hcons)
  rw [search, List.count_flatMap]
  have hcomp : (List.count (h :: hs) ∘ fun h' => (search next hops ls (next l s h')).map (h' :: ·)) =
      fun h' => if h' = h then (search next hops ls (next l s h)).count hs else 0 := funext hstep
  rw [hcomp]
  induction hops l s with
  | nil => simp
  | cons h' hops' ih =>
    rw [List.map_cons, List.sum_cons, ih, List.count_cons]
    by_cases heq : h' = h
    · simp [heq, Nat.add_mul, Nat.add_comm]
    · simp [heq]

/-- A search finds each path once exactly when no hop on a path is listed twice. -/
theorem nodup_search [DecidableEq H] {hops : L → S → List H} {ls : List L} {s : S} :
    (search next hops ls s).Nodup ↔ ∀ hs, IsPath next (fun l s h => h ∈ hops l s) ls s hs →
      IsPath next (fun l s h => (hops l s).count h = 1) ls s hs := by
  induction ls generalizing s with
  | nil =>
    have hnodup : (search next hops [] s).Nodup := by simp [search]
    refine iff_of_true hnodup fun hs hpath => ?_
    cases hs <;> exact hpath
  | cons l ls ih =>
    rw [List.nodup_iff_count_eq_one]
    constructor
    · intro honce hs hpath
      cases hs with
      | nil => exact hpath
      | cons h hs =>
        have hcount := honce (h :: hs) (mem_search.mpr hpath)
        rw [count_search, mul_eq_one] at hcount
        refine ⟨hcount.1, ih.mp ?_ hs hpath.2⟩
        refine List.nodup_iff_count_eq_one.mpr fun hs' hmem => ?_
        have hcount' := honce (h :: hs') (mem_search.mpr ⟨hpath.1, mem_search.mp hmem⟩)
        rw [count_search, mul_eq_one] at hcount'
        exact hcount'.2
    · intro honce hs hmem
      have hpath := mem_search.mp hmem
      cases hs with
      | nil => exact hpath.elim
      | cons h hs =>
        rw [count_search, (honce (h :: hs) hpath).1, Nat.one_mul]
        refine List.nodup_iff_count_eq_one.mp (ih.mpr fun hs' hpath' => ?_) hs
          (mem_search.mpr hpath.2)
        exact (honce (h :: hs') ⟨hpath.1, hpath'⟩).2

end LayeredSearch
