import Mathlib.Logic.Relation
import Mathlib.Tactic

/-!
# Depth-first search

A depth-first search with a stack and a set of visited vertices, in a graph of which only finitely
many vertices have successors.  `search_iff` says that it finds exactly the vertices that can be
reached from the stack it starts with.
-/

/-- A graph given by its successor lists, with a list of the vertices that have successors. -/
structure FiniteGraph (V : Type*) where
  succ : V → List V
  nodes : List V
  complete : ∀ v, v ∉ nodes → succ v = []

namespace FiniteGraph

variable {V : Type*}

/-- There is an edge from `u` to `v`. -/
def Edge (G : FiniteGraph V) (u v : V) : Prop := v ∈ G.succ u

variable [DecidableEq V]

/-- Push the vertices that are not visited yet, one after the other. -/
def push (visited stack : List V) : List V → List V
  | [] => stack
  | v :: vs => if v ∈ visited then push visited stack vs else push visited (v :: stack) vs

lemma length_push_le (visited stack vs : List V) :
    (push visited stack vs).length ≤ stack.length + vs.length := by
  induction vs generalizing stack with
  | nil => simp [push]
  | cons v vs ih =>
    have hskip := ih stack
    have hpush := ih (v :: stack)
    rw [List.length_cons] at hpush ⊢
    unfold push
    split <;> omega

@[simp] lemma mem_push {visited stack vs : List V} {v : V} :
    v ∈ push visited stack vs ↔ v ∈ stack ∨ v ∈ vs ∧ v ∉ visited := by
  induction vs generalizing stack with
  | nil => simp [push]
  | cons w vs ih =>
    unfold push
    split
    · next hw =>
      rw [ih, List.mem_cons]
      constructor
      · tauto
      · rintro (h | ⟨rfl | h, hv⟩)
        · exact .inl h
        · exact absurd hw hv
        · exact .inr ⟨h, hv⟩
    · next hw =>
      rw [ih, List.mem_cons, List.mem_cons]
      constructor
      · rintro ((rfl | h) | h)
        · exact .inr ⟨.inl rfl, hw⟩
        · exact .inl h
        · exact .inr ⟨.inr h.1, h.2⟩
      · tauto

/-- How many successors the vertices that are not visited yet have together. -/
def unexplored (G : FiniteGraph V) (visited : List V) : ℕ :=
  ((G.nodes.filter (· ∉ visited)).map fun v => (G.succ v).length).sum

/-- Visiting a vertex takes its successors off the count. -/
lemma unexplored_cons_add_le (G : FiniteGraph V) {visited : List V} {v : V} (hv : v ∉ visited) :
    G.unexplored (v :: visited) + (G.succ v).length ≤ G.unexplored visited := by
  have hcount : ∀ nodes : List V,
      ((nodes.filter (· ∉ v :: visited)).map fun w => (G.succ w).length).sum +
        (if v ∈ nodes then (G.succ v).length else 0) ≤
      ((nodes.filter (· ∉ visited)).map fun w => (G.succ w).length).sum := by
    intro nodes
    induction nodes with
    | nil => simp
    | cons w nodes ih =>
      by_cases hwv : w = v
      · subst hwv
        simp only [List.mem_cons, true_or, if_true, decide_false, Bool.false_eq_true,
          not_false_eq_true, List.filter_cons_of_neg, decide_not, hv, decide_true, Bool.not_false,
          List.filter_cons_of_pos, List.map_cons, List.sum_cons, Bool.not_true] at ih ⊢
        split at ih <;> omega
      · have hne : ¬ v = w := fun h => hwv h.symm
        by_cases hw : w ∈ visited
        · simpa [hwv, hne, hw] using ih
        · simp only [List.mem_cons, hwv, hw, hne, or_self, not_false_eq_true, decide_true,
            List.filter_cons_of_pos, List.map_cons, List.sum_cons, false_or] at ih ⊢
          omega
  have hall := hcount G.nodes
  by_cases hmem : v ∈ G.nodes
  · simpa [unexplored, hmem] using hall
  · simpa [unexplored, hmem, G.complete v hmem] using hall

/-- Is `target` found from the vertices on the stack, without entering a visited one again? -/
def search (G : FiniteGraph V) (target : V) (stack visited : List V) : Bool :=
  match stack with
  | [] => false
  | current :: stack =>
      if current = target then true
      else if current ∈ visited then G.search target stack visited
      else G.search target (push (current :: visited) stack (G.succ current)) (current :: visited)
termination_by stack.length + G.unexplored visited
decreasing_by
  · simp
  · next hvisited =>
    have hpush := length_push_le (current :: visited) stack (G.succ current)
    have hcount := G.unexplored_cons_add_le hvisited
    simp only [List.length_cons]
    omega

/-- What the search finds can be reached. -/
theorem reachable_of_search (G : FiniteGraph V) {target : V} {stack visited : List V}
    (h : G.search target stack visited = true) :
    ∃ v ∈ stack, Relation.ReflTransGen G.Edge v target := by
  induction stack, visited using FiniteGraph.search.induct G target with
  | case1 visited => simp [search] at h
  | case2 visited stack => exact ⟨target, List.mem_cons_self, .refl⟩
  | case3 visited current stack htarget hvisited ih =>
    rw [search, if_neg htarget, if_pos hvisited] at h
    obtain ⟨v, hv, hpath⟩ := ih h
    exact ⟨v, List.mem_cons_of_mem _ hv, hpath⟩
  | case4 visited current stack htarget hvisited ih =>
    rw [search, if_neg htarget, if_neg hvisited] at h
    obtain ⟨v, hv, hpath⟩ := ih h
    rcases mem_push.mp hv with hstack | ⟨hsucc, -⟩
    · exact ⟨v, List.mem_cons_of_mem _ hstack, hpath⟩
    · exact ⟨current, List.mem_cons_self, .head hsucc hpath⟩

/-- When nothing is found, the stack and the visited vertices have no path to the target.  The
invariant: a visited vertex is not the target, and its successors are visited or on the stack. -/
theorem not_reachable_of_search (G : FiniteGraph V) {target : V} {stack visited : List V}
    (h : G.search target stack visited = false)
    (hinv : ∀ v ∈ visited, v ≠ target ∧ ∀ w, G.Edge v w → w ∈ visited ∨ w ∈ stack) :
    ∀ v, v ∈ visited ∨ v ∈ stack → ¬ Relation.ReflTransGen G.Edge v target := by
  induction stack, visited using FiniteGraph.search.induct G target with
  | case1 visited =>
    intro v hv hpath
    have hvisited : v ∈ visited := by simpa using hv
    -- the visited vertices are closed under successors
    induction hpath using Relation.ReflTransGen.head_induction_on with
    | refl => exact (hinv target hvisited).1 rfl
    | head hedge _ ih =>
      have hnext := (hinv _ hvisited).2 _ hedge
      exact ih hnext (by simpa using hnext)
  | case2 visited stack =>
    rw [search, if_pos rfl] at h
    cases h
  | case3 visited current stack htarget hvisited ih =>
    rw [search, if_neg htarget, if_pos hvisited] at h
    have hdrop : ∀ w, w ∈ visited ∨ w ∈ current :: stack → w ∈ visited ∨ w ∈ stack := by
      intro w hw
      rcases hw with hw | hw
      · exact .inl hw
      · rcases List.mem_cons.mp hw with rfl | hw
        · exact .inl hvisited
        · exact .inr hw
    intro v hv
    exact ih h (fun u hu => ⟨(hinv u hu).1, fun w hw => hdrop w ((hinv u hu).2 w hw)⟩) v (hdrop v hv)
  | case4 visited current stack htarget hvisited ih =>
    rw [search, if_neg htarget, if_neg hvisited] at h
    have hmove : ∀ w, w ∈ visited ∨ w ∈ current :: stack →
        w ∈ current :: visited ∨ w ∈ push (current :: visited) stack (G.succ current) := by
      intro w hw
      rcases hw with hw | hw
      · exact .inl (List.mem_cons_of_mem _ hw)
      · rcases List.mem_cons.mp hw with rfl | hw
        · exact .inl List.mem_cons_self
        · exact .inr (mem_push.mpr (.inl hw))
    intro v hv
    refine ih h (fun u hu => ?_) v (hmove v hv)
    rcases List.mem_cons.mp hu with rfl | hu
    · refine ⟨htarget, fun w hw => ?_⟩
      by_cases hmem : w ∈ u :: visited
      · exact .inl hmem
      · exact .inr (mem_push.mpr (.inr ⟨hw, hmem⟩))
    · exact ⟨(hinv u hu).1, fun w hw => hmove w ((hinv u hu).2 w hw)⟩

/-- The search decides whether the target can be reached from the stack. -/
theorem search_iff (G : FiniteGraph V) (target : V) (stack : List V) :
    G.search target stack [] = true ↔ ∃ v ∈ stack, Relation.ReflTransGen G.Edge v target := by
  constructor
  · exact G.reachable_of_search
  · rintro ⟨v, hv, hpath⟩
    by_contra hsearch
    have hfalse : G.search target stack [] = false := by simpa using hsearch
    exact G.not_reachable_of_search hfalse (by simp) v (.inr hv) hpath

end FiniteGraph
