import MaharitDb.Core.GraphBackend

/-!
# All shortest paths between two nodes

`all_shortest_paths` of `maharit-core/src/traversal.rs`: a search with a queue that notes for every node the nodes
before it, and the recursion that reads the paths off them.  Paths are lists of nodes here; how many edges join two
of them shows only in how often a node is noted.
-/

namespace Maharit

/-- The search between two turns of its loop. -/
structure QueueSearch where
  queue : List NodeId
  distances : HashMap NodeId ℕ
  predecessors : HashMap NodeId (List NodeId)
  /-- The distance of the end node, once it has been reached. -/
  targetDistance : Option ℕ

namespace QueueSearch

/-- One edge from the current node. -/
def alongEdge (stop current : NodeId) (newDist : ℕ) (t : QueueSearch) (e : Edge) : QueueSearch :=
  match t.distances.lookup e.toNode with
  | none =>
      { queue := t.queue ++ [e.toNode]
        distances := t.distances.insert e.toNode newDist
        predecessors := t.predecessors.insert e.toNode [current]
        targetDistance := if e.toNode = stop then some newDist else t.targetDistance }
  | some d =>
      if d = newDist then
        { t with predecessors := HashMap.modify t.predecessors e.toNode (· ++ [current]) }
      else t

variable {σ : Type} [GraphBackend σ] (g : σ)

/-- The turn of a node; nothing is done for nodes that are as far away as the end node. -/
def visit (stop current : NodeId) (t : QueueSearch) : QueueSearch :=
  let currentDist := (t.distances.lookup current).getD 0
  if t.targetDistance.any fun d => decide (d ≤ currentDist) then t
  else (GraphBackend.outgoingEdges g current).foldl (alongEdge stop current (currentDist + 1)) t

/-- The loop, with a bound on its turns. -/
def run (stop : NodeId) : ℕ → QueueSearch → Option QueueSearch
  | 0, t => if t.queue = [] then some t else none
  | fuel + 1, t =>
      match t.queue with
      | [] => some t
      | current :: rest => run stop fuel (visit g stop current { t with queue := rest })

end QueueSearch

/-- `reconstruct_all_paths`: the paths that end with the given nodes; no path is longer than the number of nodes
that have predecessors. -/
def reconstructAllPaths (predecessors : HashMap NodeId (List NodeId)) (start : NodeId) :
    ℕ → List NodeId → List (List NodeId)
  | _, [] => []
  | 0, current :: nodes => if current = start then [current :: nodes] else []
  | fuel + 1, current :: nodes =>
      if current = start then [current :: nodes]
      else ((predecessors.lookup current).getD []).flatMap fun pred =>
        reconstructAllPaths predecessors start fuel (pred :: current :: nodes)

/-- `all_shortest_paths`. -/
def allShortestPaths {σ : Type} [GraphBackend σ] (g : σ) (fuel : ℕ) (start stop : NodeId) :
    Option (List (List NodeId)) :=
  if start = stop then some [[start]]
  else
    (QueueSearch.run g stop fuel ⟨[start], AList.insert start 0 ∅, ∅, none⟩).map fun t =>
      if stop ∈ t.predecessors then
        reconstructAllPaths t.predecessors start t.predecessors.keys.length [stop]
      else []

namespace QueueSearch

variable {σ : Type} [GraphBackend σ] {g : σ}

lemma run_nil {stop : NodeId} {t : QueueSearch} (h : t.queue = []) (fuel : ℕ) : run g stop fuel t = some t := by
  cases fuel with
  | zero => rw [run, if_pos h]
  | succ fuel => rw [run, h]

lemma run_cons {stop current : NodeId} {rest : List NodeId} {t : QueueSearch} (h : t.queue = current :: rest)
    (fuel : ℕ) : run g stop (fuel + 1) t = run g stop fuel (visit g stop current { t with queue := rest }) := by
  rw [run, h]

/-- Once the end node is reached the queue of nodes that are as far away is emptied. -/
lemma run_drain {stop : NodeId} {d : ℕ} {t : QueueSearch} (htarget : t.targetDistance = some d)
    (hfar : ∀ u ∈ t.queue, ∃ d', t.distances.lookup u = some d' ∧ d ≤ d') (fuel : ℕ) :
    run g stop (fuel + t.queue.length) t = some { t with queue := [] } := by
  obtain ⟨queue, distances, predecessors, target⟩ := t
  simp only at htarget hfar ⊢
  induction queue generalizing fuel with
  | nil => exact run_nil rfl _
  | cons current rest ih =>
    obtain ⟨d', hd', hle⟩ := hfar current List.mem_cons_self
    have hskip : visit g stop current ⟨rest, distances, predecessors, target⟩ =
        ⟨rest, distances, predecessors, target⟩ := by
      rw [visit]
      simp only [hd', htarget, Option.getD_some, Option.any_some]
      rw [if_pos (decide_eq_true hle)]
    rw [List.length_cons, ← Nat.add_assoc, run_cons rfl, hskip]
    exact ih fuel fun u hu => hfar u (List.mem_cons_of_mem _ hu)

end QueueSearch

end Maharit
