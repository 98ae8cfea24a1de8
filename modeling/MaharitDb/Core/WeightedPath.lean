import MaharitDb.Lib.BestFirst
import MaharitDb.Core.AllPaths

/-!
# Weighted paths

What `Dijkstra` and `AStar` of `maharit-core/src/traversal.rs` share: the path they return, the way they read it off the
edges noted at the nodes, and what it means that the path is the best one.  The weights are exact numbers here.
-/

namespace Maharit

open Walks BestFirst

/-- `WeightedPath`. -/
structure WeightedPath (W : Type) where
  nodes : List NodeId
  edges : List EdgeId
  totalWeight : W
deriving DecidableEq

/-- One turn of the loop of `reconstruct_path`: the current node, and the nodes and edges passed on the way back. -/
def reconstructStep (previous : NodeId → Option (NodeId × EdgeId)) (start : NodeId)
    (s : NodeId × List NodeId × List EdgeId) : (NodeId × List NodeId × List EdgeId) ⊕ (List NodeId × List EdgeId) :=
  let (current, nodes, edges) := s
  if current = start then .inr (nodes.reverse, edges.reverse)
  else
    match previous current with
    | some (prevNode, edgeId) => .inl (prevNode, nodes ++ [prevNode], edges ++ [edgeId])
    | none => .inr (nodes.reverse, edges.reverse)

/-- `reconstruct_path`. -/
def reconstructPath {W : Type} (previous : NodeId → Option (NodeId × EdgeId)) (start stop : NodeId) (totalWeight : W)
    (fuel : ℕ) : Option (WeightedPath W) :=
  (Loop.run (reconstructStep previous start) fuel (stop, [stop], [])).map fun r => ⟨r.1, r.2, totalWeight⟩

/-- Whether a number is below a weight, where `none` is infinite. -/
def isBelow {W : Type} [LinearOrder W] (x : W) : Option W → Bool
  | none => true
  | some d => decide (x < d)

/-- A number below a weight is below it when it is finite. -/
lemma isBelow_eq_true {W : Type} [LinearOrder W] {x : W} {d : Option W} (h : isBelow x d = true) :
    ∀ d', d = some d' → x < d' := by
  rintro d' rfl
  exact of_decide_eq_true h

/-- A weight that a number is not below is finite. -/
lemma isBelow_eq_false {W : Type} [LinearOrder W] {x : W} {d : Option W} (h : isBelow x d = false) :
    ∃ d' ≤ x, d = some d' := by
  cases d with
  | none => cases h
  | some d' => exact ⟨d', not_lt.mp (of_decide_eq_false h), rfl⟩

namespace Graph

variable {W : Type}

/-- The graph as the weighted searches see it. -/
def arcs (g : Graph) (weightFn : Edge → W) : Arcs NodeId Edge EdgeId W where
  out := g.getOutgoingEdges
  target := Edge.toNode
  name := Edge.id
  weight := weightFn

variable {g : Graph} {weightFn : Edge → W}

lemma Adjacent.walksTo_arcs (h : g.Adjacent) (weightFn : Edge → W) {u v : NodeId} {nodes : List NodeId} {es : List Edge} :
    WalksTo g.EdgeLink u v nodes es ↔ nodes = u :: es.map Edge.toNode ∧ (g.arcs weightFn).Walk u es v := by
  refine Arcs.walksTo_iff (A := g.arcs weightFn) fun u e v => and_congr_right fun he => ?_
  exact and_iff_right ((h.mem_outgoing u e).mp he).2

/-- There is a path exactly when there is a list of edges. -/
lemma Adjacent.exists_walksTo_iff (h : g.Adjacent) (weightFn : Edge → W) {u v : NodeId} :
    (∃ nodes es, WalksTo g.EdgeLink u v nodes es) ↔ ∃ es, (g.arcs weightFn).Walk u es v := by
  constructor
  · rintro ⟨nodes, es, hwalk⟩
    exact ⟨es, ((h.walksTo_arcs weightFn).mp hwalk).2⟩
  · rintro ⟨es, hwalk⟩
    exact ⟨_, es, (h.walksTo_arcs weightFn).mpr ⟨rfl, hwalk⟩⟩

/-- A walk stays where it is or leads to a live node. -/
lemma Adjacent.walk_cases (h : g.Adjacent) {u v : NodeId} {es : List Edge} (hwalk : (g.arcs weightFn).Walk u es v) :
    v = u ∨ v ∈ g.nodeIds := by
  rcases es.eq_nil_or_concat with rfl | ⟨es, e, rfl⟩
  · exact .inl (Eq.symm hwalk)
  · rw [List.concat_eq_append] at hwalk
    obtain ⟨x, -, he, rfl⟩ := Arcs.walk_concat.mp hwalk
    exact .inr (h.toNode_mem e ((h.mem_outgoing x e).mp he).1)

/-- A walk from a live node leads to a live node. -/
lemma Adjacent.walk_mem (h : g.Adjacent) {u v : NodeId} {es : List Edge} (hwalk : (g.arcs weightFn).Walk u es v)
    (hu : u ∈ g.nodeIds) : v ∈ g.nodeIds :=
  (h.walk_cases hwalk).elim (fun heq => heq ▸ hu) id

variable [AddCommGroup W]

/-- The way back over the noted edges. -/
lemma run_reconstructStep {previous : NodeId → Option (NodeId × EdgeId)} {dist : NodeId → Option W}
    {start v : NodeId} {es : List Edge} (h : (g.arcs weightFn).Trace dist previous start v es) (nodes : List NodeId)
    (edges : List EdgeId) :
    ∃ before, start :: es.map Edge.toNode = before ++ [v] ∧
      Loop.run (reconstructStep previous start) (es.length + 1) (v, nodes, edges) =
        some (before ++ nodes.reverse, es.map Edge.id ++ edges.reverse) := by
  induction h generalizing nodes edges with
  | start => exact ⟨[], rfl, Loop.run_inr (by simp [reconstructStep]) 0⟩
  | @step u v e es hne _ htarget hprev _ _ ih =>
    obtain ⟨before, hbefore, hrun⟩ := ih (nodes ++ [u]) (edges ++ [e.id])
    refine ⟨before ++ [u], ?_, ?_⟩
    · rw [List.map_append, ← List.cons_append, hbefore]
      exact congrArg (before ++ [u] ++ [·]) htarget
    · have hstep : reconstructStep previous start (v, nodes, edges) = .inl (u, nodes ++ [u], edges ++ [e.id]) := by
        simp only [reconstructStep, if_neg hne, hprev]
        rfl
      rw [List.length_append, List.length_singleton, Loop.run_inl hstep, hrun]
      simp

/-- What is read off the noted edges of a node that carries its least weight. -/
lemma Adjacent.reconstruct (h : g.Adjacent) {previous : NodeId → Option (NodeId × EdgeId)} {dist : NodeId → Option W}
    {start stop : NodeId} {es : List Edge} (htrace : (g.arcs weightFn).Trace dist previous start stop es) :
    ∃ path : WeightedPath W, WalksTo g.EdgeLink start stop path.nodes es ∧ path.edges = es.map Edge.id ∧
      path.totalWeight = (g.arcs weightFn).cost es ∧
      WithFuel (fun fuel => reconstructPath previous start stop ((g.arcs weightFn).cost es) fuel) (· = some path) := by
  obtain ⟨before, hbefore, hrun⟩ := run_reconstructStep htrace [stop] []
  have hnodes : before ++ [stop].reverse = start :: es.map Edge.toNode := hbefore.symm
  rw [hnodes, List.reverse_nil, List.append_nil] at hrun
  refine ⟨⟨start :: es.map Edge.toNode, es.map Edge.id, (g.arcs weightFn).cost es⟩,
    (h.walksTo_arcs weightFn).mpr ⟨rfl, htrace.walk⟩, rfl, rfl, ?_⟩
  exact WithFuel.map (f := Option.map fun r : List NodeId × List EdgeId =>
    (⟨r.1, r.2, (g.arcs weightFn).cost es⟩ : WeightedPath W))
    (R := (· = some ⟨start :: es.map Edge.toNode, es.map Edge.id, (g.arcs weightFn).cost es⟩))
    (Loop.withFuel_of_run hrun) fun r hr => by rw [hr, Option.map_some]

/-! ## The best path -/

variable [LinearOrder W]

/-- A path of the graph with its weight; no path between the two nodes weighs less. -/
structure IsLeastPath (g : Graph) (weightFn : Edge → W) (start stop : NodeId) (path : WeightedPath W) : Prop where
  walk : ∃ es, WalksTo g.EdgeLink start stop path.nodes es ∧ path.edges = es.map Edge.id ∧
    path.totalWeight = (es.map weightFn).sum
  least : ∀ nodes es, WalksTo g.EdgeLink start stop nodes es → path.totalWeight ≤ (es.map weightFn).sum

/-- A result is a path exactly when there is one, and then it is one of least weight. -/
def FindsLeastPath (g : Graph) (weightFn : Edge → W) (start stop : NodeId) (result : Option (WeightedPath W)) : Prop :=
  (result.isSome ↔ ∃ nodes es, WalksTo g.EdgeLink start stop nodes es) ∧
    ∀ path, result = some path → g.IsLeastPath weightFn start stop path

lemma Adjacent.nonneg (h : g.Adjacent) (hweight : ∀ e ∈ g.allEdges, 0 ≤ weightFn e) : (g.arcs weightFn).Nonneg :=
  fun u e he => hweight e ((h.mem_outgoing u e).mp he).1

/-- The estimate that is zero everywhere. -/
lemma consistent_zero (hA : (g.arcs weightFn).Nonneg) : Consistent (g.arcs weightFn) fun _ => 0 := by
  intro u e he
  rw [add_zero]
  exact hA u e he

end Graph

end Maharit
