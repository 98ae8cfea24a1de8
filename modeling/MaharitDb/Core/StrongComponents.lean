import MaharitDb.Lib.StrongParts
import MaharitDb.Lib.Tally
import MaharitDb.Core.Adjacency

/-!
# Strongly connected components of the graph

`strongly_connected_components` of `maharit-core/src/algorithms.rs`: a depth-first search along the edges that notes the
order in which it leaves the nodes, and a second one against the edges, from the nodes in the reverse of that order.
-/

namespace Maharit

namespace Graph

open FinishOrder RecursiveSearch

/-- The targets of the edges that leave a node, with repetitions. -/
def successors (g : Graph) (u : NodeId) : List NodeId := (g.getOutgoingEdges u).map Edge.toNode

/-- `dfs_finish` from every node: the order in which the nodes are left. -/
def finishOrder (g : Graph) (fuel : ℕ) : Option (List NodeId) :=
  (visitAll finishing g.successors fuel g.nodeIds (∅, [])).map Prod.snd

/-- The adjacency of the reversed graph. -/
def reverseAdj (g : Graph) : HashMap NodeId (List NodeId) :=
  g.allEdges.foldl (fun adj edge => HashMap.modify adj edge.toNode (· ++ [edge.fromNode]))
    (HashMap.tabulate g.nodeIds fun _ => [])

/-- The nodes that `dfs_collect` goes on to. -/
def reverseNeighbors (adj : HashMap NodeId (List NodeId)) (u : NodeId) : List NodeId := (adj.lookup u).getD []

/-- `strongly_connected_components`. -/
def stronglyConnectedComponents (g : Graph) (fuel : ℕ) : Option (List (HashSet NodeId)) :=
  g.finishOrder fuel >>= fun finishOrder =>
    (finishOrder.reverse.foldlM (collectPart (reverseNeighbors g.reverseAdj) fuel) (∅, [])).map Prod.snd

variable {g : Graph}

lemma Adjacent.mem_successors (h : g.Adjacent) {u v : NodeId} : v ∈ g.successors u ↔ g.Links u v := by
  rw [successors, List.mem_map, h.links_iff]

lemma Adjacent.reach_iff (h : g.Adjacent) (u v : NodeId) : Reach g.successors u v ↔ g.Reaches u v := by
  have hsame : (fun u v => v ∈ g.successors u) = g.Links := by
    funext u v
    exact propext h.mem_successors
  rw [Reach, Reaches, hsame]

/-- The reversed graph has the sources of the edges that enter a node. -/
lemma Adjacent.mem_reverseAdj (h : g.Adjacent) {u v : NodeId} :
    u ∈ reverseNeighbors g.reverseAdj v ↔ g.Links u v := by
  have hfold : ∀ (edges : List Edge) (adj : HashMap NodeId (List NodeId)), v ∈ adj →
      (u ∈ reverseNeighbors (edges.foldl (fun adj edge => HashMap.modify adj edge.toNode (· ++ [edge.fromNode])) adj) v ↔
        u ∈ reverseNeighbors adj v ∨ ∃ e ∈ edges, e.fromNode = u ∧ e.toNode = v) := by
    intro edges
    induction edges with
    | nil => simp
    | cons edge edges ih =>
      intro adj hv
      rw [List.foldl_cons, ih _ ((HashMap.mem_modify ..).mpr hv)]
      have hone : u ∈ reverseNeighbors (HashMap.modify adj edge.toNode (· ++ [edge.fromNode])) v ↔
          u ∈ reverseNeighbors adj v ∨ edge.fromNode = u ∧ edge.toNode = v := by
        obtain ⟨us, hus⟩ := (HashMap.mem_iff_exists adj v).mp hv
        rw [reverseNeighbors, reverseNeighbors, HashMap.lookup_modify, hus]
        by_cases heq : v = edge.toNode
        · simp [heq, eq_comm]
        · simp [heq, Ne.symm heq]
      rw [hone, or_assoc]
      refine or_congr_right ?_
      simp only [List.mem_cons, exists_eq_or_imp]
  by_cases hv : v ∈ g.nodeIds
  · rw [reverseAdj, hfold _ _ ((HashMap.mem_tabulate ..).mpr hv)]
    have hempty : u ∉ reverseNeighbors (HashMap.tabulate g.nodeIds fun _ => []) v := by
      rw [reverseNeighbors, HashMap.lookup_tabulate, if_pos hv]
      simp
    exact or_iff_right hempty
  · have hnone : reverseNeighbors g.reverseAdj v = [] := by
      have hmem : v ∉ g.reverseAdj := by
        have hkeys : ∀ (edges : List Edge) (adj : HashMap NodeId (List NodeId)),
            v ∈ edges.foldl (fun adj edge => HashMap.modify adj edge.toNode (· ++ [edge.fromNode])) adj ↔ v ∈ adj := by
          intro edges
          induction edges with
          | nil => exact fun adj => Iff.rfl
          | cons edge edges ih => exact fun adj => (ih _).trans (HashMap.mem_modify ..)
        rw [reverseAdj, hkeys, HashMap.mem_tabulate]
        exact hv
      rw [reverseNeighbors, AList.lookup_eq_none.mpr hmem, Option.getD_none]
    rw [hnone]
    exact ⟨fun hu => absurd hu List.not_mem_nil, fun hlink => absurd (h.links_mem hlink).2 hv⟩

/-- `strongly_connected_components` divides the live nodes into the classes of nodes that are reachable from one
another. -/
theorem strong_components (g : Graph) (hg : g.Built) :
    ∃ components, WithFuel (fun fuel => g.stronglyConnectedComponents fuel) (· = some components) ∧
      IsPartition g.nodeIds (fun u v => g.Reaches u v ∧ g.Reaches v u) components := by
  have h := hg.adjacent
  obtain ⟨visited, order, hfinished, hperm, hfirst⟩ := finishOrder_withFuel h.nodup_nodeIds
    fun u w (hw : w ∈ g.successors u) => (h.links_mem (h.mem_successors.mp hw)).2
  obtain ⟨found, hparts, hsecond⟩ := collectParts_withFuel
    (fun u v => h.mem_reverseAdj.trans h.mem_successors.symm)
    (fun u w hw => (h.links_mem (h.mem_successors.mp hw)).1) hfinished hperm
  have hrelation : Mutual g.successors = fun u v => g.Reaches u v ∧ g.Reaches v u := by
    funext u v
    rw [Mutual, h.reach_iff, h.reach_iff]
  rw [hrelation] at hparts
  refine ⟨found.2, Loop.bind_withFuel (s := order) ?_ ?_, hparts⟩
  · exact WithFuel.map (f := Option.map Prod.snd) (R := (· = some order)) hfirst fun r hr => by
      rw [hr, Option.map_some]
  · exact WithFuel.map (f := Option.map Prod.snd) (R := (· = some found.2)) hsecond fun r hr => by
      rw [hr, Option.map_some]

/-- Two nodes with edges both ways, and a node that is reached from them. -/
def pairAndTail : Graph :=
  ofCalls [.createNodeWithLabels ["A"], .createNodeWithLabels ["B"], .createNodeWithLabels ["C"],
    .createEdge 0 1 "KNOWS", .createEdge 1 0 "KNOWS", .createEdge 1 2 "KNOWS"]

theorem strong_components_pairAndTail :
    ∃ components, WithFuel (fun fuel => pairAndTail.stronglyConnectedComponents fuel) (· = some components) ∧
      IsPartition pairAndTail.nodeIds (fun u v => pairAndTail.Reaches u v ∧ pairAndTail.Reaches v u) components :=
  strong_components pairAndTail (built_ofCalls _ (by decide))

end Graph

end Maharit
