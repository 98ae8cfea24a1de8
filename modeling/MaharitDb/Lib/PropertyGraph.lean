import Mathlib.Data.Set.Basic
import Mathlib.Logic.Function.Basic
import Mathlib.Tactic

/-!
# Labelled property graphs

The abstract content of a property graph: which nodes and edges exist, the label set and the
property assignment of each node, and the label, the endpoints and the property assignment of each
edge.  Nothing here speaks about adjacency lists, label indexes or id counters; a store refines this
model by an abstraction function.

Every update has an inverse, and the second half of the file states it: these are the laws a
transaction log relies on.
-/

/-- The content of a node: its labels and its properties. -/
@[ext] structure NodeData (L K V : Type*) where
  /-- The labels the node carries. -/
  labels : Set L
  /-- The value stored under each property key. -/
  props : K → Option V

/-- The content of an edge: its label, its endpoints and its properties. -/
@[ext] structure EdgeData (N L K V : Type*) where
  /-- The relationship type. -/
  label : L
  /-- The node the edge leaves. -/
  src : N
  /-- The node the edge enters. -/
  dst : N
  /-- The value stored under each property key. -/
  props : K → Option V

/-- A labelled property graph over node ids `N` and edge ids `E`. -/
@[ext] structure PropertyGraph (N E L K V : Type*) where
  /-- The live nodes. -/
  nodes : N → Option (NodeData L K V)
  /-- The live edges. -/
  edges : E → Option (EdgeData N L K V)

set_option linter.unusedSectionVars false

namespace PropertyGraph

variable {N E L K V : Type*} [DecidableEq N] [DecidableEq E] [DecidableEq K]

/-- Both endpoints of every live edge are live. -/
def Closed (G : PropertyGraph N E L K V) : Prop :=
  ∀ e d, G.edges e = some d → (G.nodes d.src).isSome ∧ (G.nodes d.dst).isSome

/-- Put the node content `d` under the id `n`. -/
def putNode (G : PropertyGraph N E L K V) (n : N) (d : NodeData L K V) :
    PropertyGraph N E L K V :=
  { G with nodes := Function.update G.nodes n (some d) }

/-- Put the edge content `d` under the id `e`. -/
def putEdge (G : PropertyGraph N E L K V) (e : E) (d : EdgeData N L K V) :
    PropertyGraph N E L K V :=
  { G with edges := Function.update G.edges e (some d) }

/-- Remove an edge. -/
def deleteEdge (G : PropertyGraph N E L K V) (e : E) : PropertyGraph N E L K V :=
  { G with edges := Function.update G.edges e none }

/-- Remove a node together with its incident edges. -/
def deleteNode (G : PropertyGraph N E L K V) (n : N) : PropertyGraph N E L K V where
  nodes := Function.update G.nodes n none
  edges := fun e => (G.edges e).filter fun d => d.src ≠ n ∧ d.dst ≠ n

/-- Change the content of a node, if it is live. -/
def modifyNode (G : PropertyGraph N E L K V) (n : N) (f : NodeData L K V → NodeData L K V) :
    PropertyGraph N E L K V :=
  { G with nodes := Function.update G.nodes n ((G.nodes n).map f) }

/-- Change the content of an edge, if it is live. -/
def modifyEdge (G : PropertyGraph N E L K V) (e : E)
    (f : EdgeData N L K V → EdgeData N L K V) : PropertyGraph N E L K V :=
  { G with edges := Function.update G.edges e ((G.edges e).map f) }

/-- Assign or clear a property of a node. -/
def setNodeProp (G : PropertyGraph N E L K V) (n : N) (k : K) (v : Option V) :
    PropertyGraph N E L K V :=
  G.modifyNode n fun d => { d with props := Function.update d.props k v }

/-- Assign or clear a property of an edge. -/
def setEdgeProp (G : PropertyGraph N E L K V) (e : E) (k : K) (v : Option V) :
    PropertyGraph N E L K V :=
  G.modifyEdge e fun d => { d with props := Function.update d.props k v }

/-- Attach a label to a node. -/
def addLabel (G : PropertyGraph N E L K V) (n : N) (l : L) : PropertyGraph N E L K V :=
  G.modifyNode n fun d => { d with labels := insert l d.labels }

/-- Detach a label from a node. -/
def removeLabel (G : PropertyGraph N E L K V) (n : N) (l : L) : PropertyGraph N E L K V :=
  G.modifyNode n fun d => { d with labels := d.labels \ {l} }

/-- The value a node has under a property key. -/
def nodeProp (G : PropertyGraph N E L K V) (n : N) (k : K) : Option V :=
  (G.nodes n).bind fun d => d.props k

/-- The value an edge has under a property key. -/
def edgeProp (G : PropertyGraph N E L K V) (e : E) (k : K) : Option V :=
  (G.edges e).bind fun d => d.props k

/-- Put back every edge of a list of edge contents, the first one first. -/
def putEdges (G : PropertyGraph N E L K V) (es : List (E × EdgeData N L K V)) :
    PropertyGraph N E L K V :=
  es.foldl (fun G p => G.putEdge p.1 p.2) G

/-! ## Inverses -/

/-- A change that leaves the node as it is changes nothing. -/
lemma modifyNode_eq_self (G : PropertyGraph N E L K V) (n : N)
    (f : NodeData L K V → NodeData L K V) (h : ∀ d, G.nodes n = some d → f d = d) :
    G.modifyNode n f = G := by
  have hmap : (G.nodes n).map f = G.nodes n := by
    cases hd : G.nodes n with
    | none => rfl
    | some d => simp [h d hd]
  simp [modifyNode, hmap]

/-- A change that leaves the edge as it is changes nothing. -/
lemma modifyEdge_eq_self (G : PropertyGraph N E L K V) (e : E)
    (f : EdgeData N L K V → EdgeData N L K V) (h : ∀ d, G.edges e = some d → f d = d) :
    G.modifyEdge e f = G := by
  have hmap : (G.edges e).map f = G.edges e := by
    cases hd : G.edges e with
    | none => rfl
    | some d => simp [h d hd]
  simp [modifyEdge, hmap]

/-- Clearing a property that is absent changes nothing. -/
lemma setNodeProp_none_eq_self (G : PropertyGraph N E L K V) (n : N) (k : K)
    (h : G.nodeProp n k = none) : G.setNodeProp n k none = G := by
  refine modifyNode_eq_self G n _ fun d hd => ?_
  have hk : d.props k = none := by simpa [nodeProp, hd] using h
  simp [← hk]

/-- Clearing a property that is absent changes nothing. -/
lemma setEdgeProp_none_eq_self (G : PropertyGraph N E L K V) (e : E) (k : K)
    (h : G.edgeProp e k = none) : G.setEdgeProp e k none = G := by
  refine modifyEdge_eq_self G e _ fun d hd => ?_
  have hk : d.props k = none := by simpa [edgeProp, hd] using h
  simp [← hk]

/-- Two changes of the same node are one change. -/
lemma modifyNode_modifyNode (G : PropertyGraph N E L K V) (n : N)
    (f g : NodeData L K V → NodeData L K V) :
    (G.modifyNode n f).modifyNode n g = G.modifyNode n (g ∘ f) := by
  simp [modifyNode]

/-- Two changes of the same edge are one change. -/
lemma modifyEdge_modifyEdge (G : PropertyGraph N E L K V) (e : E)
    (f g : EdgeData N L K V → EdgeData N L K V) :
    (G.modifyEdge e f).modifyEdge e g = G.modifyEdge e (g ∘ f) := by
  simp [modifyEdge]

/-- Assigning properties to a node just put is putting the node with these properties. -/
lemma foldl_setNodeProp_putNode (G : PropertyGraph N E L K V) (n : N) (labels : Set L)
    (f : K → Option V) (entries : List (Sigma fun _ : K => V)) :
    entries.foldl (fun G p => G.setNodeProp n p.1 (some p.2))
        (G.putNode n ⟨labels, f⟩) =
      G.putNode n ⟨labels, entries.foldl
        (fun (f : K → Option V) p => Function.update f p.1 (some p.2)) f⟩ := by
  induction entries generalizing f with
  | nil => rfl
  | cons p entries ih =>
    have hstep : (G.putNode n ⟨labels, f⟩).setNodeProp n p.1 (some p.2) =
        G.putNode n ⟨labels, Function.update f p.1 (some p.2)⟩ := by
      simp [setNodeProp, modifyNode, putNode]
    rw [List.foldl_cons, hstep, ih, List.foldl_cons]

/-- Assigning properties to an edge just put is putting the edge with these properties. -/
lemma foldl_setEdgeProp_putEdge (G : PropertyGraph N E L K V) (e : E) (l : L)
    (src dst : N) (f : K → Option V) (entries : List (Sigma fun _ : K => V)) :
    entries.foldl (fun G p => G.setEdgeProp e p.1 (some p.2))
        (G.putEdge e ⟨l, src, dst, f⟩) =
      G.putEdge e ⟨l, src, dst, entries.foldl
        (fun (f : K → Option V) p => Function.update f p.1 (some p.2)) f⟩ := by
  induction entries generalizing f with
  | nil => rfl
  | cons p entries ih =>
    have hstep : (G.putEdge e ⟨l, src, dst, f⟩).setEdgeProp e p.1 (some p.2) =
        G.putEdge e ⟨l, src, dst, Function.update f p.1 (some p.2)⟩ := by
      simp [setEdgeProp, modifyEdge, putEdge]
    rw [List.foldl_cons, hstep, ih, List.foldl_cons]

/-- Removing a node that was just put under an unused id restores the graph. -/
theorem deleteNode_putNode (G : PropertyGraph N E L K V) (hG : G.Closed) (n : N)
    (d : NodeData L K V) (hn : G.nodes n = none) : (G.putNode n d).deleteNode n = G := by
  ext1
  · simp [putNode, deleteNode, ← hn]
  · funext e
    simp only [putNode, deleteNode]
    cases he : G.edges e with
    | none => rfl
    | some c =>
      have hc := hG e c he
      have hsrc : c.src ≠ n := by
        rintro rfl
        simp [hn] at hc
      have hdst : c.dst ≠ n := by
        rintro rfl
        simp [hn] at hc
      simp [Option.filter, hsrc, hdst]

/-- Removing an edge that was just put under an unused id restores the graph. -/
theorem deleteEdge_putEdge (G : PropertyGraph N E L K V) (e : E) (d : EdgeData N L K V)
    (he : G.edges e = none) : (G.putEdge e d).deleteEdge e = G := by
  ext1
  · rfl
  · simp [putEdge, deleteEdge, ← he]

/-- Putting a removed edge back restores the graph. -/
theorem putEdge_deleteEdge (G : PropertyGraph N E L K V) (e : E) (d : EdgeData N L K V)
    (he : G.edges e = some d) : (G.deleteEdge e).putEdge e d = G := by
  ext1
  · rfl
  · simp [putEdge, deleteEdge, ← he]

/-- Assigning the former value of a node property undoes an assignment. -/
theorem setNodeProp_setNodeProp (G : PropertyGraph N E L K V) (n : N) (k : K) (v : Option V) :
    (G.setNodeProp n k v).setNodeProp n k (G.nodeProp n k) = G := by
  unfold setNodeProp
  rw [modifyNode_modifyNode]
  apply modifyNode_eq_self
  intro d hd
  ext1
  · rfl
  · simp [nodeProp, hd]

/-- Assigning the former value of an edge property undoes an assignment. -/
theorem setEdgeProp_setEdgeProp (G : PropertyGraph N E L K V) (e : E) (k : K) (v : Option V) :
    (G.setEdgeProp e k v).setEdgeProp e k (G.edgeProp e k) = G := by
  unfold setEdgeProp
  rw [modifyEdge_modifyEdge]
  apply modifyEdge_eq_self
  intro d hd
  ext1
  · rfl
  · rfl
  · rfl
  · simp [edgeProp, hd]

/-- Detaching a label that was newly attached restores the graph. -/
theorem removeLabel_addLabel (G : PropertyGraph N E L K V) (n : N) (l : L)
    (h : ∀ d, G.nodes n = some d → l ∉ d.labels) : (G.addLabel n l).removeLabel n l = G := by
  unfold removeLabel addLabel
  rw [modifyNode_modifyNode]
  apply modifyNode_eq_self
  intro d hd
  ext1
  · simp [h d hd]
  · rfl

/-- Attaching a label that was just detached restores the graph. -/
theorem addLabel_removeLabel (G : PropertyGraph N E L K V) (n : N) (l : L)
    (h : ∀ d, G.nodes n = some d → l ∈ d.labels) : (G.removeLabel n l).addLabel n l = G := by
  unfold removeLabel addLabel
  rw [modifyNode_modifyNode]
  apply modifyNode_eq_self
  intro d hd
  ext1
  · simp [h d hd]
  · rfl

lemma putEdges_nodes (G : PropertyGraph N E L K V) (es : List (E × EdgeData N L K V)) :
    (G.putEdges es).nodes = G.nodes := by
  induction es generalizing G with
  | nil => rfl
  | cons p es ih => exact ih (G.putEdge p.1 p.2)

/-- An edge that is not put back keeps its content. -/
lemma putEdges_edges_of_notMem (G : PropertyGraph N E L K V)
    (es : List (E × EdgeData N L K V)) (e : E) (he : ∀ p ∈ es, p.1 ≠ e) :
    (G.putEdges es).edges e = G.edges e := by
  induction es generalizing G with
  | nil => rfl
  | cons p es ih =>
    have hp : e ≠ p.1 := (he p List.mem_cons_self).symm
    have htail : ∀ q ∈ es, q.1 ≠ e := fun q hq => he q (List.mem_cons_of_mem _ hq)
    calc ((G.putEdge p.1 p.2).putEdges es).edges e
        = (G.putEdge p.1 p.2).edges e := ih _ htail
      _ = G.edges e := by simp [putEdge, hp]

/-- When the list holds only contents of a graph `H`, an edge that is put back gets its content
in `H`. -/
lemma putEdges_edges_of_mem (G H : PropertyGraph N E L K V)
    (es : List (E × EdgeData N L K V)) (hes : ∀ p ∈ es, H.edges p.1 = some p.2) (e : E)
    (he : ∃ p ∈ es, p.1 = e) : (G.putEdges es).edges e = H.edges e := by
  induction es generalizing G with
  | nil => simp at he
  | cons p es ih =>
    have htail : ∀ q ∈ es, H.edges q.1 = some q.2 := fun q hq => hes q (List.mem_cons_of_mem _ hq)
    by_cases hlater : ∃ q ∈ es, q.1 = e
    · exact ih (G.putEdge p.1 p.2) htail hlater
    · have hpe : p.1 = e := by
        obtain ⟨q, hq, rfl⟩ := he
        rcases List.mem_cons.mp hq with rfl | hq
        · rfl
        · exact absurd ⟨q, hq, rfl⟩ hlater
      have hno : ∀ q ∈ es, q.1 ≠ e := fun q hq hqe => hlater ⟨q, hq, hqe⟩
      calc ((G.putEdge p.1 p.2).putEdges es).edges e
          = (G.putEdge p.1 p.2).edges e := putEdges_edges_of_notMem _ es e hno
        _ = H.edges e := by
          subst hpe
          simp [putEdge, hes p List.mem_cons_self]

/-- Putting a removed node and all of its incident edges back restores the graph. -/
theorem putEdges_putNode_deleteNode (G : PropertyGraph N E L K V) (n : N) (d : NodeData L K V)
    (hn : G.nodes n = some d) (es : List (E × EdgeData N L K V))
    (hes : ∀ p ∈ es, G.edges p.1 = some p.2)
    (hinc : ∀ e c, G.edges e = some c → c.src = n ∨ c.dst = n → ∃ p ∈ es, p.1 = e) :
    (((G.deleteNode n).putNode n d).putEdges es) = G := by
  ext1
  · rw [putEdges_nodes]
    simp [putNode, deleteNode, ← hn]
  · funext e
    by_cases he : ∃ p ∈ es, p.1 = e
    · exact putEdges_edges_of_mem _ G es hes e he
    · rw [putEdges_edges_of_notMem _ es e fun p hp hpe => he ⟨p, hp, hpe⟩]
      simp only [putNode, deleteNode]
      cases hc : G.edges e with
      | none => rfl
      | some c =>
        have hnot : ¬ (c.src = n ∨ c.dst = n) := fun h => he (hinc e c hc h)
        rw [not_or] at hnot
        simp [Option.filter, hnot.1, hnot.2]

end PropertyGraph
