import MaharitDb.Core.BackendSame
import MaharitDb.Core.GraphContent
import MaharitDb.Core.ConcurrentGraphRuns

/-!
# The two backends side by side

The same sequence of calls runs against a slot graph and a concurrent graph.  An id of a call is a
pair: what an earlier call returned in either run, or an id that neither run has issued.  As long as
no id is used after the slot graph has handed its slot out again, and nothing is restored over a live
element, every call returns the same in both runs, up to a renaming that is one-to-one at every
moment.
-/

namespace Maharit

open GuardedRun PropertyGraph

/-- The pairs of ids that name the same thing: the last pair issued with the slot. -/
def current (table : List (UInt64 × UInt64)) (a b : UInt64) : Prop := table.lookup a = some b

/-- The ids a call may use: a pair that is current, or an id issued in neither run. -/
def known (table : List (UInt64 × UInt64)) (a b : UInt64) : Prop :=
  current table a b ∨ a = b ∧ ∀ p ∈ table, p.1 ≠ a ∧ p.2 ≠ a

lemma mem_of_current {table : List (UInt64 × UInt64)} {a b : UInt64} (h : current table a b) :
    (a, b) ∈ table := by
  induction table with
  | nil => cases h
  | cons p table ih =>
    obtain ⟨k, v⟩ := p
    unfold current at h
    rw [List.lookup_cons] at h
    split at h
    · next heq =>
      rw [Option.some.inj h, beq_iff_eq.mp heq]
      exact List.mem_cons_self
    · exact List.mem_cons_of_mem _ (ih h)

/-- Issuing a pair whose second part is new makes it current. -/
lemma current_cons {table : List (UInt64 × UInt64)} {a b : UInt64}
    (h : ∀ x, x ≠ a → ¬current table x b) : current ((a, b) :: table) = pushPair (current table) a b := by
  funext x y
  unfold current pushPair
  rw [List.lookup_cons, eq_iff_iff]
  by_cases hx : x = a
  · subst hx
    simp [eq_comm]
  · have hbeq : (x == a) = false := by simpa using hx
    simp only [hbeq, hx, false_and, false_or, not_false_eq_true, true_and, ne_eq]
    refine ⟨fun hy => ⟨?_, hy⟩, And.right⟩
    rintro rfl
    exact h x hx hy

lemma known_biUnique {table : List (UInt64 × UInt64)} (h : Relator.BiUnique (current table)) :
    Relator.BiUnique (known table) := by
  constructor
  · rintro a a' b (hab | ⟨rfl, hfresh⟩) (hab' | ⟨rfl, hfresh'⟩)
    · exact h.1 hab hab'
    · exact absurd rfl (hfresh' _ (mem_of_current hab)).2
    · exact absurd rfl (hfresh _ (mem_of_current hab')).2
    · rfl
  · rintro a b b' (hab | ⟨rfl, hfresh⟩) (hab' | ⟨rfl, hfresh'⟩)
    · exact h.2 hab hab'
    · exact absurd rfl (hfresh' _ (mem_of_current hab)).1
    · exact absurd rfl (hfresh _ (mem_of_current hab')).1
    · rfl

section Fresh

variable {N M : List (UInt64 × UInt64)} {G H : GraphContent}

/-- An id that was never issued names no node. -/
lemma fresh_node (h : Renamed (current N) (current M) G H) {a : NodeId}
    (hfresh : ∀ p ∈ N, p.1 ≠ a ∧ p.2 ≠ a) : G.nodes a = none ∧ H.nodes a = none := by
  constructor
  · by_contra hlive
    obtain ⟨b, hab⟩ := h.node_left a (Option.isSome_iff_ne_none.mpr hlive)
    exact (hfresh _ (mem_of_current hab)).1 rfl
  · by_contra hlive
    obtain ⟨b, hab⟩ := h.node_right a (Option.isSome_iff_ne_none.mpr hlive)
    exact (hfresh _ (mem_of_current hab)).2 rfl

/-- An id that was never issued names no edge. -/
lemma fresh_edge (h : Renamed (current N) (current M) G H) {a : EdgeId}
    (hfresh : ∀ p ∈ M, p.1 ≠ a ∧ p.2 ≠ a) : G.edges a = none ∧ H.edges a = none := by
  constructor
  · by_contra hlive
    obtain ⟨b, hab⟩ := h.edge_left a (Option.isSome_iff_ne_none.mpr hlive)
    exact (hfresh _ (mem_of_current hab)).1 rfl
  · by_contra hlive
    obtain ⟨b, hab⟩ := h.edge_right a (Option.isSome_iff_ne_none.mpr hlive)
    exact (hfresh _ (mem_of_current hab)).2 rfl

/-- The two graphs are the same up to the renaming of the known ids. -/
lemma Renamed.known (h : Renamed (current N) (current M) G H) : Renamed (known N) (known M) G H := by
  refine ⟨known_biUnique h.nodeUnique, known_biUnique h.edgeUnique, ?_, ?_, ?_, ?_, ?_, ?_⟩
  · rintro a b (hab | ⟨rfl, hfresh⟩)
    · exact h.nodes a b hab
    · rw [(fresh_node h hfresh).1, (fresh_node h hfresh).2]
  · rintro a b (hab | ⟨rfl, hfresh⟩)
    · refine optionRel_imp (h.edges a b hab) fun d d' _ _ hrel => ?_
      exact ⟨hrel.label, .inl hrel.src, .inl hrel.dst, hrel.props⟩
    · rw [(fresh_edge h hfresh).1, (fresh_edge h hfresh).2]
      exact .none
  · intro a ha
    obtain ⟨b, hab⟩ := h.node_left a ha
    exact ⟨b, .inl hab⟩
  · intro b hb
    obtain ⟨a, hab⟩ := h.node_right b hb
    exact ⟨a, .inl hab⟩
  · intro a ha
    obtain ⟨b, hab⟩ := h.edge_left a ha
    exact ⟨b, .inl hab⟩
  · intro b hb
    obtain ⟨a, hab⟩ := h.edge_right b hb
    exact ⟨a, .inl hab⟩

end Fresh

/-- The two graphs, with the pairs of ids under which elements were stored, the last one first. -/
structure Twin where
  slot : Graph
  conc : ConcurrentGraph
  nodes : List (NodeId × NodeId)
  edges : List (EdgeId × EdgeId)

namespace Twin

/-- Two empty graphs. -/
def new : Twin := ⟨.new, .new, [], []⟩

/-- The iteration orders a call meets in the slot graph. -/
abbrev Orders := IterOrder × IterOrder

/-- A call with pairs of ids, and the iteration orders it meets. -/
abbrev Call := BackendCall (UInt64 × UInt64) × Orders

/-- The call on the slot graph. -/
def slotExec (t : Twin) (c : Call) : Graph × Answer :=
  let := Graph.backend c.2.1 c.2.2
  BackendCall.exec t.slot (c.1.map Prod.fst)

/-- The call on the concurrent graph. -/
def concExec (t : Twin) (c : Call) : ConcurrentGraph × Answer :=
  BackendCall.exec t.conc (c.1.map Prod.snd)

/-- The pair of ids under which a call stored a node. -/
def issuedNodes (c : BackendCall (UInt64 × UInt64)) (x y : Answer) : List (NodeId × NodeId) :=
  match c, x, y with
  | .createNodeWithLabels _, .nodeId a, .nodeId b => [(a, b)]
  | .restoreNode id _, _, _ => [id]
  | _, _, _ => []

/-- The pair of ids under which a call stored an edge. -/
def issuedEdges (c : BackendCall (UInt64 × UInt64)) (x y : Answer) : List (EdgeId × EdgeId) :=
  match c, x, y with
  | .createEdge _ _ _, .edgeId (.ok a), .edgeId (.ok b) => [(a, b)]
  | .restoreEdge id _ _ _, .result (.ok _), .result (.ok _) => [id]
  | _, _, _ => []

/-- A call on both graphs. -/
def exec (t : Twin) (c : Call) : Twin where
  slot := (t.slotExec c).1
  conc := (t.concExec c).1
  nodes := issuedNodes c.1 (t.slotExec c).2 (t.concExec c).2 ++ t.nodes
  edges := issuedEdges c.1 (t.slotExec c).2 (t.concExec c).2 ++ t.edges

/-- A call; there is no state behind a panic of the slot graph. -/
def step (s : Option Twin) (c : Call) : Option Twin :=
  s.bind fun t => if (t.exec c).slot.Fits then some (t.exec c) else none

/-- The provisos of single calls: nothing is restored over a live element, the empty label is not
added, and ids are left to issue. -/
def Proper (t : Twin) : BackendCall (UInt64 × UInt64) → Prop
  | .createNodeWithLabels _ => t.conc.nextNodeId ≠ maxId
  | .createEdge _ _ _ => t.conc.nextEdgeId ≠ maxId
  | .addNodeLabel _ label => label ≠ ""
  | .restoreNode id _ => t.slot.getNode id.1 = none
  | .restoreEdge id _ _ _ => t.slot.getEdge id.1 = none
  | _ => True

/-- The calls on which the two backends agree. -/
def Allowed (s : Option Twin) (c : Call) : Prop :=
  ∀ t ∈ s, (∀ p ∈ c.1.nodeRefs, known t.nodes p.1 p.2) ∧ (∀ p ∈ c.1.edgeRefs, known t.edges p.1 p.2) ∧
    t.Proper c.1

/-- The renaming is one-to-one, and the call returns the same in both runs. -/
def Agrees (t : Twin) (c : Call) : Prop :=
  Relator.BiUnique (known (t.exec c).nodes) ∧ Relator.BiUnique (known (t.exec c).edges) ∧
    SameAnswer (known (t.exec c).nodes) (known (t.exec c).edges) (t.slotExec c).2 (t.concExec c).2

/-- The invariant of the two runs. -/
structure Inv (t : Twin) : Prop where
  slot : t.slot.Inv
  conc : t.conc.Consistent
  renamed : Renamed (current t.nodes) (current t.edges) t.slot.content t.conc.content
  nextNode : ∀ p ∈ t.nodes, p.2 < t.conc.nextNodeId
  nextEdge : ∀ p ∈ t.edges, p.2 < t.conc.nextEdgeId

lemma inv_new : new.Inv where
  slot := Graph.inv_new
  conc := ConcurrentGraph.consistent_new
  renamed := by
    constructor <;> simp [new, current, Relator.BiUnique, Relator.LeftUnique, Relator.RightUnique,
      Graph.content, Graph.new, Graph.getNode, Graph.getEdge, ConcurrentGraph.content, ConcurrentGraph.new]
  nextNode := by simp [new]
  nextEdge := by simp [new]

/-- The two graphs behind the interface. -/
lemma Inv.sameGraph {t : Twin} (ht : t.Inv) (o : Orders) :
    @SameGraph Graph ConcurrentGraph (Graph.backend o.1 o.2) _ (known t.nodes) (known t.edges) t.slot
      t.conc := by
  let := Graph.backend o.1 o.2
  exact ⟨Renamed.known ht.renamed, ht.slot.listed o.1 o.2, ht.conc.listed⟩

/-! ## Calls that issue nothing -/

/-- A change that issues no id keeps the invariant when the contents stay the same up to renaming. -/
lemma Inv.of_renamed {t : Twin} (ht : t.Inv) {g : Graph} {h : ConcurrentGraph} (hg : g.Inv)
    (hh : h.Consistent) (hnode : h.nextNodeId = t.conc.nextNodeId) (hedge : h.nextEdgeId = t.conc.nextEdgeId)
    {G H : GraphContent} (hgc : g.content = G) (hhc : h.content = H)
    (hrenamed : Renamed (current t.nodes) (current t.edges) G H) : Inv ⟨g, h, t.nodes, t.edges⟩ where
  slot := hg
  conc := hh
  renamed := by
    rw [hgc, hhc]
    exact hrenamed
  nextNode p hp := hnode ▸ ht.nextNode p hp
  nextEdge p hp := hedge ▸ ht.nextEdge p hp

/-- Known ids with a live node are current. -/
lemma Inv.current_of_live {t : Twin} (ht : t.Inv) {a b : NodeId} (hab : known t.nodes a b)
    (hlive : (t.slot.getNode a).isSome) : current t.nodes a b := by
  rcases hab with hab | ⟨rfl, hfresh⟩
  · exact hab
  · obtain ⟨b, hab⟩ := ht.renamed.node_left a (by simpa [Graph.content] using hlive)
    exact absurd rfl (hfresh _ (mem_of_current hab)).1

/-- Known ids are live in both graphs or in none. -/
lemma Inv.live_iff {t : Twin} (ht : t.Inv) {a b : NodeId} (hab : known t.nodes a b) :
    (t.slot.getNode a).isSome ↔ b ∈ t.conc.nodes := by
  have heq := (Renamed.known ht.renamed).nodes a b hab
  have hmap := congrArg Option.isSome heq
  simp only [Graph.content, ConcurrentGraph.content, Option.isSome_map] at hmap
  rw [hmap, AList.lookup_isSome]

lemma Inv.edge_dead_iff {t : Twin} (ht : t.Inv) {a b : EdgeId} (hab : known t.edges a b) :
    t.slot.getEdge a = none ↔ b ∉ t.conc.edges := by
  have hrel := (Renamed.known ht.renamed).edges a b hab
  have hconc : t.conc.content.edges b = none ↔ b ∉ t.conc.edges := by
    rw [← AList.lookup_eq_none]
    exact Option.map_eq_none_iff
  rw [← Graph.content_edges_eq_none, ← hconc]
  generalize t.slot.content.edges a = o at hrel
  generalize t.conc.content.edges b = o' at hrel
  cases hrel <;> simp

/-- Nodes named by known ids change the same way. -/
lemma Inv.modifyNode {t : Twin} (ht : t.Inv) {a b : NodeId} (hab : known t.nodes a b)
    (F : NodeData String String PropertyValue → NodeData String String PropertyValue) :
    Renamed (current t.nodes) (current t.edges) (t.slot.content.modifyNode a F)
      (t.conc.content.modifyNode b F) := by
  rcases hab with hcur | ⟨rfl, hfresh⟩
  · exact ht.renamed.modifyNode hcur F
  · obtain ⟨hdead, hdead'⟩ := fresh_node ht.renamed hfresh
    rw [modifyNode_eq_self _ _ _ (fun d hd => by rw [hdead] at hd; cases hd),
      modifyNode_eq_self _ _ _ (fun d hd => by rw [hdead'] at hd; cases hd)]
    exact ht.renamed

/-- Edges named by known ids change the same way. -/
lemma Inv.setEdgeProp {t : Twin} (ht : t.Inv) {a b : EdgeId} (hab : known t.edges a b) (key : String)
    (value : Option PropertyValue) :
    Renamed (current t.nodes) (current t.edges) (t.slot.content.setEdgeProp a key value)
      (t.conc.content.setEdgeProp b key value) := by
  rcases hab with hcur | ⟨rfl, hfresh⟩
  · exact ht.renamed.setEdgeProp hcur key value
  · obtain ⟨hdead, hdead'⟩ := fresh_edge ht.renamed hfresh
    unfold PropertyGraph.setEdgeProp
    rw [modifyEdge_eq_self _ _ _ (fun d hd => by rw [hdead] at hd; cases hd),
      modifyEdge_eq_self _ _ _ (fun d hd => by rw [hdead'] at hd; cases hd)]
    exact ht.renamed

lemma Inv.deleteNode {t : Twin} (ht : t.Inv) {a b : NodeId} (hab : known t.nodes a b) :
    Renamed (current t.nodes) (current t.edges) (t.slot.content.deleteNode a)
      (t.conc.content.deleteNode b) := by
  rcases hab with hcur | ⟨rfl, hfresh⟩
  · exact ht.renamed.deleteNode hcur
  · obtain ⟨hdead, hdead'⟩ := fresh_node ht.renamed hfresh
    rw [deleteNode_of_dead ht.slot.valid.closed hdead, deleteNode_of_dead ht.conc.closed hdead']
    exact ht.renamed

lemma Inv.deleteEdge {t : Twin} (ht : t.Inv) {a b : EdgeId} (hab : known t.edges a b) :
    Renamed (current t.nodes) (current t.edges) (t.slot.content.deleteEdge a)
      (t.conc.content.deleteEdge b) := by
  rcases hab with hcur | ⟨rfl, hfresh⟩
  · exact ht.renamed.deleteEdge hcur
  · have hsame : ∀ G : GraphContent, G.edges a = none → G.deleteEdge a = G := by
      intro G hdead
      ext1
      · rfl
      · simp [PropertyGraph.deleteEdge, ← hdead]
    obtain ⟨hdead, hdead'⟩ := fresh_edge ht.renamed hfresh
    rw [hsame _ hdead, hsame _ hdead']
    exact ht.renamed

/-! ## Calls that store an element -/

/-- A node stored under ids that name nothing. -/
lemma Inv.putNode {t : Twin} (ht : t.Inv) {g : Graph} {h : ConcurrentGraph} {a b : NodeId}
    {d : NodeData String String PropertyValue} (hg : g.Inv) (hh : h.Consistent)
    (hdead : t.slot.getNode a = none) (hdead' : b ∉ t.conc.nodes)
    (hnew : ∀ x, x ≠ a → ¬current t.nodes x b)
    (hgc : g.content = t.slot.content.putNode a d) (hhc : h.content = t.conc.content.putNode b d)
    (hlt : b < h.nextNodeId) (hle : t.conc.nextNodeId ≤ h.nextNodeId)
    (hedge : h.nextEdgeId = t.conc.nextEdgeId) : Inv ⟨g, h, (a, b) :: t.nodes, t.edges⟩ where
  slot := hg
  conc := hh
  renamed := by
    rw [current_cons hnew, hgc, hhc]
    exact ht.renamed.putNode ht.slot.valid.closed ht.conc.closed (Graph.content_nodes_eq_none.mpr hdead)
      (ConcurrentGraph.content_nodes_eq_none hdead') d
  nextNode p hp := by
    rcases List.mem_cons.mp hp with rfl | hp
    · exact hlt
    · exact UInt64.lt_of_lt_of_le (ht.nextNode p hp) hle
  nextEdge p hp := hedge ▸ ht.nextEdge p hp

/-- An edge stored under ids that name nothing. -/
lemma Inv.putEdge {t : Twin} (ht : t.Inv) {g : Graph} {h : ConcurrentGraph} {a b : EdgeId}
    {d d' : EdgeData NodeId String String PropertyValue} (hg : g.Inv) (hh : h.Consistent)
    (hdead : t.slot.getEdge a = none) (hdead' : b ∉ t.conc.edges)
    (hnew : ∀ x, x ≠ a → ¬current t.edges x b) (hd : d.Renamed (current t.nodes) d')
    (hgc : g.content = t.slot.content.putEdge a d) (hhc : h.content = t.conc.content.putEdge b d')
    (hlt : b < h.nextEdgeId) (hle : t.conc.nextEdgeId ≤ h.nextEdgeId)
    (hnode : h.nextNodeId = t.conc.nextNodeId) : Inv ⟨g, h, t.nodes, (a, b) :: t.edges⟩ where
  slot := hg
  conc := hh
  renamed := by
    rw [current_cons hnew, hgc, hhc]
    exact ht.renamed.putEdge (Graph.content_edges_eq_none.mpr hdead)
      (ConcurrentGraph.content_edges_eq_none hdead') hd
  nextNode p hp := hnode ▸ ht.nextNode p hp
  nextEdge p hp := by
    rcases List.mem_cons.mp hp with rfl | hp
    · exact hlt
    · exact UInt64.lt_of_lt_of_le (ht.nextEdge p hp) hle

/-- A live node of the concurrent graph has an id below the counter. -/
lemma Inv.node_lt {t : Twin} (ht : t.Inv) {b : NodeId} (hb : b ∈ t.conc.nodes) :
    b < t.conc.nextNodeId := by
  obtain ⟨a, hab⟩ := ht.renamed.node_right b (ConcurrentGraph.content_nodes_isSome.mpr hb)
  exact ht.nextNode _ (mem_of_current hab)

lemma Inv.edge_lt {t : Twin} (ht : t.Inv) {b : EdgeId} (hb : b ∈ t.conc.edges) :
    b < t.conc.nextEdgeId := by
  obtain ⟨a, hab⟩ := ht.renamed.edge_right b (ConcurrentGraph.content_edges_isSome.mpr hb)
  exact ht.nextEdge _ (mem_of_current hab)

/-- No other id is paired with the second part of a known pair. -/
lemma not_current_of_known {table : List (UInt64 × UInt64)} (hunique : Relator.BiUnique (current table))
    {a b : UInt64} (hab : known table a b) (x : UInt64) (hx : x ≠ a) : ¬current table x b := by
  intro hxb
  exact hx ((known_biUnique hunique).1 (.inl hxb) hab)

lemma Inv.createNodeWithLabels {t : Twin} (ht : t.Inv) (labels : List String)
    (hnext : t.conc.nextNodeId ≠ maxId) (hfits : (t.slot.createNodeWithLabels labels).1.Fits) :
    Inv ⟨(t.slot.createNodeWithLabels labels).1, (t.conc.createNodeWithLabels labels).1,
      ((t.slot.createNodeWithLabels labels).2, t.conc.nextNodeId) :: t.nodes, t.edges⟩ := by
  have hcreate := ht.slot.valid.createsNode ht.slot.fits.nodes_lt labels
  have hnew : t.conc.nextNodeId ∉ t.conc.nodes := fun hmem => UInt64.lt_irrefl _ (ht.node_lt hmem)
  have hlt := lt_add_one_of_ne_maxId hnext
  refine ht.putNode (ht.slot.createNodeWithLabels labels hfits) (ht.conc.createNodeWithLabels hnew labels)
    hcreate.dead hnew ?_ hcreate.toStoresNode.content (t.conc.content_createNodeWithLabels labels) hlt
    (UInt64.le_of_lt hlt) rfl
  intro x _ hx
  exact UInt64.lt_irrefl _ (ht.nextNode _ (mem_of_current hx))

lemma Inv.restoreNode {t : Twin} (ht : t.Inv) {p : NodeId × NodeId} (hp : known t.nodes p.1 p.2)
    (labels : List String) (hdead : t.slot.getNode p.1 = none)
    (hfits : (t.slot.createNodeWithIdAndLabels p.1 labels).1.Fits) :
    Inv ⟨(t.slot.createNodeWithIdAndLabels p.1 labels).1, (t.conc.createNodeWithIdAndLabels p.2 labels).1,
      p :: t.nodes, t.edges⟩ := by
  have hstores := ht.slot.valid.storesNode_withId hdead labels
  have hdead' : p.2 ∉ t.conc.nodes := by
    rw [← ht.live_iff hp, hdead]
    simp
  have hid : p.2 ≠ maxId := by
    rcases hp with hcur | ⟨heq, -⟩
    · -- An issued id is below the counter.
      have hlt := ht.nextNode _ (mem_of_current hcur)
      rintro hmax
      exact UInt64.not_le.mpr hlt (hmax ▸ le_maxId _)
    · -- The slot graph has allocated the slot.
      have hlive : ((t.slot.createNodeWithIdAndLabels p.1 labels).1.getNode p.1).isSome := by
        rw [hstores.getNode, if_pos rfl]
        rfl
      have hlt := (Graph.toNat_lt_of_getNode hlive).trans_le hfits.1
      intro hmax
      rw [heq, hmax] at hlt
      revert hlt
      decide
  refine ht.putNode (ht.slot.createNodeWithIdAndLabels p.1 labels hfits)
    (ht.conc.createNodeWithIdAndLabels hdead' labels) hdead hdead' ?_ hstores.content
    (t.conc.content_createNodeWithIdAndLabels p.2 labels) (GraphHistory.lt_advance hid)
    (GraphHistory.le_advance hid) rfl
  exact not_current_of_known ht.renamed.nodeUnique hp

/-- The endpoints of a new edge correspond. -/
lemma Inv.renamed_edge {t : Twin} (ht : t.Inv) {p q : NodeId × NodeId} (hp : known t.nodes p.1 p.2)
    (hq : known t.nodes q.1 q.2) (hfrom : (t.slot.getNode p.1).isSome)
    (hto : (t.slot.getNode q.1).isSome) (label : String) (props : String → Option PropertyValue) :
    EdgeData.Renamed (current t.nodes) ⟨label, p.1, q.1, props⟩
      (⟨label, p.2, q.2, props⟩ : EdgeData NodeId String String PropertyValue) :=
  ⟨rfl, ht.current_of_live hp hfrom, ht.current_of_live hq hto, rfl⟩

lemma Inv.createEdge {t : Twin} (ht : t.Inv) {p q : NodeId × NodeId} (hp : known t.nodes p.1 p.2)
    (hq : known t.nodes q.1 q.2) (hfrom : (t.slot.getNode p.1).isSome)
    (hto : (t.slot.getNode q.1).isSome) (label : String) (hnext : t.conc.nextEdgeId ≠ maxId)
    (hfits : (t.slot.createEdge p.1 q.1 label).1.Fits) :
    (t.slot.createEdge p.1 q.1 label).2 = .ok t.slot.nextEdgeId ∧
    (t.conc.createEdge p.2 q.2 label).2 = .ok t.conc.nextEdgeId ∧
    Inv ⟨(t.slot.createEdge p.1 q.1 label).1, (t.conc.createEdge p.2 q.2 label).1, t.nodes,
      (t.slot.nextEdgeId, t.conc.nextEdgeId) :: t.edges⟩ := by
  have hfrom' : p.2 ∈ t.conc.nodes := (ht.live_iff hp).mp hfrom
  have hto' : q.2 ∈ t.conc.nodes := (ht.live_iff hq).mp hto
  obtain ⟨hok, hcreate⟩ := ht.slot.valid.createsEdge ht.slot.fits.edges_lt hfrom hto label
  have hnew : t.conc.nextEdgeId ∉ t.conc.edges := fun hmem => UInt64.lt_irrefl _ (ht.edge_lt hmem)
  have hconc : t.conc.createEdge p.2 q.2 label =
      (ConcurrentGraph.insertEdge { t.conc with nextEdgeId := t.conc.nextEdgeId + 1 } t.conc.nextEdgeId
        p.2 q.2 label, .ok t.conc.nextEdgeId) := by
    simp [ConcurrentGraph.createEdge, hfrom', hto']
  have hlt := lt_add_one_of_ne_maxId hnext
  refine ⟨hok, by rw [hconc], ?_⟩
  have hconsistent := ht.conc.createEdge p.2 q.2 label fun _ _ => hnew
  rw [hconc] at hconsistent ⊢
  refine ht.putEdge (ht.slot.createEdge p.1 q.1 label hfits) hconsistent hcreate.dead hnew ?_
    (ht.renamed_edge hp hq hfrom hto label fun _ => none) ?_ ?_ hlt (UInt64.le_of_lt hlt) rfl
  · intro x _ hx
    exact UInt64.lt_irrefl _ (ht.nextEdge _ (mem_of_current hx))
  · exact hcreate.toStoresEdge.content
  · exact ConcurrentGraph.content_insertEdge _ _ _ _ _

lemma Inv.restoreEdge {t : Twin} (ht : t.Inv) {e : EdgeId × EdgeId} (he : known t.edges e.1 e.2)
    {p q : NodeId × NodeId} (hp : known t.nodes p.1 p.2) (hq : known t.nodes q.1 q.2)
    (hfrom : (t.slot.getNode p.1).isSome) (hto : (t.slot.getNode q.1).isSome) (label : String)
    (hdead : t.slot.getEdge e.1 = none) (hfits : (t.slot.createEdgeWithId e.1 p.1 q.1 label).1.Fits) :
    (t.slot.createEdgeWithId e.1 p.1 q.1 label).2 = .ok e.1 ∧
    (t.conc.createEdgeWithId e.2 p.2 q.2 label).2 = .ok e.2 ∧
    Inv ⟨(t.slot.createEdgeWithId e.1 p.1 q.1 label).1, (t.conc.createEdgeWithId e.2 p.2 q.2 label).1,
      t.nodes, e :: t.edges⟩ := by
  have hfrom' : p.2 ∈ t.conc.nodes := (ht.live_iff hp).mp hfrom
  have hto' : q.2 ∈ t.conc.nodes := (ht.live_iff hq).mp hto
  obtain ⟨hok, hstores⟩ := ht.slot.valid.storesEdge_withId hdead hfrom hto label
  have hdead' : e.2 ∉ t.conc.edges := (ht.edge_dead_iff he).mp hdead
  have hid : e.2 ≠ maxId := by
    rcases he with hcur | ⟨heq, -⟩
    · have hlt := ht.nextEdge _ (mem_of_current hcur)
      rintro hmax
      exact UInt64.not_le.mpr hlt (hmax ▸ le_maxId _)
    · have hlive := hstores.getEdge e.1
      rw [if_pos rfl] at hlive
      have hlt := (Graph.toNat_lt_of_getEdge hlive).trans_le hfits.2
      intro hmax
      rw [heq, hmax] at hlt
      revert hlt
      decide
  have hconc : t.conc.createEdgeWithId e.2 p.2 q.2 label =
      (ConcurrentGraph.insertEdge
        { t.conc with nextEdgeId := ConcurrentGraph.advance t.conc.nextEdgeId e.2 } e.2 p.2 q.2 label,
        .ok e.2) := by
    simp [ConcurrentGraph.createEdgeWithId, hfrom', hto']
  refine ⟨hok, by rw [hconc], ?_⟩
  have hconsistent := ht.conc.createEdgeWithId hdead' p.2 q.2 label
  rw [hconc] at hconsistent ⊢
  refine ht.putEdge (ht.slot.createEdgeWithId e.1 p.1 q.1 label hfits) hconsistent hdead hdead' ?_
    (ht.renamed_edge hp hq hfrom hto label fun _ => none) ?_ ?_ (GraphHistory.lt_advance hid)
    (GraphHistory.le_advance hid) rfl
  · exact not_current_of_known ht.renamed.edgeUnique he
  · exact hstores.content
  · exact ConcurrentGraph.content_insertEdge _ _ _ _ _

/-! ## Every call -/

/-- A call on both graphs keeps the invariant and returns the same. -/
def Simulates (t : Twin) (c : Call) : Prop :=
  (t.exec c).Inv ∧
    SameAnswer (known (t.exec c).nodes) (known (t.exec c).edges) (t.slotExec c).2 (t.concExec c).2

/-- The reading calls. -/
lemma Inv.simulates_read {t : Twin} (ht : t.Inv) (o : Orders) :
    (∀ p, known t.nodes p.1 p.2 → t.Simulates (.getNode p, o)) ∧
    (∀ p labels, known t.nodes p.1 p.2 → t.Simulates (.nodeHasAllLabels p labels, o)) ∧
    (∀ p key, known t.nodes p.1 p.2 → t.Simulates (.getNodeProperty p key, o)) ∧
    (∀ label, t.Simulates (.nodesByLabel label, o)) ∧
    (∀ p, known t.edges p.1 p.2 → t.Simulates (.getEdge p, o)) ∧
    t.Simulates (.nodeIds, o) ∧ t.Simulates (.allNodes, o) ∧ t.Simulates (.edgeIds, o) ∧
    t.Simulates (.allEdges, o) ∧ (∀ p, known t.nodes p.1 p.2 → t.Simulates (.outgoingEdges p, o)) ∧
    (∀ p, known t.nodes p.1 p.2 → t.Simulates (.incomingEdges p, o)) ∧
    (∀ p, known t.nodes p.1 p.2 → t.Simulates (.hasIncidentEdges p, o)) ∧
    t.Simulates (.nodeCount, o) ∧ t.Simulates (.edgeCount, o) ∧
    (∀ p, known t.nodes p.1 p.2 → t.Simulates (.containsNode p, o)) := by
  let := Graph.backend o.1 o.2
  have hsame := ht.sameGraph o
  have hflag : ∀ {x y : Bool}, x = y → SameAnswer (known t.nodes) (known t.edges) (.flag x) (.flag y) := by
    rintro x _ rfl
    exact .flag x
  have hcount : ∀ {x y : ℕ}, x = y → SameAnswer (known t.nodes) (known t.edges) (.count x) (.count y) := by
    rintro x _ rfl
    exact .count x
  have hvalue : ∀ {x y : Option PropertyValue}, x = y →
      SameAnswer (known t.nodes) (known t.edges) (.value x) (.value y) := by
    rintro x _ rfl
    exact .value x
  refine ⟨?_, ?_, ?_, ?_, ?_, ?_, ?_, ?_, ?_, ?_, ?_, ?_, ?_, ?_, ?_⟩
  · exact fun p hp => ⟨ht, .node (hsame.node hp)⟩
  · exact fun p labels hp => ⟨ht, hflag (hsame.nodeHasAllLabels_eq hp labels)⟩
  · exact fun p key hp => ⟨ht, hvalue (hsame.getNodeProperty_eq hp key)⟩
  · exact fun label => ⟨ht, .nodeIds (hsame.rel_nodesByLabel label)⟩
  · exact fun p hp => ⟨ht, .edge (hsame.edge hp)⟩
  · exact ⟨ht, .nodeIds hsame.rel_allNodeIds⟩
  · exact ⟨ht, .nodes hsame.rel_allNodes⟩
  · exact ⟨ht, .edgeIds hsame.rel_edgeIds⟩
  · exact ⟨ht, .edges hsame.rel_allEdges⟩
  · exact fun p hp => ⟨ht, .edges (hsame.rel_outgoingEdges hp)⟩
  · exact fun p hp => ⟨ht, .edges (hsame.rel_incomingEdges hp)⟩
  · exact fun p hp => ⟨ht, hflag (hsame.hasIncidentEdges_eq hp)⟩
  · exact ⟨ht, hcount hsame.nodeCount_eq⟩
  · exact ⟨ht, hcount hsame.edgeCount_eq⟩
  · exact fun p hp => ⟨ht, hflag (hsame.containsNode_eq hp)⟩

/-- The calls that change an element in place. -/
lemma Inv.simulates_modify {t : Twin} (ht : t.Inv) (o : Orders) {p : UInt64 × UInt64} :
    (∀ key value, known t.nodes p.1 p.2 → t.Simulates (.setNodeProperty p key value, o)) ∧
    (∀ key, known t.nodes p.1 p.2 → t.Simulates (.removeNodeProperty p key, o)) ∧
    (∀ key value, known t.edges p.1 p.2 → t.Simulates (.setEdgeProperty p key value, o)) ∧
    (∀ key, known t.edges p.1 p.2 → t.Simulates (.removeEdgeProperty p key, o)) ∧
    (∀ label, known t.nodes p.1 p.2 → label ≠ "" → t.Simulates (.addNodeLabel p label, o)) ∧
    (∀ label, known t.nodes p.1 p.2 → t.Simulates (.removeNodeLabel p label, o)) := by
  let := Graph.backend o.1 o.2
  have hsame := ht.sameGraph o
  refine ⟨?_, ?_, ?_, ?_, ?_, ?_⟩
  · intro key value hp
    have hgc := t.slot.content_setNodeProperty p.1 key value
    exact ⟨ht.of_renamed (ht.slot.modifyNode p.1 (fun _ => rfl) fun _ => rfl)
      (ht.conc.setNodeProperty p.2 key value) rfl rfl hgc
      (t.conc.content_setNodeProperty p.2 key value) (ht.modifyNode hp _), .done⟩
  · intro key hp
    have hgc := t.slot.content_removeNodeProperty p.1 key
    refine ⟨ht.of_renamed (ht.slot.modifyNode p.1 (fun _ => rfl) fun _ => rfl)
      (ht.conc.removeNodeProperty p.2 key) rfl rfl hgc
      (t.conc.content_removeNodeProperty p.2 key) (ht.modifyNode hp _), ?_⟩
    have hvalue : (t.slot.removeNodeProperty p.1 key).2 = (t.conc.removeNodeProperty p.2 key).2 :=
      hsame.getNodeProperty_eq hp key
    change SameAnswer _ _ (.value (t.slot.removeNodeProperty p.1 key).2)
      (.value (t.conc.removeNodeProperty p.2 key).2)
    rw [hvalue]
    exact .value _
  · intro key value hp
    have hgc := t.slot.content_setEdgeProperty p.1 key value
    exact ⟨ht.of_renamed (ht.slot.modifyEdge p.1 fun _ => ⟨rfl, rfl, rfl⟩)
      (ht.conc.setEdgeProperty p.2 key value) rfl rfl hgc
      (t.conc.content_setEdgeProperty p.2 key value) (ht.setEdgeProp hp key _), .done⟩
  · intro key hp
    have hgc := t.slot.content_removeEdgeProperty p.1 key
    refine ⟨ht.of_renamed (ht.slot.modifyEdge p.1 fun _ => ⟨rfl, rfl, rfl⟩)
      (ht.conc.removeEdgeProperty p.2 key) rfl rfl hgc
      (t.conc.content_removeEdgeProperty p.2 key) (ht.setEdgeProp hp key _), ?_⟩
    have hvalue : (t.slot.removeEdgeProperty p.1 key).2 = (t.conc.removeEdgeProperty p.2 key).2 :=
      hsame.edgeProperty_eq hp key
    change SameAnswer _ _ (.value (t.slot.removeEdgeProperty p.1 key).2)
      (.value (t.conc.removeEdgeProperty p.2 key).2)
    rw [hvalue]
    exact .value _
  · intro label hp hlabel
    have hrest := GraphHistory.addNodeLabel_rest t.conc p.2 label
    exact ⟨ht.of_renamed (ht.slot.addNodeLabel fun _ _ h => absurd h hlabel)
      (ht.conc.addNodeLabel p.2 hlabel) hrest.2.1 hrest.2.2 (t.slot.content_addNodeLabel p.1 hlabel)
      (t.conc.content_addNodeLabel p.2 hlabel) (ht.modifyNode hp _), .done⟩
  · intro label hp
    have hrest := GraphHistory.removeNodeLabel_rest t.conc p.2 label
    exact ⟨ht.of_renamed (ht.slot.removeNodeLabel p.1 label) (ht.conc.removeNodeLabel p.2 label)
      hrest.2.1 hrest.2.2 (t.slot.content_removeNodeLabel p.1 label)
      (t.conc.content_removeNodeLabel p.2 label) (ht.modifyNode hp _), .done⟩

/-- The calls that delete an element. -/
lemma Inv.simulates_delete {t : Twin} (ht : t.Inv) (o : Orders) {p : UInt64 × UInt64} :
    (known t.nodes p.1 p.2 → t.Simulates (.deleteNode p, o)) ∧
    (known t.edges p.1 p.2 → t.Simulates (.deleteEdge p, o)) := by
  let := Graph.backend o.1 o.2
  have hsame := ht.sameGraph o
  constructor
  · intro hp
    have hcounters := GraphHistory.counters_deleteNode t.conc p.2
    refine ⟨ht.of_renamed (ht.slot.deleteNode o.1 o.2 p.1) (ht.conc.deleteNode p.2) hcounters.1
      hcounters.2 (ht.slot.valid.content_deleteNode o.1 o.2 p.1) (ht.conc.content_deleteNode p.2)
      (ht.deleteNode hp), ?_⟩
    have hslot : (t.slot.deleteNode o.1 o.2 p.1).2 = t.slot.getNode p.1 := by
      unfold Graph.deleteNode
      cases t.slot.getNode p.1 <;> rfl
    have hconc : (t.conc.deleteNode p.2).2 = t.conc.nodes.lookup p.2 := by
      unfold ConcurrentGraph.deleteNode
      cases t.conc.nodes.lookup p.2 <;> rfl
    change SameAnswer _ _ (.node (t.slot.deleteNode o.1 o.2 p.1).2) (.node (t.conc.deleteNode p.2).2)
    rw [hslot, hconc]
    exact .node (hsame.node hp)
  · intro hp
    have hcounters : (t.conc.deleteEdge p.2).1.nextNodeId = t.conc.nextNodeId ∧
        (t.conc.deleteEdge p.2).1.nextEdgeId = t.conc.nextEdgeId := by
      unfold ConcurrentGraph.deleteEdge
      cases t.conc.edges.lookup p.2 <;> exact ⟨rfl, rfl⟩
    refine ⟨ht.of_renamed (ht.slot.deleteEdge p.1) (ht.conc.deleteEdge p.2) hcounters.1 hcounters.2
      (t.slot.content_deleteEdge p.1) (t.conc.content_deleteEdge p.2) (ht.deleteEdge hp), ?_⟩
    have hslot : (t.slot.deleteEdge p.1).2 = t.slot.getEdge p.1 := by
      unfold Graph.deleteEdge
      cases t.slot.getEdge p.1 <;> rfl
    have hconc : (t.conc.deleteEdge p.2).2 = t.conc.edges.lookup p.2 := by
      unfold ConcurrentGraph.deleteEdge
      cases t.conc.edges.lookup p.2 <;> rfl
    change SameAnswer _ _ (.edge (t.slot.deleteEdge p.1).2) (.edge (t.conc.deleteEdge p.2).2)
    rw [hslot, hconc]
    exact .edge (hsame.edge hp)

/-- The newest pair is known. -/
lemma known_head (p : UInt64 × UInt64) (table : List (UInt64 × UInt64)) :
    known (p :: table) p.1 p.2 := by
  refine .inl ?_
  unfold current
  rw [List.lookup_cons]
  simp

lemma Inv.simulates_createNode {t : Twin} (ht : t.Inv) (o : Orders) (labels : List String)
    (hnext : t.conc.nextNodeId ≠ maxId) (hfits : (t.exec (.createNodeWithLabels labels, o)).slot.Fits) :
    t.Simulates (.createNodeWithLabels labels, o) :=
  ⟨ht.createNodeWithLabels labels hnext hfits, .nodeId (known_head _ _)⟩

lemma Inv.simulates_restoreNode {t : Twin} (ht : t.Inv) (o : Orders) {p : NodeId × NodeId}
    (hp : known t.nodes p.1 p.2) (labels : List String) (hdead : t.slot.getNode p.1 = none)
    (hfits : (t.exec (.restoreNode p labels, o)).slot.Fits) : t.Simulates (.restoreNode p labels, o) :=
  ⟨ht.restoreNode hp labels hdead hfits, .done⟩

lemma slotExec_createEdge (t : Twin) (o : Orders) (p q : NodeId × NodeId) (label : String) :
    t.slotExec (.createEdge p q label, o) = (t.slot.createEdge p.1 q.1 label).map id .edgeId := rfl

lemma concExec_createEdge (t : Twin) (o : Orders) (p q : NodeId × NodeId) (label : String) :
    t.concExec (.createEdge p q label, o) = (t.conc.createEdge p.2 q.2 label).map id .edgeId := rfl

lemma slotExec_restoreEdge (t : Twin) (o : Orders) (e : EdgeId × EdgeId) (p q : NodeId × NodeId)
    (label : String) : t.slotExec (.restoreEdge e p q label, o) =
      (t.slot.createEdgeWithId e.1 p.1 q.1 label).map id fun r => .result (r.map fun _ => ()) := rfl

lemma concExec_restoreEdge (t : Twin) (o : Orders) (e : EdgeId × EdgeId) (p q : NodeId × NodeId)
    (label : String) : t.concExec (.restoreEdge e p q label, o) =
      (t.conc.createEdgeWithId e.2 p.2 q.2 label).map id fun r => .result (r.map fun _ => ()) := rfl

/-- Creating an edge: the endpoints are missing on both sides, or on none. -/
lemma Inv.simulates_createEdge {t : Twin} (ht : t.Inv) (o : Orders) {p q : NodeId × NodeId}
    (hp : known t.nodes p.1 p.2) (hq : known t.nodes q.1 q.2) (label : String)
    (hnext : t.conc.nextEdgeId ≠ maxId) (hfits : (t.exec (.createEdge p q label, o)).slot.Fits) :
    t.Simulates (.createEdge p q label, o) := by
  by_cases hfrom : (t.slot.getNode p.1).isSome
  · have hfrom' : p.2 ∈ t.conc.nodes := (ht.live_iff hp).mp hfrom
    by_cases hto : (t.slot.getNode q.1).isSome
    · obtain ⟨hok, hok', hinv⟩ := ht.createEdge hp hq hfrom hto label hnext hfits
      have hslot : (t.slotExec (.createEdge p q label, o)) =
          ((t.slot.createEdge p.1 q.1 label).1, .edgeId (.ok t.slot.nextEdgeId)) := by
        rw [← hok]
        rfl
      have hconc : (t.concExec (.createEdge p q label, o)) =
          ((t.conc.createEdge p.2 q.2 label).1, .edgeId (.ok t.conc.nextEdgeId)) := by
        rw [← hok']
        rfl
      unfold Simulates Twin.exec
      rw [hslot, hconc]
      exact ⟨hinv, .edgeId (.ok (known_head _ _))⟩
    · have hto' : q.2 ∉ t.conc.nodes := fun hmem => hto ((ht.live_iff hq).mpr hmem)
      have hnone : t.slot.getNode q.1 = none := by simpa using hto
      have hslot : (t.slotExec (.createEdge p q label, o)) =
          (t.slot, .edgeId (.error (.nodeNotFound q.1))) := by
        simp [slotExec_createEdge, Graph.createEdge, hnone, Option.isNone_eq_false_iff.mpr hfrom]
      have hconc : (t.concExec (.createEdge p q label, o)) =
          (t.conc, .edgeId (.error (.nodeNotFound q.2))) := by
        simp [concExec_createEdge, ConcurrentGraph.createEdge, hfrom', hto']
      unfold Simulates Twin.exec
      rw [hslot, hconc]
      exact ⟨ht, .edgeId (.error (.nodeNotFound hq))⟩
  · have hfrom' : p.2 ∉ t.conc.nodes := fun hmem => hfrom ((ht.live_iff hp).mpr hmem)
    have hnone : t.slot.getNode p.1 = none := by simpa using hfrom
    have hslot : (t.slotExec (.createEdge p q label, o)) =
        (t.slot, .edgeId (.error (.nodeNotFound p.1))) := by
      simp [slotExec_createEdge, Graph.createEdge, hnone]
    have hconc : (t.concExec (.createEdge p q label, o)) =
        (t.conc, .edgeId (.error (.nodeNotFound p.2))) := by
      simp [concExec_createEdge, ConcurrentGraph.createEdge, hfrom']
    unfold Simulates Twin.exec
    rw [hslot, hconc]
    exact ⟨ht, .edgeId (.error (.nodeNotFound hp))⟩

/-- Restoring an edge: the endpoints are missing on both sides, or on none. -/
lemma Inv.simulates_restoreEdge {t : Twin} (ht : t.Inv) (o : Orders) {e : EdgeId × EdgeId}
    {p q : NodeId × NodeId} (he : known t.edges e.1 e.2) (hp : known t.nodes p.1 p.2)
    (hq : known t.nodes q.1 q.2) (label : String) (hdead : t.slot.getEdge e.1 = none)
    (hfits : (t.exec (.restoreEdge e p q label, o)).slot.Fits) :
    t.Simulates (.restoreEdge e p q label, o) := by
  by_cases hfrom : (t.slot.getNode p.1).isSome
  · have hfrom' : p.2 ∈ t.conc.nodes := (ht.live_iff hp).mp hfrom
    by_cases hto : (t.slot.getNode q.1).isSome
    · obtain ⟨hok, hok', hinv⟩ := ht.restoreEdge he hp hq hfrom hto label hdead hfits
      have hslot : (t.slotExec (.restoreEdge e p q label, o)) =
          ((t.slot.createEdgeWithId e.1 p.1 q.1 label).1, .result (.ok ())) := by
        rw [slotExec_restoreEdge, Prod.map_apply', hok]
        rfl
      have hconc : (t.concExec (.restoreEdge e p q label, o)) =
          ((t.conc.createEdgeWithId e.2 p.2 q.2 label).1, .result (.ok ())) := by
        rw [concExec_restoreEdge, Prod.map_apply', hok']
        rfl
      unfold Simulates Twin.exec
      rw [hslot, hconc]
      exact ⟨hinv, .result (.ok rfl)⟩
    · have hto' : q.2 ∉ t.conc.nodes := fun hmem => hto ((ht.live_iff hq).mpr hmem)
      have hnone : t.slot.getNode q.1 = none := by simpa using hto
      have hslot : (t.slotExec (.restoreEdge e p q label, o)) =
          (t.slot, .result (.error (.nodeNotFound q.1))) := by
        simp [slotExec_restoreEdge, Graph.createEdgeWithId, hnone, Option.isNone_eq_false_iff.mpr hfrom,
          Except.map]
      have hconc : (t.concExec (.restoreEdge e p q label, o)) =
          (t.conc, .result (.error (.nodeNotFound q.2))) := by
        simp [concExec_restoreEdge, ConcurrentGraph.createEdgeWithId, hfrom', hto', Except.map]
      unfold Simulates Twin.exec
      rw [hslot, hconc]
      exact ⟨ht, .result (.error (.nodeNotFound hq))⟩
  · have hfrom' : p.2 ∉ t.conc.nodes := fun hmem => hfrom ((ht.live_iff hp).mpr hmem)
    have hnone : t.slot.getNode p.1 = none := by simpa using hfrom
    have hslot : (t.slotExec (.restoreEdge e p q label, o)) =
        (t.slot, .result (.error (.nodeNotFound p.1))) := by
      simp [slotExec_restoreEdge, Graph.createEdgeWithId, hnone, Except.map]
    have hconc : (t.concExec (.restoreEdge e p q label, o)) =
        (t.conc, .result (.error (.nodeNotFound p.2))) := by
      simp [concExec_restoreEdge, ConcurrentGraph.createEdgeWithId, hfrom', Except.map]
    unfold Simulates Twin.exec
    rw [hslot, hconc]
    exact ⟨ht, .result (.error (.nodeNotFound hp))⟩

/-- Every allowed call keeps the invariant and returns the same in both runs. -/
theorem Inv.simulates {t : Twin} (ht : t.Inv) {c : Call} (hc : Allowed (some t) c)
    (hfits : (t.exec c).slot.Fits) : t.Simulates c := by
  obtain ⟨hnodes, hedges, hproper⟩ := hc t rfl
  obtain ⟨c, o⟩ := c
  obtain ⟨h₁, h₂, h₃, h₄, h₅, h₆, h₇, h₈, h₉, h₁₀, h₁₁, h₁₂, h₁₃, h₁₄, h₁₅⟩ := ht.simulates_read o
  cases c with
  | getNode p => exact h₁ p (hnodes p (by simp [BackendCall.nodeRefs]))
  | nodeHasAllLabels p labels => exact h₂ p labels (hnodes p (by simp [BackendCall.nodeRefs]))
  | getNodeProperty p key => exact h₃ p key (hnodes p (by simp [BackendCall.nodeRefs]))
  | nodesByLabel label => exact h₄ label
  | getEdge p => exact h₅ p (hedges p (by simp [BackendCall.edgeRefs]))
  | nodeIds => exact h₆
  | allNodes => exact h₇
  | edgeIds => exact h₈
  | allEdges => exact h₉
  | outgoingEdges p => exact h₁₀ p (hnodes p (by simp [BackendCall.nodeRefs]))
  | incomingEdges p => exact h₁₁ p (hnodes p (by simp [BackendCall.nodeRefs]))
  | hasIncidentEdges p => exact h₁₂ p (hnodes p (by simp [BackendCall.nodeRefs]))
  | nodeCount => exact h₁₃
  | edgeCount => exact h₁₄
  | containsNode p => exact h₁₅ p (hnodes p (by simp [BackendCall.nodeRefs]))
  | createNodeWithLabels labels => exact ht.simulates_createNode o labels hproper hfits
  | createEdge p q label =>
    exact ht.simulates_createEdge o (hnodes p (by simp [BackendCall.nodeRefs]))
      (hnodes q (by simp [BackendCall.nodeRefs])) label hproper hfits
  | deleteNode p => exact (ht.simulates_delete o).1 (hnodes p (by simp [BackendCall.nodeRefs]))
  | deleteEdge p => exact (ht.simulates_delete o).2 (hedges p (by simp [BackendCall.edgeRefs]))
  | setNodeProperty p key value =>
    exact (ht.simulates_modify o).1 key value (hnodes p (by simp [BackendCall.nodeRefs]))
  | removeNodeProperty p key =>
    exact (ht.simulates_modify o).2.1 key (hnodes p (by simp [BackendCall.nodeRefs]))
  | addNodeLabel p label =>
    exact (ht.simulates_modify o).2.2.2.2.1 label (hnodes p (by simp [BackendCall.nodeRefs])) hproper
  | removeNodeLabel p label =>
    exact (ht.simulates_modify o).2.2.2.2.2 label (hnodes p (by simp [BackendCall.nodeRefs]))
  | setEdgeProperty p key value =>
    exact (ht.simulates_modify o).2.2.1 key value (hedges p (by simp [BackendCall.edgeRefs]))
  | removeEdgeProperty p key =>
    exact (ht.simulates_modify o).2.2.2.1 key (hedges p (by simp [BackendCall.edgeRefs]))
  | restoreNode p labels =>
    exact ht.simulates_restoreNode o (hnodes p (by simp [BackendCall.nodeRefs])) labels hproper hfits
  | restoreEdge e p q label =>
    exact ht.simulates_restoreEdge o (hedges e (by simp [BackendCall.edgeRefs]))
      (hnodes p (by simp [BackendCall.nodeRefs])) (hnodes q (by simp [BackendCall.nodeRefs])) label
      hproper hfits

/-- A call that returns leaves the graphs it computed. -/
lemma eq_of_step {t t' : Twin} {c : Call} (h : step (some t) c = some t') :
    (t.exec c).slot.Fits ∧ t.exec c = t' := by
  simp only [step, Option.bind_some] at h
  split at h
  · next hfits => exact ⟨hfits, Option.some.inj h⟩
  · cases h

/-- The invariant along a run of allowed calls. -/
lemma inv_of_along {calls : List Call} (hall : Along step Allowed (some new) calls) :
    ∀ t ∈ calls.foldl step (some new), t.Inv := by
  have hstep : ∀ (s : Option Twin) (c : Call), (∀ t ∈ s, t.Inv) → Allowed s c →
      ∀ t ∈ step s c, t.Inv := by
    intro s c hs hc t' ht'
    cases s with
    | none => cases ht'
    | some t =>
      obtain ⟨hfits, rfl⟩ := eq_of_step ht'
      exact ((hs t rfl).simulates hc hfits).1
  refine inv_foldl hstep ?_ hall
  rintro t ht
  rw [← Option.some.inj ht]
  exact inv_new

end Twin

/-- In a run of allowed calls the two backends return the same, call by call, up to a renaming that is
one-to-one at every moment. -/
theorem backends_agree {calls : List Twin.Call} (hall : Along Twin.step Twin.Allowed (some .new) calls)
    {pre : List Twin.Call} {c : Twin.Call} (hpre : pre ++ [c] <+: calls) {t t' : Twin}
    (ht : pre.foldl Twin.step (some .new) = some t) (ht' : Twin.step (some t) c = some t') :
    t.Agrees c := by
  obtain ⟨rest, rfl⟩ := hpre
  rw [List.append_assoc, along_append] at hall
  obtain ⟨hbefore, hc⟩ := hall
  rw [ht] at hc
  obtain ⟨hfits, rfl⟩ := Twin.eq_of_step ht'
  obtain ⟨hinv, hsame⟩ := (Twin.inv_of_along hbefore t ht).simulates hc.1 hfits
  exact ⟨known_biUnique hinv.renamed.nodeUnique, known_biUnique hinv.renamed.edgeUnique, hsame⟩

/-- A node is created, deleted, restored under its id, and counted. -/
def sampleTwinCalls : List Twin.Call :=
  [(.createNodeWithLabels ["A"], .listed, .listed), (.deleteNode (0, 0), .listed, .listed),
    (.restoreNode (0, 0) ["B"], .listed, .listed), (.nodeCount, .listed, .listed)]

/-- The two backends agree on the last call of the sample. -/
theorem backends_agree_sample : ∃ t : Twin,
    (sampleTwinCalls.take 3).foldl Twin.step (some .new) = some t ∧
      t.Agrees (.nodeCount, .listed, .listed) := by
  refine ⟨_, rfl, ?_⟩
  have hall : Along Twin.step Twin.Allowed (some .new) sampleTwinCalls := by
    refine ⟨?_, ?_, ?_, ?_, trivial⟩
    · intro t ht
      obtain rfl := Option.some.inj ht
      have hnext : Twin.new.conc.nextNodeId ≠ maxId := by decide
      exact ⟨by simp [BackendCall.nodeRefs], by simp [BackendCall.edgeRefs], hnext⟩
    · intro t ht
      obtain rfl := Option.some.inj ht
      refine ⟨?_, by simp [BackendCall.edgeRefs], trivial⟩
      intro p hp
      rw [List.mem_singleton.mp hp]
      exact .inl rfl
    · intro t ht
      obtain rfl := Option.some.inj ht
      refine ⟨?_, by simp [BackendCall.edgeRefs], rfl⟩
      intro p hp
      rw [List.mem_singleton.mp hp]
      exact .inl rfl
    · intro t ht
      exact ⟨by simp [BackendCall.nodeRefs], by simp [BackendCall.edgeRefs], trivial⟩
  have hpre : sampleTwinCalls.take 3 ++ [(.nodeCount, .listed, .listed)] <+: sampleTwinCalls :=
    List.prefix_refl _
  exact backends_agree hall hpre rfl rfl

/-- The ids of a call are results of earlier calls, or issued by neither side. -/
def Twin.Issued (s : Option Twin) (c : Twin.Call) : Prop :=
  ∀ t ∈ s, (∀ p ∈ c.1.nodeRefs, p ∈ t.nodes ∨ p.1 = p.2 ∧ ∀ q ∈ t.nodes, q.1 ≠ p.1 ∧ q.2 ≠ p.1) ∧
    ∀ p ∈ c.1.edgeRefs, p ∈ t.edges ∨ p.1 = p.2 ∧ ∀ q ∈ t.edges, q.1 ≠ p.1 ∧ q.2 ≠ p.1

/-- A node is created and deleted, its slot is handed out again, and the first node is restored. -/
def reuseTwinCalls : List Twin.Call :=
  [(.createNodeWithLabels [], .listed, .listed), (.deleteNode (0, 0), .listed, .listed),
    (.createNodeWithLabels [], .listed, .listed), (.restoreNode (0, 0) [], .listed, .listed),
    (.nodeCount, .listed, .listed)]

/-- Then the slot graph has one node, and the concurrent graph two. -/
theorem backends_differ_after_reuse :
    ¬∀ (calls : List Twin.Call), Along Twin.step Twin.Issued (some .new) calls →
      ∀ (pre : List Twin.Call) (c : Twin.Call), pre ++ [c] <+: calls →
        ∀ t, pre.foldl Twin.step (some .new) = some t →
          ∃ ν ε, SameAnswer ν ε (t.slotExec c).2 (t.concExec c).2 := by
  intro hclaim
  have hzero : ∀ (p : UInt64 × UInt64) (l : List (UInt64 × UInt64)), p ∈ [(0, 0)] → (0, 0) ∈ l →
      p ∈ l ∨ p.1 = p.2 ∧ ∀ q ∈ l, q.1 ≠ p.1 ∧ q.2 ≠ p.1 := by
    intro p l hp hl
    rw [List.mem_singleton.mp hp]
    exact .inl hl
  have hissued : Along Twin.step Twin.Issued (some .new) reuseTwinCalls := by
    refine ⟨?_, ?_, ?_, ?_, ?_, trivial⟩ <;> intro t ht <;> obtain rfl := Option.some.inj ht
    · exact ⟨by simp [BackendCall.nodeRefs], by simp [BackendCall.edgeRefs]⟩
    · exact ⟨fun p hp => hzero p _ hp (by decide), by simp [BackendCall.edgeRefs]⟩
    · exact ⟨by simp [BackendCall.nodeRefs], by simp [BackendCall.edgeRefs]⟩
    · exact ⟨fun p hp => hzero p _ hp (by decide), by simp [BackendCall.edgeRefs]⟩
    · exact ⟨by simp [BackendCall.nodeRefs], by simp [BackendCall.edgeRefs]⟩
  have hpre : reuseTwinCalls.take 4 ++ [(.nodeCount, .listed, .listed)] <+: reuseTwinCalls :=
    List.prefix_refl _
  obtain ⟨ν, ε, hsame⟩ := hclaim reuseTwinCalls hissued _ _ hpre _ rfl
  have hdiffer : ∀ x y, x = Answer.count 1 → y = Answer.count 2 → ¬SameAnswer ν ε x y := by
    rintro x y rfl rfl h
    cases h
  exact hdiffer _ _ rfl rfl hsame

end Maharit
