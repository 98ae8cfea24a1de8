import MaharitDb.Core.ConcurrentGraph
import MaharitDb.Lib.PropertyGraph

/-!
# What the concurrent graph stores

The abstraction function `ConcurrentGraph.content` forgets the adjacency maps, the label index and
the id counters.  `Consistent` says that those auxiliary maps describe exactly the stored elements.
Each writing operation keeps a consistent graph consistent and acts on the content as the
corresponding operation of `PropertyGraph` does; the only proviso is that an element is not stored
under an id already in use.
-/

namespace Maharit

/-- The abstract content of a graph. -/
abbrev GraphContent := PropertyGraph NodeId EdgeId String String PropertyValue

/-- The content of a node: the order and the multiplicity of its labels are forgotten. -/
def Node.content (n : Node) : NodeData String String PropertyValue where
  labels := {l | l ∈ n.labels}
  props := fun k => n.properties.lookup k

/-- The content of an edge. -/
def Edge.content (e : Edge) : EdgeData NodeId String String PropertyValue where
  label := e.label
  src := e.fromNode
  dst := e.toNode
  props := fun k => e.properties.lookup k

namespace Node

lemma content_setProperty (n : Node) (key : String) (value : PropertyValue) :
    (n.setProperty key value).content =
      { n.content with props := Function.update n.content.props key (some value) } := by
  ext1
  · rfl
  · funext k
    simp [content, setProperty, HashMap.lookup_insert_ite, Function.update_apply]

lemma content_removeProperty (n : Node) (key : String) :
    (n.removeProperty key).content =
      { n.content with props := Function.update n.content.props key none } := by
  ext1
  · rfl
  · funext k
    simp [content, removeProperty, HashMap.lookup_erase_ite, Function.update_apply]

lemma mem_labels_addLabel (n : Node) {label : String} (h : label ≠ "") (l : String) :
    l ∈ (n.addLabel label).labels ↔ l = label ∨ l ∈ n.labels := by
  unfold addLabel
  split
  · simp [or_comm]
  · rename_i hnot
    have hmem : label ∈ n.labels := by
      by_contra hno
      exact hnot ⟨h, hno⟩
    constructor
    · exact Or.inr
    · rintro (rfl | hl)
      · exact hmem
      · exact hl

lemma content_addLabel (n : Node) {label : String} (h : label ≠ "") :
    (n.addLabel label).content = { n.content with labels := insert label n.content.labels } := by
  ext1
  · ext l
    simp [content, mem_labels_addLabel n h]
  · funext k
    unfold addLabel
    split <;> rfl

lemma content_removeLabel (n : Node) (label : String) :
    (n.removeLabel label).content = { n.content with labels := n.content.labels \ {label} } := by
  ext1
  · ext l
    simp [content, removeLabel]
  · rfl

@[simp] lemma addLabel_id (n : Node) (label : String) : (n.addLabel label).id = n.id := by
  unfold addLabel
  split <;> rfl

end Node

namespace Edge

lemma content_setProperty (e : Edge) (key : String) (value : PropertyValue) :
    (e.setProperty key value).content =
      { e.content with props := Function.update e.content.props key (some value) } := by
  ext1
  · rfl
  · rfl
  · rfl
  · funext k
    simp [content, setProperty, HashMap.lookup_insert_ite, Function.update_apply]

lemma content_removeProperty (e : Edge) (key : String) :
    (e.removeProperty key).content =
      { e.content with props := Function.update e.content.props key none } := by
  ext1
  · rfl
  · rfl
  · rfl
  · funext k
    simp [content, removeProperty, HashMap.lookup_erase_ite, Function.update_apply]

end Edge

namespace ConcurrentGraph

/-- The stored nodes and edges, without the auxiliary maps. -/
def content (g : ConcurrentGraph) : GraphContent where
  nodes := fun id => (g.nodes.lookup id).map Node.content
  edges := fun id => (g.edges.lookup id).map Edge.content

/-- The auxiliary maps describe exactly the stored nodes and edges. -/
structure Consistent (g : ConcurrentGraph) : Prop where
  /-- A node knows the id it is stored under. -/
  node_id : ∀ id n, g.nodes.lookup id = some n → n.id = id
  /-- An edge knows the id it is stored under. -/
  edge_id : ∀ id e, g.edges.lookup id = some e → e.id = id
  /-- Both endpoints of a live edge are live. -/
  endpoints : ∀ id e, g.edges.lookup id = some e → e.fromNode ∈ g.nodes ∧ e.toNode ∈ g.nodes
  /-- The outgoing sets list the live edges by source. -/
  outgoing : ∀ n id, id ∈ HashMap.getDefault g.outgoing n ↔
    ∃ e, g.edges.lookup id = some e ∧ e.fromNode = n
  /-- The incoming sets list the live edges by target. -/
  incoming : ∀ n id, id ∈ HashMap.getDefault g.incoming n ↔
    ∃ e, g.edges.lookup id = some e ∧ e.toNode = n
  /-- The label index lists the live nodes by label. -/
  labelIndex : ∀ l id, id ∈ HashMap.getDefault g.labelIndex l ↔
    ∃ n, g.nodes.lookup id = some n ∧ l ∈ n.labels

/-- The empty graph is consistent. -/
theorem consistent_new : new.Consistent := by
  constructor <;> intros <;> simp_all [new]

/-- The content of a consistent graph has no dangling edge. -/
theorem Consistent.closed {g : ConcurrentGraph} (hg : g.Consistent) : g.content.Closed := by
  intro id d hd
  simp only [content, Option.map_eq_some_iff] at hd
  obtain ⟨e, he, rfl⟩ := hd
  have hends := hg.endpoints id e he
  simp only [content, Edge.content, Option.isSome_map]
  exact ⟨AList.lookup_isSome.mpr hends.1, AList.lookup_isSome.mpr hends.2⟩

/-- The live nodes can be read off the content. -/
lemma content_nodes_isSome {g : ConcurrentGraph} {id : NodeId} :
    (g.content.nodes id).isSome ↔ id ∈ g.nodes := by
  simp [content, AList.lookup_isSome]

/-- The live edges can be read off the content. -/
lemma content_edges_isSome {g : ConcurrentGraph} {id : EdgeId} :
    (g.content.edges id).isSome ↔ id ∈ g.edges := by
  simp [content, AList.lookup_isSome]

lemma Consistent.mem_outgoing_iff {g : ConcurrentGraph} (hg : g.Consistent) {n : NodeId}
    {e : EdgeId} :
    e ∈ HashMap.getDefault g.outgoing n ↔ ∃ d, g.content.edges e = some d ∧ d.src = n := by
  simp [hg.outgoing, content, Edge.content]

lemma Consistent.mem_incoming_iff {g : ConcurrentGraph} (hg : g.Consistent) {n : NodeId}
    {e : EdgeId} :
    e ∈ HashMap.getDefault g.incoming n ↔ ∃ d, g.content.edges e = some d ∧ d.dst = n := by
  simp [hg.incoming, content, Edge.content]

lemma Consistent.mem_labelIndex_iff {g : ConcurrentGraph} (hg : g.Consistent) {l : String}
    {n : NodeId} :
    n ∈ HashMap.getDefault g.labelIndex l ↔ ∃ d, g.content.nodes n = some d ∧ l ∈ d.labels := by
  simp [hg.labelIndex, content, Node.content]

lemma content_nodes_eq_none {g : ConcurrentGraph} {id : NodeId} (h : id ∉ g.nodes) :
    g.content.nodes id = none := by
  simp [content, AList.lookup_eq_none.mpr h]

lemma content_edges_eq_none {g : ConcurrentGraph} {id : EdgeId} (h : id ∉ g.edges) :
    g.content.edges id = none := by
  simp [content, AList.lookup_eq_none.mpr h]

/-! ## Storing a node -/

/-- Membership in the label index after `id` was registered under `labels`. -/
lemma mem_labelIndexAdd (g : ConcurrentGraph) (id : NodeId) (labels : List String) (l : String)
    (n : NodeId) :
    n ∈ HashMap.getDefault (g.labelIndexAdd id labels).labelIndex l ↔
      n = id ∧ l ∈ labels ∨ n ∈ HashMap.getDefault g.labelIndex l :=
  HashSet.mem_foldl_modifyDefault_add g.labelIndex labels l id n

/-- Membership in the label index after `id` was removed from `labels`. -/
lemma mem_labelIndexRemove (g : ConcurrentGraph) (id : NodeId) (labels : List String) (l : String)
    (n : NodeId) :
    n ∈ HashMap.getDefault (g.labelIndexRemove id labels).labelIndex l ↔
      ¬ (n = id ∧ l ∈ labels) ∧ n ∈ HashMap.getDefault g.labelIndex l := by
  unfold labelIndexRemove
  generalize g.labelIndex = ix
  induction labels generalizing ix with
  | nil => simp
  | cons a labels ih =>
    rw [List.foldl_cons, ih, HashSet.mem_modify_remove, List.mem_cons]
    tauto

/-- No edge of a consistent graph touches an id that is not in use. -/
lemma Consistent.not_mem_outgoing {g : ConcurrentGraph} (hg : g.Consistent) {id : NodeId}
    (hid : id ∉ g.nodes) (e : EdgeId) : e ∉ HashMap.getDefault g.outgoing id := by
  rw [hg.outgoing]
  rintro ⟨c, hc, rfl⟩
  exact hid (hg.endpoints e c hc).1

lemma Consistent.not_mem_incoming {g : ConcurrentGraph} (hg : g.Consistent) {id : NodeId}
    (hid : id ∉ g.nodes) (e : EdgeId) : e ∉ HashMap.getDefault g.incoming id := by
  rw [hg.incoming]
  rintro ⟨c, hc, rfl⟩
  exact hid (hg.endpoints e c hc).2

/-- A graph that differs from a consistent one by a new node under an unused id, registered in the
label index, is consistent. -/
lemma Consistent.insertNode {g g' : ConcurrentGraph} (hg : g.Consistent) {id : NodeId}
    (hid : id ∉ g.nodes) {n : Node} (hn : n.id = id)
    (hnodes : g'.nodes = g.nodes.insert id n) (hedges : g'.edges = g.edges)
    (hout : ∀ m e, e ∈ HashMap.getDefault g'.outgoing m ↔ e ∈ HashMap.getDefault g.outgoing m)
    (hinc : ∀ m e, e ∈ HashMap.getDefault g'.incoming m ↔ e ∈ HashMap.getDefault g.incoming m)
    (hix : ∀ l m, m ∈ HashMap.getDefault g'.labelIndex l ↔
      m = id ∧ l ∈ n.labels ∨ m ∈ HashMap.getDefault g.labelIndex l) : g'.Consistent where
  node_id := by
    intro m d hd
    rw [hnodes, HashMap.lookup_insert_ite] at hd
    split at hd
    · rename_i hm
      cases hd
      rw [hn, hm]
    · exact hg.node_id m d hd
  edge_id := by
    rw [hedges]
    exact hg.edge_id
  endpoints := by
    intro e c hc
    rw [hedges] at hc
    have hends := hg.endpoints e c hc
    rw [hnodes]
    exact ⟨(AList.mem_insert _).mpr (Or.inr hends.1), (AList.mem_insert _).mpr (Or.inr hends.2)⟩
  outgoing := by
    intro m e
    rw [hout, hedges]
    exact hg.outgoing m e
  incoming := by
    intro m e
    rw [hinc, hedges]
    exact hg.incoming m e
  labelIndex := by
    intro l m
    rw [hix, hnodes, hg.labelIndex, HashMap.lookup_insert_ite]
    by_cases hm : m = id
    · subst hm
      have hnone : g.nodes.lookup m = none := AList.lookup_eq_none.mpr hid
      simp [hnone]
    · simp [hm]

/-- Creating a node puts it into the content. -/
theorem content_createNodeWithLabels (g : ConcurrentGraph) (labels : List String) :
    (g.createNodeWithLabels labels).1.content =
      g.content.putNode g.nextNodeId ⟨{l | l ∈ labels}, fun _ => none⟩ := by
  ext1
  · funext id
    simp only [createNodeWithLabels, labelIndexAdd, content, PropertyGraph.putNode,
      HashMap.lookup_insert_ite, Function.update_apply]
    split <;> rfl
  · rfl

/-- Creating a node under an unused id keeps the graph consistent. -/
theorem Consistent.createNodeWithLabels {g : ConcurrentGraph} (hg : g.Consistent)
    (hid : g.nextNodeId ∉ g.nodes) (labels : List String) :
    (g.createNodeWithLabels labels).1.Consistent := by
  refine hg.insertNode hid (n := ⟨g.nextNodeId, labels, ∅⟩) rfl rfl rfl ?_ ?_ ?_
  · intro m e
    simp only [ConcurrentGraph.createNodeWithLabels, labelIndexAdd, HashMap.getDefault_insert]
    split
    · rename_i hm
      simp [hm, hg.not_mem_outgoing hid e]
    · rfl
  · intro m e
    simp only [ConcurrentGraph.createNodeWithLabels, labelIndexAdd, HashMap.getDefault_insert]
    split
    · rename_i hm
      simp [hm, hg.not_mem_incoming hid e]
    · rfl
  · exact fun l m => mem_labelIndexAdd _ _ _ l m

/-- Storing a node under a chosen id puts it into the content. -/
theorem content_createNodeWithIdAndLabels (g : ConcurrentGraph) (id : NodeId)
    (labels : List String) :
    (g.createNodeWithIdAndLabels id labels).1.content =
      g.content.putNode id ⟨{l | l ∈ labels}, fun _ => none⟩ := by
  ext1
  · funext m
    simp only [createNodeWithIdAndLabels, labelIndexAdd, content, PropertyGraph.putNode,
      HashMap.lookup_insert_ite, Function.update_apply]
    split <;> rfl
  · rfl

/-- Storing a node under an unused chosen id keeps the graph consistent. -/
theorem Consistent.createNodeWithIdAndLabels {g : ConcurrentGraph} (hg : g.Consistent)
    {id : NodeId} (hid : id ∉ g.nodes) (labels : List String) :
    (g.createNodeWithIdAndLabels id labels).1.Consistent := by
  refine hg.insertNode hid (n := ⟨id, labels, ∅⟩) rfl rfl rfl ?_ ?_ ?_
  · intro m e
    simp [ConcurrentGraph.createNodeWithIdAndLabels, labelIndexAdd]
  · intro m e
    simp [ConcurrentGraph.createNodeWithIdAndLabels, labelIndexAdd]
  · exact fun l m => mem_labelIndexAdd _ _ _ l m

/-! ## Storing and removing an edge -/

lemma content_insertEdge (g : ConcurrentGraph) (id : EdgeId) (fromNode toNode : NodeId)
    (label : String) :
    (g.insertEdge id fromNode toNode label).content =
      g.content.putEdge id ⟨label, fromNode, toNode, fun _ => none⟩ := by
  ext1
  · rfl
  · funext e
    simp only [insertEdge, content, PropertyGraph.putEdge, HashMap.lookup_insert_ite,
      Function.update_apply]
    split <;> rfl

/-- Storing an edge between live nodes under an unused id keeps the graph consistent. -/
lemma Consistent.insertEdge {g : ConcurrentGraph} (hg : g.Consistent) {id : EdgeId}
    (hid : id ∉ g.edges) {fromNode toNode : NodeId} (hfrom : fromNode ∈ g.nodes)
    (hto : toNode ∈ g.nodes) (label : String) :
    (g.insertEdge id fromNode toNode label).Consistent := by
  have hnone : g.edges.lookup id = none := AList.lookup_eq_none.mpr hid
  refine ⟨hg.node_id, ?_, ?_, ?_, ?_, hg.labelIndex⟩
  · intro e c hc
    simp only [ConcurrentGraph.insertEdge, HashMap.lookup_insert_ite] at hc
    split at hc
    · rename_i he
      cases hc
      exact he.symm
    · exact hg.edge_id e c hc
  · intro e c hc
    simp only [ConcurrentGraph.insertEdge, HashMap.lookup_insert_ite] at hc
    split at hc
    · cases hc
      exact ⟨hfrom, hto⟩
    · exact hg.endpoints e c hc
  · intro m e
    simp only [ConcurrentGraph.insertEdge, HashSet.mem_modifyDefault_add, hg.outgoing,
      HashMap.lookup_insert_ite]
    by_cases he : e = id
    · subst he
      simpa [hnone] using eq_comm
    · simp [he]
  · intro m e
    simp only [ConcurrentGraph.insertEdge, HashSet.mem_modifyDefault_add, hg.incoming,
      HashMap.lookup_insert_ite]
    by_cases he : e = id
    · subst he
      simpa [hnone] using eq_comm
    · simp [he]

/-- The id counters take no part in consistency. -/
lemma Consistent.withCounters {g : ConcurrentGraph} (hg : g.Consistent) (a b : UInt64) :
    ({ g with nextNodeId := a, nextEdgeId := b } : ConcurrentGraph).Consistent :=
  ⟨hg.node_id, hg.edge_id, hg.endpoints, hg.outgoing, hg.incoming, hg.labelIndex⟩

/-- Creating an edge between live nodes under an unused id keeps the graph consistent. -/
theorem Consistent.createEdge {g : ConcurrentGraph} (hg : g.Consistent) (fromNode toNode : NodeId)
    (label : String) (hid : fromNode ∈ g.nodes → toNode ∈ g.nodes → g.nextEdgeId ∉ g.edges) :
    (g.createEdge fromNode toNode label).1.Consistent := by
  unfold ConcurrentGraph.createEdge
  split
  · exact hg
  · rename_i hfrom
    split
    · exact hg
    · rename_i hto
      rw [not_not] at hfrom hto
      exact (hg.withCounters g.nextNodeId (g.nextEdgeId + 1)).insertEdge (hid hfrom hto) hfrom hto
        label

/-- Storing an edge under an unused chosen id keeps the graph consistent. -/
theorem Consistent.createEdgeWithId {g : ConcurrentGraph} (hg : g.Consistent) {id : EdgeId}
    (hid : id ∉ g.edges) (fromNode toNode : NodeId) (label : String) :
    (g.createEdgeWithId id fromNode toNode label).1.Consistent := by
  unfold ConcurrentGraph.createEdgeWithId
  split
  · exact hg
  · rename_i hfrom
    split
    · exact hg
    · rename_i hto
      rw [not_not] at hfrom hto
      exact (hg.withCounters g.nextNodeId (advance g.nextEdgeId id)).insertEdge hid hfrom hto label

/-- Removing an edge removes it from the content. -/
theorem content_deleteEdge (g : ConcurrentGraph) (id : EdgeId) :
    (g.deleteEdge id).1.content = g.content.deleteEdge id := by
  unfold deleteEdge
  cases hc : g.edges.lookup id with
  | none =>
    ext1
    · rfl
    · simp [content, PropertyGraph.deleteEdge, hc]
  | some c =>
    ext1
    · rfl
    · funext e
      simp only [content, PropertyGraph.deleteEdge, HashMap.lookup_erase_ite,
        Function.update_apply]
      split <;> rfl

/-- Removing an edge keeps the graph consistent. -/
theorem Consistent.deleteEdge {g : ConcurrentGraph} (hg : g.Consistent) (id : EdgeId) :
    (g.deleteEdge id).1.Consistent := by
  unfold ConcurrentGraph.deleteEdge
  cases hc : g.edges.lookup id with
  | none => exact hg
  | some c =>
    refine ⟨hg.node_id, ?_, ?_, ?_, ?_, hg.labelIndex⟩
    · intro e d hd
      simp only [HashMap.lookup_erase_ite] at hd
      split at hd
      · cases hd
      · exact hg.edge_id e d hd
    · intro e d hd
      simp only [HashMap.lookup_erase_ite] at hd
      split at hd
      · cases hd
      · exact hg.endpoints e d hd
    · intro m e
      simp only [HashSet.mem_modify_remove, hg.outgoing, HashMap.lookup_erase_ite]
      by_cases he : e = id
      · subst he
        simpa [hc] using fun hm => Ne.symm hm
      · simp [he]
    · intro m e
      simp only [HashSet.mem_modify_remove, hg.incoming, HashMap.lookup_erase_ite]
      by_cases he : e = id
      · subst he
        simpa [hc] using fun hm => Ne.symm hm
      · simp [he]

/-! ## Removing a node -/

/-- What the loop over the outgoing ids of a deleted node leaves behind: the listed edges are gone,
also from the incoming sets of their targets, and nothing else has changed. -/
structure DropsOutgoing (g g' : ConcurrentGraph) (es : List EdgeId) : Prop where
  nodes : g'.nodes = g.nodes
  labelIndex : g'.labelIndex = g.labelIndex
  outgoing : g'.outgoing = g.outgoing
  edges : ∀ e, g'.edges.lookup e = if e ∈ es then none else g.edges.lookup e
  incoming : ∀ m e, e ∈ HashMap.getDefault g'.incoming m ↔
    e ∈ HashMap.getDefault g.incoming m ∧
      ¬ (e ∈ es ∧ ∃ c, g.edges.lookup e = some c ∧ c.toNode = m)

lemma dropsOutgoing_foldl (g : ConcurrentGraph) (es : List EdgeId) :
    DropsOutgoing g (es.foldl dropOutgoing g) es := by
  induction es generalizing g with
  | nil => exact ⟨rfl, rfl, rfl, by simp, by simp⟩
  | cons a es ih =>
    have step := ih (dropOutgoing g a)
    rw [List.foldl_cons]
    unfold dropOutgoing at step ⊢
    cases ha : g.edges.lookup a with
    | none =>
      simp only [ha] at step ⊢
      refine ⟨step.nodes, step.labelIndex, step.outgoing, ?_, ?_⟩
      · intro e
        rw [step.edges]
        by_cases he : e = a
        · subst he
          simp [ha]
        · simp [he]
      · intro m e
        rw [step.incoming]
        by_cases he : e = a
        · subst he
          simp [ha]
        · simp [he]
    | some c =>
      simp only [ha] at step ⊢
      refine ⟨step.nodes, step.labelIndex, step.outgoing, ?_, ?_⟩
      · intro e
        rw [step.edges]
        by_cases he : e = a
        · subst he
          simp
        · simp [he]
      · intro m e
        rw [step.incoming]
        simp only [HashSet.mem_modify_remove, HashMap.lookup_erase_ite]
        by_cases he : e = a
        · subst he
          simp only [ha, List.mem_cons, true_or, true_and]
          simp [and_comm, eq_comm]
        · simp [he]

/-- What the loop over the incoming ids of a deleted node leaves behind. -/
structure DropsIncoming (g g' : ConcurrentGraph) (es : List EdgeId) : Prop where
  nodes : g'.nodes = g.nodes
  labelIndex : g'.labelIndex = g.labelIndex
  incoming : g'.incoming = g.incoming
  edges : ∀ e, g'.edges.lookup e = if e ∈ es then none else g.edges.lookup e
  outgoing : ∀ m e, e ∈ HashMap.getDefault g'.outgoing m ↔
    e ∈ HashMap.getDefault g.outgoing m ∧
      ¬ (e ∈ es ∧ ∃ c, g.edges.lookup e = some c ∧ c.fromNode = m)

lemma dropsIncoming_foldl (g : ConcurrentGraph) (es : List EdgeId) :
    DropsIncoming g (es.foldl dropIncoming g) es := by
  induction es generalizing g with
  | nil => exact ⟨rfl, rfl, rfl, by simp, by simp⟩
  | cons a es ih =>
    have step := ih (dropIncoming g a)
    rw [List.foldl_cons]
    unfold dropIncoming at step ⊢
    cases ha : g.edges.lookup a with
    | none =>
      simp only [ha] at step ⊢
      refine ⟨step.nodes, step.labelIndex, step.incoming, ?_, ?_⟩
      · intro e
        rw [step.edges]
        by_cases he : e = a
        · subst he
          simp [ha]
        · simp [he]
      · intro m e
        rw [step.outgoing]
        by_cases he : e = a
        · subst he
          simp [ha]
        · simp [he]
    | some c =>
      simp only [ha] at step ⊢
      refine ⟨step.nodes, step.labelIndex, step.incoming, ?_, ?_⟩
      · intro e
        rw [step.edges]
        by_cases he : e = a
        · subst he
          simp
        · simp [he]
      · intro m e
        rw [step.outgoing]
        simp only [HashSet.mem_modify_remove, HashMap.lookup_erase_ite]
        by_cases he : e = a
        · subst he
          simp only [ha, List.mem_cons, true_or, true_and]
          simp [and_comm, eq_comm]
        · simp [he]

/-- What deleting a live node leaves behind. -/
structure DeletesNode (g g' : ConcurrentGraph) (id : NodeId) : Prop where
  nodes : g'.nodes = g.nodes.erase id
  edges : ∀ e, g'.edges.lookup e =
    (g.edges.lookup e).filter fun c => c.fromNode ≠ id ∧ c.toNode ≠ id
  outgoing : ∀ m e, e ∈ HashMap.getDefault g'.outgoing m ↔
    ∃ c, g'.edges.lookup e = some c ∧ c.fromNode = m
  incoming : ∀ m e, e ∈ HashMap.getDefault g'.incoming m ↔
    ∃ c, g'.edges.lookup e = some c ∧ c.toNode = m
  labelIndex : ∀ l m, m ∈ HashMap.getDefault g'.labelIndex l ↔
    m ≠ id ∧ m ∈ HashMap.getDefault g.labelIndex l

/-- Deleting a live node of a consistent graph removes the node, its incident edges, and every
trace of them in the auxiliary maps. -/
lemma Consistent.deletesNode {g : ConcurrentGraph} (hg : g.Consistent) {id : NodeId} {n : Node}
    (hn : g.nodes.lookup id = some n) : DeletesNode g (g.deleteNode id).1 id := by
  unfold ConcurrentGraph.deleteNode
  simp only [hn]
  -- `g₁` is the graph without the node, `g₂` the one without its outgoing edges.
  set g₁ := labelIndexRemove { g with nodes := g.nodes.erase id } id n.labels with hg₁
  have hout₁ : g₁.outgoing = g.outgoing := rfl
  have hin₁ : g₁.incoming = g.incoming := rfl
  have hedges₁ : g₁.edges = g.edges := rfl
  have houtIds : ∀ e, e ∈ (HashMap.getDefault g₁.outgoing id).toList ↔
      ∃ c, g.edges.lookup e = some c ∧ c.fromNode = id := by
    intro e
    rw [HashSet.mem_toList, hout₁, hg.outgoing]
  have d₁ : DropsOutgoing { g₁ with outgoing := g₁.outgoing.erase id } (g₁.takeOutgoing id)
      (HashMap.getDefault g₁.outgoing id).toList := dropsOutgoing_foldl _ _
  set g₂ := g₁.takeOutgoing id
  have hedges₂ : ∀ e c, g₂.edges.lookup e = some c ↔
      g.edges.lookup e = some c ∧ c.fromNode ≠ id := by
    intro e c
    rw [d₁.edges]
    change (if e ∈ (HashMap.getDefault g₁.outgoing id).toList then none
      else g.edges.lookup e) = some c ↔ _
    split
    · rename_i he
      obtain ⟨c', hc', hfrom⟩ := (houtIds e).mp he
      simp only [reduceCtorEq, hc', Option.some.injEq, false_iff, not_and, not_not]
      rintro rfl
      exact hfrom
    · rename_i he
      refine ⟨fun hc => ⟨hc, fun hfrom => he ((houtIds e).mpr ⟨c, hc, hfrom⟩)⟩, fun hc => hc.1⟩
  have hinIds : ∀ m e, e ∈ HashMap.getDefault g₂.incoming m ↔
      ∃ c, g₂.edges.lookup e = some c ∧ c.toNode = m := by
    intro m e
    rw [d₁.incoming]
    change (e ∈ HashMap.getDefault g.incoming m ∧ ¬ (e ∈ (HashMap.getDefault g₁.outgoing id).toList ∧
      ∃ c, g.edges.lookup e = some c ∧ c.toNode = m)) ↔ _
    rw [houtIds, hg.incoming]
    constructor
    · rintro ⟨⟨c, hc, hto⟩, hnot⟩
      refine ⟨c, (hedges₂ e c).mpr ⟨hc, fun hfrom => hnot ⟨⟨c, hc, hfrom⟩, c, hc, hto⟩⟩, hto⟩
    · rintro ⟨c, hc, hto⟩
      obtain ⟨hc, hfrom⟩ := (hedges₂ e c).mp hc
      refine ⟨⟨c, hc, hto⟩, ?_⟩
      rintro ⟨⟨c', hc', hfrom'⟩, -⟩
      rw [hc] at hc'
      cases hc'
      exact hfrom hfrom'
  have d₂ : DropsIncoming { g₂ with incoming := g₂.incoming.erase id } (g₂.takeIncoming id)
      (HashMap.getDefault g₂.incoming id).toList := dropsIncoming_foldl _ _
  set g₃ := g₂.takeIncoming id
  have hedges₃ : ∀ e c, g₃.edges.lookup e = some c ↔
      g.edges.lookup e = some c ∧ c.fromNode ≠ id ∧ c.toNode ≠ id := by
    intro e c
    rw [d₂.edges]
    change (if e ∈ (HashMap.getDefault g₂.incoming id).toList then none
      else g₂.edges.lookup e) = some c ↔ _
    split
    · rename_i he
      obtain ⟨c', hc', hto⟩ := (hinIds id e).mp ((HashSet.mem_toList _ _).mp he)
      obtain ⟨hc', -⟩ := (hedges₂ e c').mp hc'
      simp only [reduceCtorEq, hc', Option.some.injEq, false_iff, not_and, not_not]
      rintro rfl -
      exact hto
    · rename_i he
      rw [hedges₂]
      constructor
      · rintro ⟨hc, hfrom⟩
        refine ⟨hc, hfrom, fun hto => he ?_⟩
        exact (HashSet.mem_toList _ _).mpr ((hinIds id e).mpr ⟨c, (hedges₂ e c).mpr ⟨hc, hfrom⟩, hto⟩)
      · exact fun hc => ⟨hc.1, hc.2.1⟩
  refine ⟨?_, ?_, ?_, ?_, ?_⟩
  · rw [d₂.nodes]
    exact d₁.nodes
  · intro e
    ext c
    rw [hedges₃]
    simp [Option.filter_eq_some_iff]
  · intro m e
    rw [d₂.outgoing]
    change (e ∈ HashMap.getDefault g₂.outgoing m ∧
      ¬ (e ∈ (HashMap.getDefault g₂.incoming id).toList ∧
        ∃ c, g₂.edges.lookup e = some c ∧ c.fromNode = m)) ↔ _
    rw [d₁.outgoing, HashSet.mem_toList, hinIds]
    simp only [HashMap.getDefault_erase, hout₁]
    constructor
    · rintro ⟨hmem, hnot⟩
      split at hmem
      · simp at hmem
      · rename_i hm
        obtain ⟨c, hc, rfl⟩ := (hg.outgoing m e).mp hmem
        refine ⟨c, (hedges₃ e c).mpr ⟨hc, hm, fun hto => hnot ?_⟩, rfl⟩
        exact ⟨⟨c, (hedges₂ e c).mpr ⟨hc, hm⟩, hto⟩, c, (hedges₂ e c).mpr ⟨hc, hm⟩, rfl⟩
    · rintro ⟨c, hc, rfl⟩
      obtain ⟨hc, hfrom, hto⟩ := (hedges₃ e c).mp hc
      refine ⟨?_, ?_⟩
      · rw [if_neg hfrom]
        exact (hg.outgoing _ e).mpr ⟨c, hc, rfl⟩
      · rintro ⟨⟨c', hc', hto'⟩, -⟩
        obtain ⟨hc', -⟩ := (hedges₂ e c').mp hc'
        rw [hc] at hc'
        cases hc'
        exact hto hto'
  · intro m e
    rw [d₂.incoming]
    simp only [HashMap.getDefault_erase]
    split
    · rename_i hm
      subst hm
      simp only [AList.notMem_empty, false_iff, not_exists, not_and]
      intro c hc
      exact ((hedges₃ e c).mp hc).2.2
    · rename_i hm
      rw [hinIds]
      constructor
      · rintro ⟨c, hc, rfl⟩
        obtain ⟨hc, hfrom⟩ := (hedges₂ e c).mp hc
        exact ⟨c, (hedges₃ e c).mpr ⟨hc, hfrom, hm⟩, rfl⟩
      · rintro ⟨c, hc, rfl⟩
        obtain ⟨hc, hfrom, -⟩ := (hedges₃ e c).mp hc
        exact ⟨c, (hedges₂ e c).mpr ⟨hc, hfrom⟩, rfl⟩
  · intro l m
    rw [d₂.labelIndex]
    change m ∈ HashMap.getDefault g₂.labelIndex l ↔ _
    rw [d₁.labelIndex]
    change m ∈ HashMap.getDefault g₁.labelIndex l ↔ _
    rw [hg₁, mem_labelIndexRemove]
    change ¬ (m = id ∧ l ∈ n.labels) ∧ m ∈ HashMap.getDefault g.labelIndex l ↔ _
    rw [hg.labelIndex]
    constructor
    · rintro ⟨hnot, d, hd, hl⟩
      refine ⟨?_, d, hd, hl⟩
      rintro rfl
      rw [hn] at hd
      cases hd
      exact hnot ⟨rfl, hl⟩
    · rintro ⟨hm, d, hd, hl⟩
      exact ⟨fun h => hm h.1, d, hd, hl⟩

/-- Deleting a node removes it and its incident edges from the content. -/
theorem Consistent.content_deleteNode {g : ConcurrentGraph} (hg : g.Consistent) (id : NodeId) :
    (g.deleteNode id).1.content = g.content.deleteNode id := by
  cases hn : g.nodes.lookup id with
  | none =>
    have hid : id ∉ g.nodes := AList.lookup_eq_none.mp hn
    have hsame : (g.deleteNode id).1 = g := by simp [deleteNode, hn]
    rw [hsame]
    ext1
    · simp [PropertyGraph.deleteNode, content_nodes_eq_none hid]
    · funext e
      simp only [content, PropertyGraph.deleteNode]
      cases he : g.edges.lookup e with
      | none => rfl
      | some c =>
        have hends := hg.endpoints e c he
        have hfrom : c.fromNode ≠ id := fun h => hid (h ▸ hends.1)
        have hto : c.toNode ≠ id := fun h => hid (h ▸ hends.2)
        simp [Option.filter, Edge.content, hfrom, hto]
  | some n =>
    have hd := hg.deletesNode hn
    ext1
    · funext m
      simp only [content, PropertyGraph.deleteNode, hd.nodes, HashMap.lookup_erase_ite,
        Function.update_apply]
      split <;> rfl
    · funext e
      simp only [content, PropertyGraph.deleteNode, hd.edges]
      cases g.edges.lookup e with
      | none => rfl
      | some c => by_cases hc : c.fromNode ≠ id ∧ c.toNode ≠ id <;> simp [Option.filter, Edge.content, hc]

/-- Deleting a node keeps the graph consistent. -/
theorem Consistent.deleteNode {g : ConcurrentGraph} (hg : g.Consistent) (id : NodeId) :
    (g.deleteNode id).1.Consistent := by
  cases hn : g.nodes.lookup id with
  | none =>
    have hsame : (g.deleteNode id).1 = g := by simp [ConcurrentGraph.deleteNode, hn]
    rwa [hsame]
  | some n =>
    have hd := hg.deletesNode hn
    have hedge : ∀ e c, (g.deleteNode id).1.edges.lookup e = some c →
        g.edges.lookup e = some c ∧ c.fromNode ≠ id ∧ c.toNode ≠ id := by
      intro e c hc
      rw [hd.edges, Option.filter_eq_some_iff] at hc
      simpa using hc
    refine ⟨?_, ?_, ?_, hd.outgoing, hd.incoming, ?_⟩
    · intro m d hmd
      rw [hd.nodes, HashMap.lookup_erase_ite] at hmd
      split at hmd
      · cases hmd
      · exact hg.node_id m d hmd
    · intro e c hc
      exact hg.edge_id e c (hedge e c hc).1
    · intro e c hc
      obtain ⟨hc, hfrom, hto⟩ := hedge e c hc
      have hends := hg.endpoints e c hc
      rw [hd.nodes]
      exact ⟨AList.mem_erase.mpr ⟨hfrom, hends.1⟩, AList.mem_erase.mpr ⟨hto, hends.2⟩⟩
    · intro l m
      rw [hd.labelIndex, hg.labelIndex, hd.nodes, HashMap.lookup_erase_ite]
      by_cases hm : m = id
      · simp [hm]
      · simp [hm]

/-! ## Properties and labels -/

/-- A change of one node that keeps its id and its labels keeps the graph consistent. -/
lemma Consistent.modifyNode {g : ConcurrentGraph} (hg : g.Consistent) (id : NodeId)
    (f : Node → Node) (hid : ∀ n, (f n).id = n.id) (hlabels : ∀ n, (f n).labels = n.labels) :
    ({ g with nodes := HashMap.modify g.nodes id f } : ConcurrentGraph).Consistent := by
  have hlookup : ∀ m d, (HashMap.modify g.nodes id f).lookup m = some d →
      ∃ d', g.nodes.lookup m = some d' ∧ d.id = d'.id ∧ d.labels = d'.labels := by
    intro m d hd
    rw [HashMap.lookup_modify] at hd
    split at hd
    · obtain ⟨d', hd', rfl⟩ := Option.map_eq_some_iff.mp hd
      exact ⟨d', hd', hid d', hlabels d'⟩
    · exact ⟨d, hd, rfl, rfl⟩
  have hmem : ∀ m, m ∈ HashMap.modify g.nodes id f ↔ m ∈ g.nodes := by
    intro m
    rw [← AList.lookup_isSome, ← AList.lookup_isSome, HashMap.lookup_modify]
    split <;> simp
  refine ⟨?_, hg.edge_id, ?_, hg.outgoing, hg.incoming, ?_⟩
  · intro m d hd
    obtain ⟨d', hd', hidd, -⟩ := hlookup m d hd
    rw [hidd]
    exact hg.node_id m d' hd'
  · intro e c hc
    have hends := hg.endpoints e c hc
    exact ⟨(hmem _).mpr hends.1, (hmem _).mpr hends.2⟩
  · intro l m
    rw [hg.labelIndex]
    simp only [HashMap.lookup_modify]
    by_cases hm : m = id
    · subst hm
      simp [hlabels]
    · simp [hm]

/-- A change of one edge that keeps its id and its endpoints keeps the graph consistent. -/
lemma Consistent.modifyEdge {g : ConcurrentGraph} (hg : g.Consistent) (id : EdgeId)
    (f : Edge → Edge) (hid : ∀ e, (f e).id = e.id) (hfrom : ∀ e, (f e).fromNode = e.fromNode)
    (hto : ∀ e, (f e).toNode = e.toNode) :
    ({ g with edges := HashMap.modify g.edges id f } : ConcurrentGraph).Consistent := by
  have hlookup : ∀ m c, (HashMap.modify g.edges id f).lookup m = some c →
      ∃ c', g.edges.lookup m = some c' ∧ c.id = c'.id ∧ c.fromNode = c'.fromNode ∧
        c.toNode = c'.toNode := by
    intro m c hc
    rw [HashMap.lookup_modify] at hc
    split at hc
    · obtain ⟨c', hc', rfl⟩ := Option.map_eq_some_iff.mp hc
      exact ⟨c', hc', hid c', hfrom c', hto c'⟩
    · exact ⟨c, hc, rfl, rfl, rfl⟩
  refine ⟨hg.node_id, ?_, ?_, ?_, ?_, hg.labelIndex⟩
  · intro m c hc
    obtain ⟨c', hc', hidc, -⟩ := hlookup m c hc
    rw [hidc]
    exact hg.edge_id m c' hc'
  · intro m c hc
    obtain ⟨c', hc', -, hf, ht⟩ := hlookup m c hc
    rw [hf, ht]
    exact hg.endpoints m c' hc'
  · intro m e
    rw [hg.outgoing]
    simp only [HashMap.lookup_modify]
    by_cases he : e = id
    · subst he
      simp [hfrom]
    · simp [he]
  · intro m e
    rw [hg.incoming]
    simp only [HashMap.lookup_modify]
    by_cases he : e = id
    · subst he
      simp [hto]
    · simp [he]

/-- A change of a node acts on the content as the corresponding change of its content. -/
lemma content_modifyNode (g : ConcurrentGraph) (id : NodeId) (f : Node → Node)
    (F : NodeData String String PropertyValue → NodeData String String PropertyValue)
    (h : ∀ n, (f n).content = F n.content) :
    ({ g with nodes := HashMap.modify g.nodes id f } : ConcurrentGraph).content =
      g.content.modifyNode id F := by
  ext1
  · funext m
    simp only [content, PropertyGraph.modifyNode, HashMap.lookup_modify, Function.update_apply]
    by_cases hm : m = id
    · subst hm
      cases g.nodes.lookup m <;> simp [h]
    · simp [hm]
  · rfl

/-- A change of an edge acts on the content as the corresponding change of its content. -/
lemma content_modifyEdge (g : ConcurrentGraph) (id : EdgeId) (f : Edge → Edge)
    (F : EdgeData NodeId String String PropertyValue → EdgeData NodeId String String PropertyValue)
    (h : ∀ e, (f e).content = F e.content) :
    ({ g with edges := HashMap.modify g.edges id f } : ConcurrentGraph).content =
      g.content.modifyEdge id F := by
  ext1
  · rfl
  · funext m
    simp only [content, PropertyGraph.modifyEdge, HashMap.lookup_modify, Function.update_apply]
    by_cases hm : m = id
    · subst hm
      cases g.edges.lookup m <;> simp [h]
    · simp [hm]

theorem content_setNodeProperty (g : ConcurrentGraph) (id : NodeId) (key : String)
    (value : PropertyValue) :
    (g.setNodeProperty id key value).content = g.content.setNodeProp id key (some value) :=
  content_modifyNode g id _ _ fun n => n.content_setProperty key value

theorem content_removeNodeProperty (g : ConcurrentGraph) (id : NodeId) (key : String) :
    (g.removeNodeProperty id key).1.content = g.content.setNodeProp id key none :=
  content_modifyNode g id _ _ fun n => n.content_removeProperty key

theorem content_setEdgeProperty (g : ConcurrentGraph) (id : EdgeId) (key : String)
    (value : PropertyValue) :
    (g.setEdgeProperty id key value).content = g.content.setEdgeProp id key (some value) :=
  content_modifyEdge g id _ _ fun e => e.content_setProperty key value

theorem content_removeEdgeProperty (g : ConcurrentGraph) (id : EdgeId) (key : String) :
    (g.removeEdgeProperty id key).1.content = g.content.setEdgeProp id key none :=
  content_modifyEdge g id _ _ fun e => e.content_removeProperty key

theorem Consistent.setNodeProperty {g : ConcurrentGraph} (hg : g.Consistent) (id : NodeId)
    (key : String) (value : PropertyValue) : (g.setNodeProperty id key value).Consistent :=
  hg.modifyNode id _ (fun _ => rfl) fun _ => rfl

theorem Consistent.removeNodeProperty {g : ConcurrentGraph} (hg : g.Consistent) (id : NodeId)
    (key : String) : (g.removeNodeProperty id key).1.Consistent :=
  hg.modifyNode id _ (fun _ => rfl) fun _ => rfl

theorem Consistent.setEdgeProperty {g : ConcurrentGraph} (hg : g.Consistent) (id : EdgeId)
    (key : String) (value : PropertyValue) : (g.setEdgeProperty id key value).Consistent :=
  hg.modifyEdge id _ (fun _ => rfl) (fun _ => rfl) fun _ => rfl

theorem Consistent.removeEdgeProperty {g : ConcurrentGraph} (hg : g.Consistent) (id : EdgeId)
    (key : String) : (g.removeEdgeProperty id key).1.Consistent :=
  hg.modifyEdge id _ (fun _ => rfl) (fun _ => rfl) fun _ => rfl

/-- A node whose labels changed, with the label index following, leaves the graph consistent. -/
lemma Consistent.relabel {g : ConcurrentGraph} (hg : g.Consistent) {id : NodeId} {n n' : Node}
    (hn : g.nodes.lookup id = some n) (hid : n'.id = n.id) (ix : HashMap String (HashSet NodeId))
    (hix : ∀ l m, m ∈ HashMap.getDefault ix l ↔
      m = id ∧ l ∈ n'.labels ∨ m ≠ id ∧ m ∈ HashMap.getDefault g.labelIndex l) :
    ({ g with nodes := g.nodes.insert id n', labelIndex := ix } : ConcurrentGraph).Consistent := by
  refine ⟨?_, hg.edge_id, ?_, hg.outgoing, hg.incoming, ?_⟩
  · intro m d hd
    simp only [HashMap.lookup_insert_ite] at hd
    split at hd
    · rename_i hm
      cases hd
      rw [hid, hg.node_id id n hn, hm]
    · exact hg.node_id m d hd
  · intro e c hc
    have hends := hg.endpoints e c hc
    exact ⟨(AList.mem_insert _).mpr (Or.inr hends.1), (AList.mem_insert _).mpr (Or.inr hends.2)⟩
  · intro l m
    simp only [hix, hg.labelIndex, HashMap.lookup_insert_ite]
    by_cases hm : m = id
    · simp [hm]
    · simp [hm]

/-- Attaching a non-empty label keeps the graph consistent. -/
theorem Consistent.addNodeLabel {g : ConcurrentGraph} (hg : g.Consistent) (id : NodeId)
    {label : String} (hlabel : label ≠ "") : (g.addNodeLabel id label).Consistent := by
  unfold ConcurrentGraph.addNodeLabel
  cases hn : g.nodes.lookup id with
  | none => exact hg
  | some n =>
    simp only
    split
    · exact hg
    · refine hg.relabel hn (n.addLabel_id label) _ fun l m => ?_
      rw [HashSet.mem_modifyDefault_add, n.mem_labels_addLabel hlabel, hg.labelIndex]
      by_cases hm : m = id
      · subst hm
        simp [hn]
      · simp [hm]

/-- Detaching a label keeps the graph consistent. -/
theorem Consistent.removeNodeLabel {g : ConcurrentGraph} (hg : g.Consistent) (id : NodeId)
    (label : String) : (g.removeNodeLabel id label).Consistent := by
  unfold ConcurrentGraph.removeNodeLabel
  cases hn : g.nodes.lookup id with
  | none => exact hg
  | some n =>
    simp only
    split
    · refine Consistent.relabel hg hn (show (n.removeLabel label).id = n.id from rfl) _ fun l m => ?_
      rw [HashSet.mem_modify_remove, hg.labelIndex]
      by_cases hm : m = id
      · subst hm
        simp [hn, Node.removeLabel, and_comm]
      · simp [hm]
    · exact hg

/-- Attaching a non-empty label attaches it in the content. -/
theorem content_addNodeLabel (g : ConcurrentGraph) (id : NodeId) {label : String}
    (hlabel : label ≠ "") : (g.addNodeLabel id label).content = g.content.addLabel id label := by
  unfold ConcurrentGraph.addNodeLabel
  cases hn : g.nodes.lookup id with
  | none => simp [PropertyGraph.addLabel, PropertyGraph.modifyNode, content, hn]
  | some n =>
    simp only
    split
    · rename_i hhas
      have hmem : label ∈ n.labels := (n.hasLabel_iff label).mp hhas
      symm
      apply PropertyGraph.modifyNode_eq_self
      intro d hd
      simp only [content, hn, Option.map_some, Option.some.injEq] at hd
      subst hd
      ext1
      · exact Set.insert_eq_of_mem hmem
      · rfl
    · ext1
      · funext m
        simp only [content, PropertyGraph.addLabel, PropertyGraph.modifyNode,
          HashMap.lookup_insert_ite, Function.update_apply]
        by_cases hm : m = id
        · simp [hm, hn, n.content_addLabel hlabel]
        · simp [hm]
      · rfl

/-- Detaching a label detaches it in the content. -/
theorem content_removeNodeLabel (g : ConcurrentGraph) (id : NodeId) (label : String) :
    (g.removeNodeLabel id label).content = g.content.removeLabel id label := by
  unfold ConcurrentGraph.removeNodeLabel
  cases hn : g.nodes.lookup id with
  | none => simp [PropertyGraph.removeLabel, PropertyGraph.modifyNode, content, hn]
  | some n =>
    simp only
    split
    · ext1
      · funext m
        simp only [content, PropertyGraph.removeLabel, PropertyGraph.modifyNode,
          HashMap.lookup_insert_ite, Function.update_apply]
        by_cases hm : m = id
        · simp [hm, hn, n.content_removeLabel label]
        · simp [hm]
      · rfl
    · rename_i hhas
      have hmem : label ∉ n.labels := fun h => hhas ((n.hasLabel_iff label).mpr h)
      symm
      apply PropertyGraph.modifyNode_eq_self
      intro d hd
      simp only [content, hn, Option.map_some, Option.some.injEq] at hd
      subst hd
      ext1
      · exact Set.sdiff_singleton_eq_self hmem
      · rfl

end ConcurrentGraph

end Maharit
