import MaharitDb.Lib.GraphRenaming
import MaharitDb.Core.GraphRuns
import MaharitDb.Core.BackendLaws

/-!
# The content of the slot graph

The slot graph refines the abstract property graph: every operation acts on the content as the
corresponding operation of `PropertyGraph` does, and the reading operations are coherent.
-/

namespace Maharit

namespace Graph

/-- The stored nodes and edges, without the auxiliary vectors. -/
def content (g : Graph) : GraphContent where
  nodes := fun id => (g.getNode id).map Node.content
  edges := fun id => (g.getEdge id).map Edge.content

/-- Both endpoints of a stored edge are stored. -/
theorem Valid.closed {g : Graph} (hg : g.Valid) : g.content.Closed := by
  intro e d hd
  obtain ⟨c, hc, rfl⟩ := Option.map_eq_some_iff.mp hd
  obtain ⟨hfrom, hto⟩ := hg.endpoints e c hc
  exact ⟨by simpa [content, Edge.content] using hfrom, by simpa [content, Edge.content] using hto⟩

lemma content_nodes_eq_none {g : Graph} {id : NodeId} :
    g.content.nodes id = none ↔ g.getNode id = none :=
  Option.map_eq_none_iff

lemma content_edges_eq_none {g : Graph} {id : EdgeId} :
    g.content.edges id = none ↔ g.getEdge id = none :=
  Option.map_eq_none_iff

/-! ## Storing -/

lemma StoresNode.content {g g' : Graph} {id : NodeId} {n : Node} (h : StoresNode g g' id n) :
    g'.content = g.content.putNode id n.content := by
  ext1
  · funext m
    simp only [Graph.content, PropertyGraph.putNode, Function.update_apply, h.getNode]
    split <;> rfl
  · funext e
    simp only [Graph.content, PropertyGraph.putNode, h.getEdge]

lemma StoresEdge.content {g g' : Graph} {id : EdgeId} {c : Edge} (h : StoresEdge g g' id c) :
    g'.content = g.content.putEdge id c.content := by
  ext1
  · funext m
    simp only [Graph.content, PropertyGraph.putEdge, getNode, h.nodes]
  · funext e
    simp only [Graph.content, PropertyGraph.putEdge, Function.update_apply, h.getEdge]
    split <;> rfl

/-- Creating a node in a chosen empty slot. -/
lemma Valid.storesNode_withId {g : Graph} (hg : g.Valid) {id : NodeId} (hdead : g.getNode id = none)
    (labels : List String) :
    StoresNode g (g.createNodeWithIdAndLabels id labels).1 id ⟨id, labels, ∅⟩ := by
  rw [createNodeWithIdAndLabels_of_dead hdead]
  exact (hg.growsNodes id).storesNode hdead labels

/-- Creating an edge in a chosen empty slot. -/
lemma Valid.storesEdge_withId {g : Graph} (hg : g.Valid) {id : EdgeId} (hdead : g.getEdge id = none)
    {fromNode toNode : NodeId} (hfrom : (g.getNode fromNode).isSome) (hto : (g.getNode toNode).isSome)
    (label : String) :
    (g.createEdgeWithId id fromNode toNode label).2 = .ok id ∧
    StoresEdge g (g.createEdgeWithId id fromNode toNode label).1 id
      ⟨id, label, fromNode, toNode, ∅⟩ := by
  have hfrom' : (g.getNode fromNode).isNone = false := by simp [Option.isNone_eq_false_iff, hfrom]
  have hto' : (g.getNode toNode).isNone = false := by simp [Option.isNone_eq_false_iff, hto]
  have hfill : g.createEdgeWithId id fromNode toNode label =
      ((g.growEdges id).fillEdge id fromNode toNode label, .ok id) := by
    simp [createEdgeWithId, hfrom', hto', hdead, fillEdge]
  rw [hfill]
  exact ⟨rfl, (hg.growsEdges id).storesEdge hg hdead hfrom hto label⟩

/-! ## Deleting -/

theorem content_deleteEdge (g : Graph) (id : EdgeId) :
    (g.deleteEdge id).1.content = g.content.deleteEdge id := by
  ext1
  · funext m
    simp only [content, PropertyGraph.deleteEdge, getNode, nodes_deleteEdge]
  · funext e
    simp only [content, PropertyGraph.deleteEdge, Function.update_apply, getEdge_deleteEdge]
    split <;> rfl

theorem Valid.content_deleteNode {g : Graph} (hg : g.Valid) (outOrder inOrder : IterOrder) (id : NodeId) :
    (g.deleteNode outOrder inOrder id).1.content = g.content.deleteNode id := by
  ext1
  · funext m
    simp only [content, PropertyGraph.deleteNode, Function.update_apply, hg.getNode_deleteNode]
    split <;> rfl
  · funext e
    simp only [content, PropertyGraph.deleteNode, hg.getEdge_deleteNode]
    cases g.getEdge e with
    | none => rfl
    | some c =>
      simp only [Option.filter, Option.map_some, Edge.content]
      split <;> rfl

/-! ## Changing in place -/

lemma content_modifyNode (g : Graph) (id : NodeId) (f : Node → Node)
    (F : NodeData String String PropertyValue → NodeData String String PropertyValue)
    (h : ∀ n, (f n).content = F n.content) :
    (g.modifyNode id f).content = g.content.modifyNode id F := by
  ext1
  · funext m
    simp only [content, PropertyGraph.modifyNode, getNode_modifyNode, Function.update_apply]
    by_cases hm : m = id
    · subst hm
      cases g.getNode m <;> simp [h]
    · simp [hm]
  · rfl

lemma content_modifyEdge (g : Graph) (id : EdgeId) (f : Edge → Edge)
    (F : EdgeData NodeId String String PropertyValue → EdgeData NodeId String String PropertyValue)
    (h : ∀ e, (f e).content = F e.content) :
    (g.modifyEdge id f).content = g.content.modifyEdge id F := by
  ext1
  · rfl
  · funext m
    simp only [content, PropertyGraph.modifyEdge, getEdge_modifyEdge, Function.update_apply]
    by_cases hm : m = id
    · subst hm
      cases g.getEdge m <;> simp [h]
    · simp [hm]

theorem content_setNodeProperty (g : Graph) (id : NodeId) (key : String) (value : PropertyValue) :
    (g.setNodeProperty id key value).content = g.content.setNodeProp id key (some value) :=
  content_modifyNode g id _ _ fun n => n.content_setProperty key value

theorem content_removeNodeProperty (g : Graph) (id : NodeId) (key : String) :
    (g.removeNodeProperty id key).1.content = g.content.setNodeProp id key none :=
  content_modifyNode g id _ _ fun n => n.content_removeProperty key

theorem content_setEdgeProperty (g : Graph) (id : EdgeId) (key : String) (value : PropertyValue) :
    (g.setEdgeProperty id key value).content = g.content.setEdgeProp id key (some value) :=
  content_modifyEdge g id _ _ fun e => e.content_setProperty key value

theorem content_removeEdgeProperty (g : Graph) (id : EdgeId) (key : String) :
    (g.removeEdgeProperty id key).1.content = g.content.setEdgeProp id key none :=
  content_modifyEdge g id _ _ fun e => e.content_removeProperty key

lemma Inv.modifyNode {g : Graph} (hg : g.Inv) (id : NodeId) {f : Node → Node}
    (hid : ∀ n, (f n).id = n.id) (hlabels : ∀ n, (f n).labels = n.labels) : (g.modifyNode id f).Inv := by
  refine ⟨hg.valid.modifyNode id f, ?_, ?_, hg.edgeCount, ?_, ?_, hg.fits.2⟩
  · intro m n hn
    rw [getNode_modifyNode] at hn
    split at hn
    · obtain ⟨d, hd, rfl⟩ := Option.map_eq_some_iff.mp hn
      rw [hid]
      exact hg.node_id m d hd
    · exact hg.node_id m n hn
  · refine hg.nodeCount.trans ?_
    exact (Slots.countP_modify_map _ _ _).symm
  · intro l m
    refine (hg.labelIndex l m).trans ?_
    rw [getNode_modifyNode]
    split
    · cases g.getNode m <;> simp [hlabels]
    · rfl
  · simpa [Graph.modifyNode] using hg.fits.1

lemma Inv.modifyEdge {g : Graph} (hg : g.Inv) (id : EdgeId) {f : Edge → Edge}
    (hf : ∀ c, (f c).id = c.id ∧ (f c).fromNode = c.fromNode ∧ (f c).toNode = c.toNode) :
    (g.modifyEdge id f).Inv := by
  refine hg.of_edges (hg.valid.modifyEdge id hf) rfl rfl rfl ?_ ⟨hg.fits.1, ?_⟩
  · exact hg.edgeCount.trans (Slots.countP_modify_map _ _ _).symm
  · simpa [Graph.modifyEdge] using hg.fits.2

/-- A node slot whose content was exchanged. -/
lemma content_set_node {g g' : Graph} {id : NodeId} {n n' : Node} (hn : g.getNode id = some n)
    (hnodes : g'.nodes = g.nodes.set id.toNat (some n')) (hedges : g'.edges = g.edges)
    {F : NodeData String String PropertyValue → NodeData String String PropertyValue}
    (hF : n'.content = F n.content) : g'.content = g.content.modifyNode id F := by
  have hget : ∀ m, g'.getNode m = if m = id then some n' else g.getNode m := by
    intro m
    rw [getNode, hnodes]
    exact getD_set_uint _ _ _ _ _ (toNat_lt_of_getNode (by simp [hn]))
  ext1
  · funext m
    simp only [content, PropertyGraph.modifyNode, hget, Function.update_apply]
    by_cases hm : m = id
    · simp [hm, hn, hF]
    · simp [hm]
  · funext e
    simp only [content, PropertyGraph.modifyNode, getEdge, hedges]

theorem content_addNodeLabel (g : Graph) (id : NodeId) {label : String} (hlabel : label ≠ "") :
    (g.addNodeLabel id label).content = g.content.addLabel id label := by
  unfold addNodeLabel
  cases hn : g.getNode id with
  | none => simp [PropertyGraph.addLabel, PropertyGraph.modifyNode, content, hn]
  | some n =>
    simp only
    split
    · next hhas =>
      have hmem : label ∈ n.labels := (n.hasLabel_iff label).mp hhas
      symm
      apply PropertyGraph.modifyNode_eq_self
      intro d hd
      simp only [content, hn, Option.map_some, Option.some.injEq] at hd
      subst hd
      ext1
      · exact Set.insert_eq_of_mem hmem
      · rfl
    · refine content_set_node hn ?_ ?_ (n.content_addLabel hlabel)
      · rfl
      · rfl

theorem content_removeNodeLabel (g : Graph) (id : NodeId) (label : String) :
    (g.removeNodeLabel id label).content = g.content.removeLabel id label := by
  unfold removeNodeLabel
  cases hn : g.getNode id with
  | none => simp [PropertyGraph.removeLabel, PropertyGraph.modifyNode, content, hn]
  | some n =>
    simp only
    split
    · obtain ⟨ix, hix⟩ := foldl_labelIndexRemove_eq
        { g with nodes := g.nodes.set id.toNat (some (n.removeLabel label)) } id [label]
      rw [List.foldl_cons, List.foldl_nil] at hix
      rw [hix]
      refine content_set_node hn ?_ ?_ (n.content_removeLabel label)
      · rfl
      · rfl
    · next hhas =>
      have hmem : label ∉ n.labels := fun h => hhas ((n.hasLabel_iff label).mpr h)
      symm
      apply PropertyGraph.modifyNode_eq_self
      intro d hd
      simp only [content, hn, Option.map_some, Option.some.injEq] at hd
      subst hd
      ext1
      · exact Set.sdiff_singleton_eq_self hmem
      · rfl

/-! ## Reading -/

/-- The edges read through a set of ids. -/
lemma Valid.mem_filterMap_edges {g : Graph} (hg : g.Valid) {ids : HashSet EdgeId} {e : Edge} :
    e ∈ ids.toList.filterMap g.getEdge ↔ g.getEdge e.id = some e ∧ e.id ∈ ids := by
  rw [List.mem_filterMap]
  constructor
  · rintro ⟨id, hid, he⟩
    have heid := hg.edge_id id e he
    subst heid
    exact ⟨he, hid⟩
  · rintro ⟨he, hid⟩
    exact ⟨e.id, hid, he⟩

lemma Valid.nodup_filterMap_edges {g : Graph} (hg : g.Valid) (ids : HashSet EdgeId) :
    (ids.toList.filterMap g.getEdge).Nodup := by
  refine (HashSet.nodup_toList ids).filterMap fun id id' e he he' => ?_
  exact (hg.edge_id id e he).symm.trans (hg.edge_id id' e he')

theorem nodeReads (outOrder inOrder : IterOrder) (g : Graph) :
    @GraphBackend.NodeReads Graph (backend outOrder inOrder) g := by
  let := backend outOrder inOrder
  exact { getNodeProperty := fun _ _ => rfl, containsNode := fun _ _ hn => Option.isSome_of_eq_some hn }

/-- The elements of a vector of slots, when each knows its slot. -/
lemma mem_slots {α : Type} {l : List (Option α)} {key : α → UInt64} (hlen : l.length < 2 ^ 64)
    (hkey : ∀ (id : UInt64) v, l.getD id.toNat none = some v → key v = id) (v : α) :
    v ∈ l.filterMap id ↔ l.getD (key v).toNat none = some v := by
  rw [Slots.mem_filterMap_id]
  constructor
  · rintro ⟨i, hi⟩
    have hlt : i < l.length := by
      by_contra hge
      rw [List.getD_eq_default _ _ (not_lt.mp hge)] at hi
      cases hi
    have hback : (UInt64.ofNat i).toNat = i := by
      rw [UInt64.toNat_ofNat']
      exact Nat.mod_eq_of_lt (hlt.trans hlen)
    have hslot : l.getD (UInt64.ofNat i).toNat none = some v := by rw [hback, hi]
    rw [hkey _ v hslot, hslot]
  · exact fun hv => ⟨_, hv⟩

/-- The keys of the elements of a vector of slots ascend. -/
lemma pairwise_slots {α : Type} {l : List (Option α)} {key : α → UInt64} (hlen : l.length < 2 ^ 64)
    (hkey : ∀ (id : UInt64) v, l.getD id.toNat none = some v → key v = id) :
    ((l.filterMap id).map key).Pairwise (· < ·) := by
  have hpos : ∀ i v, l.getD i none = some v → (key v).toNat = i := by
    intro i v hi
    have hlt : i < l.length := by
      by_contra hge
      rw [List.getD_eq_default _ _ (not_lt.mp hge)] at hi
      cases hi
    have hback : (UInt64.ofNat i).toNat = i := by
      rw [UInt64.toNat_ofNat']
      exact Nat.mod_eq_of_lt (hlt.trans hlen)
    have hslot : l.getD (UInt64.ofNat i).toNat none = some v := by rw [hback, hi]
    rw [hkey _ v hslot, hback]
  have hnat := List.pairwise_map.mp (Slots.pairwise_map_filterMap_id hpos)
  refine List.pairwise_map.mpr (hnat.imp ?_)
  intro v w hvw
  exact UInt64.lt_iff_toNat_lt.mpr hvw

lemma nodup_slots {α : Type} {l : List (Option α)} {key : α → UInt64} (hlen : l.length < 2 ^ 64)
    (hkey : ∀ (id : UInt64) v, l.getD id.toNat none = some v → key v = id) :
    ((l.filterMap id).map key).Nodup :=
  (pairwise_slots hlen hkey).imp UInt64.ne_of_lt

theorem Inv.listed {g : Graph} (hg : g.Inv) (outOrder inOrder : IterOrder) :
    @GraphBackend.Listed Graph (backend outOrder inOrder) g := by
  let := backend outOrder inOrder
  have hnodes := mem_slots hg.fits.nodes_lt hg.node_id
  have hedges := mem_slots hg.fits.edges_lt hg.valid.edge_id
  have hnodup := nodup_slots hg.fits.nodes_lt hg.node_id
  have hnodup' := nodup_slots hg.fits.edges_lt hg.valid.edge_id
  refine { nodeHasAllLabels := ?_, getNodeProperty := fun _ _ => rfl, containsNode := ?_, mem_nodeIds := ?_,
           nodup_nodeIds := hnodup, mem_nodesByLabel := fun id l => hg.labelIndex l id,
           nodup_nodesByLabel := fun _ => HashSet.nodup_toList _, mem_outgoingEdges := ?_,
           nodup_outgoingEdges := fun _ => hg.valid.nodup_filterMap_edges _, mem_incomingEdges := ?_,
           nodup_incomingEdges := fun _ => hg.valid.nodup_filterMap_edges _, node_id := hg.node_id,
           edge_id := hg.valid.edge_id, mem_allNodes := hnodes, nodup_allNodes := hnodup.of_map,
           mem_edgeIds := ?_, nodup_edgeIds := hnodup', mem_allEdges := hedges,
           nodup_allEdges := hnodup'.of_map, hasIncidentEdges := ?_, nodeCount := ?_, edgeCount := ?_ }
  · intro id labels
    change ((g.getNode id).map fun n => labels.all n.hasLabel).getD false = true ↔
      ∃ n, g.getNode id = some n ∧ ∀ l ∈ labels, l ∈ n.labels
    cases g.getNode id with
    | none => simp
    | some n => simp
  · intro id
    change (g.getNode id).isSome = true ↔ ∃ n, g.getNode id = some n
    exact Option.isSome_iff_exists
  · intro id
    change id ∈ (g.nodes.filterMap fun o => o).map Node.id ↔ ∃ n, g.getNode id = some n
    rw [List.mem_map]
    constructor
    · rintro ⟨n, hn, rfl⟩
      exact ⟨n, (hnodes n).mp hn⟩
    · rintro ⟨n, hn⟩
      have hid := hg.node_id id n hn
      subst hid
      exact ⟨n, (hnodes n).mpr hn, rfl⟩
  · intro id e
    refine hg.valid.mem_filterMap_edges.trans (and_congr_right fun he => ?_)
    rw [hg.valid.outgoing id e.id]
    constructor
    · rintro ⟨e', he', rfl⟩
      rw [Option.some.inj (he.symm.trans he')]
    · rintro rfl
      exact ⟨e, he, rfl⟩
  · intro id e
    refine hg.valid.mem_filterMap_edges.trans (and_congr_right fun he => ?_)
    rw [hg.valid.incoming id e.id]
    constructor
    · rintro ⟨e', he', rfl⟩
      rw [Option.some.inj (he.symm.trans he')]
    · rintro rfl
      exact ⟨e, he, rfl⟩
  · intro id
    change id ∈ (g.edges.filterMap fun o => o).map Edge.id ↔ ∃ e, g.getEdge id = some e
    rw [List.mem_map]
    constructor
    · rintro ⟨e, he, rfl⟩
      exact ⟨e, (hedges e).mp he⟩
    · rintro ⟨e, he⟩
      have hid := hg.valid.edge_id id e he
      subst hid
      exact ⟨e, (hedges e).mpr he, rfl⟩
  · intro id
    change (!(g.getOutgoingEdges id).isEmpty || !(g.getIncomingEdges id).isEmpty) = true ↔
      ∃ e, e ∈ g.getOutgoingEdges id ∨ e ∈ g.getIncomingEdges id
    rw [Bool.or_eq_true, Bool.not_eq_true', Bool.not_eq_true', List.isEmpty_eq_false_iff_exists_mem,
      List.isEmpty_eq_false_iff_exists_mem, exists_or]
  · change g.nodeCount = ((g.nodes.filterMap fun o => o).map Node.id).length
    rw [List.length_map]
    exact hg.nodeCount.trans (Slots.length_filterMap_id g.nodes).symm
  · change g.edgeCount = ((g.edges.filterMap fun o => o).map Edge.id).length
    rw [List.length_map]
    exact hg.edgeCount.trans (Slots.length_filterMap_id g.edges).symm

/-! ## The graphs that the operations build -/

theorem Valid.createNodeWithIdAndLabels {g : Graph} (hg : g.Valid) (id : NodeId)
    (labels : List String) : (g.createNodeWithIdAndLabels id labels).1.Valid := by
  cases hnode : g.getNode id with
  | some n =>
    have hsame : (g.createNodeWithIdAndLabels id labels).1 = g := by
      simp [Graph.createNodeWithIdAndLabels, hnode]
    rwa [hsame]
  | none => exact (hg.storesNode_withId hnode labels).valid hg

theorem Valid.createEdge {g : Graph} (hg : g.Valid) (hfits : g.Fits) (fromNode toNode : NodeId)
    (label : String) : (g.createEdge fromNode toNode label).1.Valid := by
  cases hresult : g.createEdge fromNode toNode label with
  | mk g' r =>
    cases r with
    | error e => exact eq_of_createEdge_error hresult ▸ hg
    | ok id =>
      obtain ⟨hfrom, hto⟩ := live_of_createEdge_ok (congrArg Prod.snd hresult)
      have hcreate := hg.createsEdge hfits.edges_lt hfrom hto label
      rw [hresult] at hcreate
      exact hcreate.2.valid hg rfl hfrom hto

theorem Valid.createEdgeWithId {g : Graph} (hg : g.Valid) (id : EdgeId) (fromNode toNode : NodeId)
    (label : String) : (g.createEdgeWithId id fromNode toNode label).1.Valid := by
  rcases createEdgeWithId_cases g id fromNode toNode label with hsame | ⟨hfrom, hto, hdead, hfill⟩
  · rwa [hsame]
  · rw [hfill]
    exact (hg.growsEdges id).valid hg hdead hfrom hto label

/-- A call of a writing operation keeps a graph valid. -/
theorem Valid.apply {g : Graph} (hg : g.Valid) (hfits : g.Fits) (outOrder inOrder : IterOrder)
    (c : WriteCall) : (@WriteCall.apply _ (backend outOrder inOrder) g c).Valid := by
  cases c with
  | createNodeWithLabels labels => exact (hg.createsNode hfits.nodes_lt labels).valid hg
  | createEdge fromNode toNode label => exact hg.createEdge hfits fromNode toNode label
  | deleteNode id => exact hg.deleteNode outOrder inOrder id
  | deleteEdge id => exact hg.deleteEdge id
  | setNodeProperty id key value => exact hg.setNodeProperty id key value
  | removeNodeProperty id key => exact hg.modifyNode id _
  | addNodeLabel id label => exact hg.addNodeLabel id label
  | removeNodeLabel id label => exact hg.removeNodeLabel id label
  | setEdgeProperty id key value => exact hg.setEdgeProperty id key value
  | removeEdgeProperty id key => exact hg.modifyEdge id fun _ => ⟨rfl, rfl, rfl⟩
  | restoreNode id labels => exact hg.createNodeWithIdAndLabels id labels
  | restoreEdge id fromNode toNode label => exact hg.createEdgeWithId id fromNode toNode label

/-- The graphs that the writing operations build. -/
inductive Built : Graph → Prop
  | new : Built new
  | apply {g : Graph} (h : Built g) (outOrder inOrder : IterOrder) (c : WriteCall)
      (hfits : (@WriteCall.apply _ (backend outOrder inOrder) g c).Fits) :
      Built (@WriteCall.apply _ (backend outOrder inOrder) g c)

theorem Built.valid {g : Graph} (h : g.Built) : g.Valid ∧ g.Fits := by
  induction h with
  | new => exact ⟨valid_new, by constructor <;> exact Nat.zero_le _⟩
  | apply h outOrder inOrder c hfits ih =>
    obtain ⟨hvalid, hfits'⟩ := ih
    exact ⟨hvalid.apply hfits' outOrder inOrder c, hfits⟩

end Graph

end Maharit
