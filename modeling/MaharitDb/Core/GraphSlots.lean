import MaharitDb.Lib.Slots
import MaharitDb.Core.Graph

/-!
# The slot graph under its operations

`Graph.Valid` ties the vectors of the slot graph together: the adjacency sets describe exactly the
live edges, and a slot in a free list is empty.  For each operation this file states what it does to
the slots and that it keeps the graph valid.  Node and edge ids stay below `2 ^ 64` as long as the
vectors do.
-/

namespace Maharit

namespace Graph

/-- The vectors of the graph describe one graph. -/
structure Valid (g : Graph) : Prop where
  outgoing_length : g.outgoingEdges.length = g.nodes.length
  incoming_length : g.incomingEdges.length = g.nodes.length
  /-- An edge knows the slot it is stored in. -/
  edge_id : ∀ e c, g.getEdge e = some c → c.id = e
  /-- Both endpoints of a live edge are live. -/
  endpoints : ∀ e c, g.getEdge e = some c →
    (g.getNode c.fromNode).isSome ∧ (g.getNode c.toNode).isSome
  outgoing : ∀ n e, e ∈ g.outgoing n ↔ ∃ c, g.getEdge e = some c ∧ c.fromNode = n
  incoming : ∀ n e, e ∈ g.incoming n ↔ ∃ c, g.getEdge e = some c ∧ c.toNode = n
  /-- A free node slot exists and is empty. -/
  nodeFree : ∀ n ∈ g.nodeFreeList, n.toNat < g.nodes.length ∧ g.getNode n = none
  nodeFree_nodup : g.nodeFreeList.Nodup
  /-- A free edge slot exists and is empty. -/
  edgeFree : ∀ e ∈ g.edgeFreeList, e.toNat < g.edges.length ∧ g.getEdge e = none
  edgeFree_nodup : g.edgeFreeList.Nodup

theorem valid_new : new.Valid := by
  constructor <;> simp [new, getEdge, getNode, outgoing, incoming]

lemma toNat_lt_of_getNode {g : Graph} {id : NodeId} (h : (g.getNode id).isSome) :
    id.toNat < g.nodes.length := by
  by_contra hge
  rw [getNode, List.getD_eq_default _ _ (not_lt.mp hge)] at h
  cases h

lemma toNat_lt_of_getEdge {g : Graph} {id : EdgeId} {c : Edge} (h : g.getEdge id = some c) :
    id.toNat < g.edges.length := by
  by_contra hge
  rw [getEdge, List.getD_eq_default _ _ (not_lt.mp hge)] at h
  cases h

/-! ## Slots after an update -/

lemma getD_set_uint {α : Type} (l : List α) (i j : UInt64) (v d : α) (hi : i.toNat < l.length) :
    (l.set i.toNat v).getD j.toNat d = if j = i then v else l.getD j.toNat d := by
  rw [Slots.getD_set]
  by_cases h : j = i
  · subst h
    simp [hi]
  · have hne : j.toNat ≠ i.toNat := fun h' => h (UInt64.toNat_inj.mp h')
    simp [h, hne]

lemma getD_modify_uint {α : Type} (l : List α) (i j : UInt64) (f : α → α) {d : α}
    (hd : f d = d ∨ i.toNat < l.length) :
    (l.modify i.toNat f).getD j.toNat d =
      if j = i then f (l.getD j.toNat d) else l.getD j.toNat d := by
  rw [Slots.getD_modify _ _ _ _ hd]
  by_cases h : j = i
  · subst h
    simp
  · have hne : j.toNat ≠ i.toNat := fun h' => h (UInt64.toNat_inj.mp h')
    simp [h, hne]

lemma getD_push_uint {α : Type} (l : List α) (j : UInt64) (v d : α) (hlen : l.length < 2 ^ 64) :
    (l ++ [v]).getD j.toNat d = if j = UInt64.ofNat l.length then v else l.getD j.toNat d := by
  rw [Slots.getD_push]
  have hback : (UInt64.ofNat l.length).toNat = l.length := by
    rw [UInt64.toNat_ofNat']
    exact Nat.mod_eq_of_lt hlen
  by_cases h : j = UInt64.ofNat l.length
  · subst h
    simp [hback]
  · have hne : j.toNat ≠ l.length := fun h' => h (UInt64.toNat_inj.mp (h'.trans hback.symm))
    simp [h, hne]

/-- An edge id is added to the set of a stored node. -/
lemma mem_modify_add (l : List (HashSet EdgeId)) (n m : NodeId) (id e : EdgeId)
    (hn : n.toNat < l.length) :
    e ∈ (l.modify n.toNat (HashSet.add · id)).getD m.toNat ∅ ↔
      (m = n ∧ e = id) ∨ e ∈ l.getD m.toNat ∅ := by
  rw [getD_modify_uint _ _ _ _ (.inr hn)]
  by_cases h : m = n
  · subst h
    simp
  · simp [h]

/-- An edge id is removed from a set. -/
lemma mem_modify_remove (l : List (HashSet EdgeId)) (n m : NodeId) (id e : EdgeId) :
    e ∈ (l.modify n.toNat (HashSet.remove · id)).getD m.toNat ∅ ↔
      ¬ (m = n ∧ e = id) ∧ e ∈ l.getD m.toNat ∅ := by
  rw [getD_modify_uint l n m (HashSet.remove · id) (.inl (HashSet.remove_empty id))]
  by_cases h : m = n
  · subst h
    simp
  · simp [h]

/-! ## The label index does not touch the slots -/

lemma labelIndexAddNode_eq (g : Graph) (id : NodeId) :
    ∃ ix, g.labelIndexAddNode id = { g with labelIndex := ix } := by
  unfold labelIndexAddNode
  split
  · exact ⟨_, rfl⟩
  · exact ⟨_, rfl⟩

lemma foldl_labelIndexRemove_eq (g : Graph) (id : NodeId) (labels : List String) :
    ∃ ix, labels.foldl (fun g label => g.labelIndexRemove id label) g =
      { g with labelIndex := ix } := by
  induction labels generalizing g with
  | nil => exact ⟨_, rfl⟩
  | cons label labels ih =>
    have hstep : ∃ ix, g.labelIndexRemove id label = { g with labelIndex := ix } := by
      unfold labelIndexRemove
      split
      · exact ⟨_, rfl⟩
      · exact ⟨_, rfl⟩
    obtain ⟨ix, hix⟩ := hstep
    obtain ⟨ix', hix'⟩ := ih { g with labelIndex := ix }
    exact ⟨ix', by rw [List.foldl_cons, hix, hix']⟩

/-! ## Creating nodes -/

/-- What storing a node in the empty slot `id` does to the slots. -/
structure StoresNode (g g' : Graph) (id : NodeId) (n : Node) : Prop where
  dead : g.getNode id = none
  getNode : ∀ m, g'.getNode m = if m = id then some n else g.getNode m
  nodes_length_le : g.nodes.length ≤ g'.nodes.length
  outgoing_length : g'.outgoingEdges.length = g'.nodes.length
  incoming_length : g'.incomingEdges.length = g'.nodes.length
  outgoing : ∀ m, g'.outgoing m = if m = id then ∅ else g.outgoing m
  incoming : ∀ m, g'.incoming m = if m = id then ∅ else g.incoming m
  edges : g'.edges = g.edges
  edgeFreeList : g'.edgeFreeList = g.edgeFreeList
  nodeFree_sublist : g'.nodeFreeList.Sublist g.nodeFreeList
  fresh : id ∉ g'.nodeFreeList

lemma StoresNode.getEdge {g g' : Graph} {id : NodeId} {n : Node} (h : StoresNode g g' id n)
    (e : EdgeId) : g'.getEdge e = g.getEdge e := by
  rw [Graph.getEdge, h.edges, Graph.getEdge]

/-- Storing a node in an empty slot keeps the graph valid. -/
theorem StoresNode.valid {g g' : Graph} (hg : g.Valid) {id : NodeId} {n : Node}
    (h : StoresNode g g' id n) : g'.Valid where
  outgoing_length := h.outgoing_length
  incoming_length := h.incoming_length
  edge_id e c he := hg.edge_id e c (h.getEdge e ▸ he)
  endpoints e c he := by
    rw [h.getEdge] at he
    obtain ⟨hfrom, hto⟩ := hg.endpoints e c he
    rw [h.getNode, h.getNode]
    refine ⟨?_, ?_⟩
    · split
      · rfl
      · exact hfrom
    · split
      · rfl
      · exact hto
  outgoing m e := by
    rw [h.outgoing, h.getEdge]
    split
    · rename_i hm
      subst hm
      -- No edge leaves a slot that was empty.
      refine ⟨fun he => by simp at he, ?_⟩
      rintro ⟨c, hc, rfl⟩
      have hlive := (hg.endpoints e c hc).1
      rw [h.dead] at hlive
      cases hlive
    · exact hg.outgoing m e
  incoming m e := by
    rw [h.incoming, h.getEdge]
    split
    · rename_i hm
      subst hm
      refine ⟨fun he => by simp at he, ?_⟩
      rintro ⟨c, hc, rfl⟩
      have hlive := (hg.endpoints e c hc).2
      rw [h.dead] at hlive
      cases hlive
    · exact hg.incoming m e
  nodeFree m hm := by
    obtain ⟨hlt, hdead⟩ := hg.nodeFree m (h.nodeFree_sublist.subset hm)
    have hne : m ≠ id := by
      rintro rfl
      exact h.fresh hm
    refine ⟨hlt.trans_le h.nodes_length_le, ?_⟩
    rw [h.getNode, if_neg hne, hdead]
  nodeFree_nodup := hg.nodeFree_nodup.sublist h.nodeFree_sublist
  edgeFree e he := by
    rw [h.getEdge, h.edges]
    exact hg.edgeFree e (h.edgeFreeList ▸ he)
  edgeFree_nodup := h.edgeFreeList ▸ hg.edgeFree_nodup

/-- What creating a node does to the slots: the first free slot is taken, or one is appended. -/
structure CreatesNode (g g' : Graph) (id : NodeId) (n : Node) : Prop extends StoresNode g g' id n where
  nodes_length : g.nodes.length ≤ g'.nodes.length ∧ g'.nodes.length ≤ g.nodes.length + 1
  nodeFreeList : g'.nodeFreeList = g.nodeFreeList.tail

lemma Valid.createsNode {g : Graph} (hg : g.Valid) (hlen : g.nodes.length < 2 ^ 64)
    (labels : List String) :
    CreatesNode g (g.createNodeWithLabels labels).1 (g.createNodeWithLabels labels).2
      ⟨(g.createNodeWithLabels labels).2, labels, ∅⟩ := by
  unfold createNodeWithLabels
  cases hfree : g.nodeFreeList with
  | cons freed rest =>
    obtain ⟨hlt, hdead⟩ := hg.nodeFree freed (hfree ▸ List.mem_cons_self)
    have hnodup := hg.nodeFree_nodup
    rw [hfree, List.nodup_cons] at hnodup
    simp only
    obtain ⟨ix, hix⟩ := labelIndexAddNode_eq { g with
      nodeFreeList := rest
      nodes := g.nodes.set freed.toNat (some (⟨freed, labels, ∅⟩ : Node))
      outgoingEdges := g.outgoingEdges.set freed.toNat ∅
      incomingEdges := g.incomingEdges.set freed.toNat ∅
      nodeCount := g.nodeCount + 1 } freed
    rw [hix]
    refine ⟨⟨hdead, ?_, ?_, ?_, ?_, ?_, ?_, rfl, rfl, ?_, hnodup.1⟩, ?_, ?_⟩
    · exact fun m => getD_set_uint _ _ _ _ _ hlt
    · simp
    · simp [hg.outgoing_length]
    · simp [hg.incoming_length]
    · exact fun m => getD_set_uint _ _ _ _ _ (hg.outgoing_length ▸ hlt)
    · exact fun m => getD_set_uint _ _ _ _ _ (hg.incoming_length ▸ hlt)
    · simp [hfree]
    · simp
    · simp [hfree]
  | nil =>
    simp only
    obtain ⟨ix, hix⟩ := labelIndexAddNode_eq { g with
      nodeFreeList := []
      nodes := g.nodes ++ [some (⟨UInt64.ofNat g.nodes.length, labels, ∅⟩ : Node)]
      outgoingEdges := g.outgoingEdges ++ [∅]
      incomingEdges := g.incomingEdges ++ [∅]
      nodeCount := g.nodeCount + 1 } (UInt64.ofNat g.nodes.length)
    have hout : g.outgoingEdges.length < 2 ^ 64 := hg.outgoing_length ▸ hlen
    have hin : g.incomingEdges.length < 2 ^ 64 := hg.incoming_length ▸ hlen
    have hdead : g.getNode (UInt64.ofNat g.nodes.length) = none := by
      have hback : (UInt64.ofNat g.nodes.length).toNat = g.nodes.length := by
        rw [UInt64.toNat_ofNat']
        exact Nat.mod_eq_of_lt hlen
      rw [getNode, hback, List.getD_eq_default _ _ le_rfl]
    rw [hix]
    refine ⟨⟨hdead, ?_, ?_, ?_, ?_, ?_, ?_, rfl, rfl, ?_, ?_⟩, ?_, ?_⟩
    · exact fun m => getD_push_uint _ _ _ _ hlen
    · simp
    · simp [hg.outgoing_length]
    · simp [hg.incoming_length]
    · intro m
      have h := getD_push_uint g.outgoingEdges m ∅ ∅ hout
      rwa [hg.outgoing_length] at h
    · intro m
      have h := getD_push_uint g.incomingEdges m ∅ ∅ hin
      rwa [hg.incoming_length] at h
    · simp
    · simp
    · simp
    · simp [hfree]

/-- The node slots after a creation depend on the node slots alone. -/
lemma createNodeWithLabels_congr {f g : Graph} (hnodes : f.nodes = g.nodes)
    (hfree : f.nodeFreeList = g.nodeFreeList) (labels : List String) :
    (f.createNodeWithLabels labels).1.nodes = (g.createNodeWithLabels labels).1.nodes ∧
    (f.createNodeWithLabels labels).2 = (g.createNodeWithLabels labels).2 := by
  have hindex : ∀ (h : Graph) (id : NodeId), (h.labelIndexAddNode id).nodes = h.nodes := by
    intro h id
    obtain ⟨ix, hix⟩ := labelIndexAddNode_eq h id
    rw [hix]
  unfold createNodeWithLabels
  rw [hfree, hnodes]
  cases g.nodeFreeList with
  | nil => exact ⟨by simp only [hindex], rfl⟩
  | cons freed rest => exact ⟨by simp only [hindex], rfl⟩

/-- Creating a node keeps the graph valid. -/
theorem CreatesNode.valid {g g' : Graph} (hg : g.Valid) {id : NodeId} {n : Node}
    (h : CreatesNode g g' id n) : g'.Valid :=
  h.toStoresNode.valid hg

/-! ## Creating edges -/

/-- What storing an edge in the empty slot `id` does to the slots. -/
structure StoresEdge (g g' : Graph) (id : EdgeId) (c : Edge) : Prop where
  dead : g.getEdge id = none
  getEdge : ∀ e, g'.getEdge e = if e = id then some c else g.getEdge e
  nodes : g'.nodes = g.nodes
  nodeFreeList : g'.nodeFreeList = g.nodeFreeList
  outgoing_length : g'.outgoingEdges.length = g.outgoingEdges.length
  incoming_length : g'.incomingEdges.length = g.incomingEdges.length
  outgoing : ∀ m e, e ∈ g'.outgoing m ↔ (m = c.fromNode ∧ e = id) ∨ e ∈ g.outgoing m
  incoming : ∀ m e, e ∈ g'.incoming m ↔ (m = c.toNode ∧ e = id) ∨ e ∈ g.incoming m
  fresh : id ∉ g'.edgeFreeList

/-- Storing an edge between live nodes keeps the graph valid when the free list does. -/
theorem StoresEdge.valid {g g' : Graph} (hg : g.Valid) {id : EdgeId} {c : Edge}
    (h : StoresEdge g g' id c) (hid : c.id = id) (hfrom : (g.getNode c.fromNode).isSome)
    (hto : (g.getNode c.toNode).isSome)
    (hfree : ∀ e ∈ g'.edgeFreeList, e.toNat < g'.edges.length ∧ g'.getEdge e = none)
    (hnodup : g'.edgeFreeList.Nodup) : g'.Valid := by
  have hnode : ∀ m, g'.getNode m = g.getNode m := fun m => by rw [getNode, h.nodes, getNode]
  have hadj : ∀ (m : NodeId) (e : EdgeId) (end' : Edge → NodeId),
      ((m = end' c ∧ e = id) ∨ ∃ d, g.getEdge e = some d ∧ end' d = m) ↔
        ∃ d, g'.getEdge e = some d ∧ end' d = m := by
    intro m e end'
    rw [h.getEdge]
    by_cases he : e = id
    · subst he
      simp [h.dead, eq_comm]
    · simp [he]
  refine ⟨?_, ?_, ?_, ?_, ?_, ?_, ?_, ?_, hfree, hnodup⟩
  · rw [h.outgoing_length, h.nodes, hg.outgoing_length]
  · rw [h.incoming_length, h.nodes, hg.incoming_length]
  · intro e d he
    rw [h.getEdge] at he
    split at he
    · rename_i hee
      cases he
      rw [hid, hee]
    · exact hg.edge_id e d he
  · intro e d he
    rw [h.getEdge] at he
    rw [hnode, hnode]
    split at he
    · cases he
      exact ⟨hfrom, hto⟩
    · exact hg.endpoints e d he
  · intro m e
    rw [h.outgoing, hg.outgoing]
    exact hadj m e Edge.fromNode
  · intro m e
    rw [h.incoming, hg.incoming]
    exact hadj m e Edge.toNode
  · intro m hm
    rw [hnode, h.nodes]
    exact hg.nodeFree m (h.nodeFreeList ▸ hm)
  · exact h.nodeFreeList ▸ hg.nodeFree_nodup

/-- What creating an edge does to the slots: the first free slot is taken, or one is appended. -/
structure CreatesEdge (g g' : Graph) (id : EdgeId) (c : Edge) : Prop extends StoresEdge g g' id c where
  edges_length : g'.edges.length = g.edges.length + if g.edgeFreeList = [] then 1 else 0
  edgeFreeList : g'.edgeFreeList = g.edgeFreeList.tail

/-- The slot the next edge is stored in. -/
def nextEdgeId (g : Graph) : EdgeId := g.edgeFreeList.headD (UInt64.ofNat g.edges.length)

/-- Creating an edge between live nodes. -/
lemma Valid.createsEdge {g : Graph} (hg : g.Valid) (hlen : g.edges.length < 2 ^ 64)
    {fromNode toNode : NodeId} (hfrom : (g.getNode fromNode).isSome)
    (hto : (g.getNode toNode).isSome) (label : String) :
    (g.createEdge fromNode toNode label).2 = .ok g.nextEdgeId ∧
    CreatesEdge g (g.createEdge fromNode toNode label).1 g.nextEdgeId
      ⟨g.nextEdgeId, label, fromNode, toNode, ∅⟩ := by
  have hfrom' : (g.getNode fromNode).isNone = false := by simp [Option.isNone_eq_false_iff, hfrom]
  have hto' : (g.getNode toNode).isNone = false := by simp [Option.isNone_eq_false_iff, hto]
  unfold createEdge nextEdgeId
  simp only [hfrom', hto', Bool.false_eq_true, if_false]
  cases hfree : g.edgeFreeList with
  | cons freed rest =>
    obtain ⟨hlt, hdead⟩ := hg.edgeFree freed (hfree ▸ List.mem_cons_self)
    have hnodup := hg.edgeFree_nodup
    rw [hfree, List.nodup_cons] at hnodup
    refine ⟨rfl, ⟨hdead, ?_, rfl, rfl, ?_, ?_, ?_, ?_, hnodup.1⟩, ?_, ?_⟩
    · exact fun e => getD_set_uint _ _ _ _ _ hlt
    · simp
    · simp
    · exact fun m e => mem_modify_add _ _ _ _ _ (hg.outgoing_length ▸ toNat_lt_of_getNode hfrom)
    · exact fun m e => mem_modify_add _ _ _ _ _ (hg.incoming_length ▸ toNat_lt_of_getNode hto)
    · simp [hfree]
    · simp [hfree]
  | nil =>
    have hdead : g.getEdge (UInt64.ofNat g.edges.length) = none := by
      have hback : (UInt64.ofNat g.edges.length).toNat = g.edges.length := by
        rw [UInt64.toNat_ofNat']
        exact Nat.mod_eq_of_lt hlen
      rw [getEdge, hback, List.getD_eq_default _ _ le_rfl]
    refine ⟨rfl, ⟨hdead, ?_, rfl, rfl, ?_, ?_, ?_, ?_, ?_⟩, ?_, ?_⟩
    · exact fun e => getD_push_uint _ _ _ _ hlen
    · simp
    · simp
    · exact fun m e => mem_modify_add _ _ _ _ _ (hg.outgoing_length ▸ toNat_lt_of_getNode hfrom)
    · exact fun m e => mem_modify_add _ _ _ _ _ (hg.incoming_length ▸ toNat_lt_of_getNode hto)
    · simp
    · simp [hfree]
    · simp [hfree]

/-- An edge that is not created changes nothing. -/
lemma eq_of_createEdge_error {g g' : Graph} {fromNode toNode : NodeId} {label : String}
    {error : GraphError} (h : g.createEdge fromNode toNode label = (g', .error error)) : g' = g := by
  unfold createEdge at h
  split at h
  · exact (congrArg Prod.fst h).symm
  · split at h
    · exact (congrArg Prod.fst h).symm
    · have herror := congrArg Prod.snd h
      cases herror

/-- An edge is created between live nodes only. -/
lemma live_of_createEdge_ok {g : Graph} {fromNode toNode : NodeId} {label : String} {id : EdgeId}
    (h : (g.createEdge fromNode toNode label).2 = .ok id) :
    (g.getNode fromNode).isSome ∧ (g.getNode toNode).isSome := by
  unfold createEdge at h
  split at h
  · cases h
  · split at h
    · cases h
    · simp_all [Option.isSome_iff_ne_none]

/-- Creating an edge keeps the graph valid. -/
theorem CreatesEdge.valid {g g' : Graph} (hg : g.Valid) {id : EdgeId} {c : Edge}
    (h : CreatesEdge g g' id c) (hid : c.id = id) (hfrom : (g.getNode c.fromNode).isSome)
    (hto : (g.getNode c.toNode).isSome) : g'.Valid := by
  refine h.toStoresEdge.valid hg hid hfrom hto (fun e he => ?_)
    (h.edgeFreeList ▸ hg.edgeFree_nodup.tail)
  have he' : e ∈ g.edgeFreeList := List.mem_of_mem_tail (h.edgeFreeList ▸ he)
  obtain ⟨hlt, hdead⟩ := hg.edgeFree e he'
  have hne : e ≠ id := by
    rintro rfl
    exact h.fresh he
  refine ⟨hlt.trans_le (h.edges_length ▸ Nat.le_add_right _ _), ?_⟩
  rw [h.getEdge, if_neg hne, hdead]

/-! ## Deleting edges -/

/-- What dropping the edges of a list does to the slots.  The list is free for new edges from its
front on. -/
structure DropsEdges (g g' : Graph) (freed : List EdgeId) : Prop where
  getEdge : ∀ e, g'.getEdge e = if e ∈ freed then none else g.getEdge e
  edges_length : g'.edges.length = g.edges.length
  edgeFreeList : g'.edgeFreeList = freed ++ g.edgeFreeList
  outgoing_length : g'.outgoingEdges.length = g.outgoingEdges.length
  incoming_length : g'.incomingEdges.length = g.incomingEdges.length
  nodes : g'.nodes = g.nodes
  nodeFreeList : g'.nodeFreeList = g.nodeFreeList

/-- Dropping live edges keeps the graph valid when the adjacency follows. -/
theorem DropsEdges.valid {g g' : Graph} (hg : g.Valid) {freed : List EdgeId}
    (h : DropsEdges g g' freed) (hnodup : freed.Nodup)
    (hlive : ∀ e ∈ freed, (g.getEdge e).isSome)
    (hout : ∀ m e, e ∈ g'.outgoing m ↔ e ∉ freed ∧ e ∈ g.outgoing m)
    (hin : ∀ m e, e ∈ g'.incoming m ↔ e ∉ freed ∧ e ∈ g.incoming m) : g'.Valid := by
  have hnode : ∀ m, g'.getNode m = g.getNode m := fun m => by rw [getNode, h.nodes, getNode]
  have hold : ∀ e c, g'.getEdge e = some c ↔ e ∉ freed ∧ g.getEdge e = some c := by
    intro e c
    rw [h.getEdge]
    by_cases he : e ∈ freed <;> simp [he]
  refine ⟨?_, ?_, ?_, ?_, ?_, ?_, ?_, ?_, ?_, ?_⟩
  · rw [h.outgoing_length, h.nodes, hg.outgoing_length]
  · rw [h.incoming_length, h.nodes, hg.incoming_length]
  · exact fun e c he => hg.edge_id e c ((hold e c).mp he).2
  · intro e c he
    rw [hnode, hnode]
    exact hg.endpoints e c ((hold e c).mp he).2
  · intro m e
    simp only [hout, hg.outgoing, hold, and_assoc, exists_and_left]
  · intro m e
    simp only [hin, hg.incoming, hold, and_assoc, exists_and_left]
  · intro m hm
    rw [hnode, h.nodes]
    exact hg.nodeFree m (h.nodeFreeList ▸ hm)
  · exact h.nodeFreeList ▸ hg.nodeFree_nodup
  · intro e he
    rw [h.edgeFreeList, List.mem_append] at he
    rw [h.getEdge, h.edges_length]
    rcases he with he | he
    · obtain ⟨c, hc⟩ := Option.isSome_iff_exists.mp (hlive e he)
      exact ⟨toNat_lt_of_getEdge hc, if_pos he⟩
    · obtain ⟨hlt, hdead⟩ := hg.edgeFree e he
      refine ⟨hlt, ?_⟩
      split
      · rfl
      · exact hdead
  · rw [h.edgeFreeList, List.nodup_append]
    refine ⟨hnodup, hg.edgeFree_nodup, ?_⟩
    rintro e he e' he' rfl
    have hsome := hlive e he
    rw [(hg.edgeFree e he').2] at hsome
    cases hsome

lemma dropsEdges_deleteEdge {g : Graph} {id : EdgeId} {c : Edge} (hc : g.getEdge id = some c) :
    DropsEdges g (g.deleteEdge id).1 [id] := by
  unfold deleteEdge
  simp only [hc]
  refine ⟨?_, by simp, rfl, by simp, by simp, rfl, rfl⟩
  intro e
  have h := getD_set_uint g.edges id e none none (toNat_lt_of_getEdge hc)
  simpa [getEdge] using h

/-- Deleting an edge keeps the graph valid. -/
theorem Valid.deleteEdge {g : Graph} (hg : g.Valid) (id : EdgeId) : (g.deleteEdge id).1.Valid := by
  cases hc : g.getEdge id with
  | none =>
    have hsame : (g.deleteEdge id).1 = g := by simp [Graph.deleteEdge, hc]
    rwa [hsame]
  | some c =>
    refine (dropsEdges_deleteEdge hc).valid hg (List.nodup_singleton _) ?_ ?_ ?_
    · simp [hc]
    · intro m e
      have h := mem_modify_remove g.outgoingEdges c.fromNode m id e
      have hmem : e ∈ (g.deleteEdge id).1.outgoing m ↔ ¬ (m = c.fromNode ∧ e = id) ∧
          e ∈ g.outgoing m := by
        simpa [Graph.deleteEdge, hc, Graph.outgoing] using h
      rw [hmem, List.mem_singleton]
      refine and_congr_left fun he => ?_
      -- The edge is only in the set of its own source.
      obtain ⟨d, hd, rfl⟩ := (hg.outgoing m e).mp he
      by_cases hid : e = id
      · subst hid
        rw [hc] at hd
        cases hd
        simp
      · simp [hid]
    · intro m e
      have h := mem_modify_remove g.incomingEdges c.toNode m id e
      have hmem : e ∈ (g.deleteEdge id).1.incoming m ↔ ¬ (m = c.toNode ∧ e = id) ∧
          e ∈ g.incoming m := by
        simpa [Graph.deleteEdge, hc, Graph.incoming] using h
      rw [hmem, List.mem_singleton]
      refine and_congr_left fun he => ?_
      obtain ⟨d, hd, rfl⟩ := (hg.incoming m e).mp he
      by_cases hid : e = id
      · subst hid
        rw [hc] at hd
        cases hd
        simp
      · simp [hid]

/-! ## Properties -/

/-- The graph with a stored node changed in place. -/
def modifyNode (g : Graph) (id : NodeId) (f : Node → Node) : Graph :=
  { g with nodes := g.nodes.modify id.toNat (Option.map f) }

/-- The graph with a stored edge changed in place. -/
def modifyEdge (g : Graph) (id : EdgeId) (f : Edge → Edge) : Graph :=
  { g with edges := g.edges.modify id.toNat (Option.map f) }

lemma getNode_modifyNode (g : Graph) (id : NodeId) (f : Node → Node) (m : NodeId) :
    (g.modifyNode id f).getNode m = if m = id then (g.getNode m).map f else g.getNode m :=
  getD_modify_uint _ _ _ _ (.inl rfl)

lemma getEdge_modifyEdge (g : Graph) (id : EdgeId) (f : Edge → Edge) (e : EdgeId) :
    (g.modifyEdge id f).getEdge e = if e = id then (g.getEdge e).map f else g.getEdge e :=
  getD_modify_uint _ _ _ _ (.inl rfl)

lemma getNode_setNodeProperty (g : Graph) (id : NodeId) (key : String) (value : PropertyValue)
    (m : NodeId) : (g.setNodeProperty id key value).getNode m =
      if m = id then (g.getNode m).map (·.setProperty key value) else g.getNode m :=
  getNode_modifyNode g id _ m

lemma getEdge_setEdgeProperty (g : Graph) (id : EdgeId) (key : String) (value : PropertyValue)
    (e : EdgeId) : (g.setEdgeProperty id key value).getEdge e =
      if e = id then (g.getEdge e).map (·.setProperty key value) else g.getEdge e :=
  getEdge_modifyEdge g id _ e

/-- Changing a node in place keeps the graph valid. -/
theorem Valid.modifyNode {g : Graph} (hg : g.Valid) (id : NodeId) (f : Node → Node) :
    (g.modifyNode id f).Valid := by
  have hsome : ∀ m, ((g.modifyNode id f).getNode m).isSome = (g.getNode m).isSome := by
    intro m
    rw [getNode_modifyNode]
    split
    · simp
    · rfl
  have hlen : (g.modifyNode id f).nodes.length = g.nodes.length := by
    simp [Graph.modifyNode]
  refine ⟨?_, ?_, hg.edge_id, ?_, hg.outgoing, hg.incoming, ?_, hg.nodeFree_nodup, hg.edgeFree,
    hg.edgeFree_nodup⟩
  · rw [hlen]
    exact hg.outgoing_length
  · rw [hlen]
    exact hg.incoming_length
  · intro e c he
    rw [hsome, hsome]
    exact hg.endpoints e c he
  · intro m hm
    obtain ⟨hlt, hdead⟩ := hg.nodeFree m hm
    refine ⟨hlen ▸ hlt, ?_⟩
    rw [← Option.isNone_iff_eq_none, ← Option.not_isSome, hsome, hdead]
    rfl

/-- Setting a node property keeps the graph valid. -/
theorem Valid.setNodeProperty {g : Graph} (hg : g.Valid) (id : NodeId) (key : String)
    (value : PropertyValue) : (g.setNodeProperty id key value).Valid :=
  hg.modifyNode id _

/-- Changing an edge in place keeps the graph valid when it stays between its endpoints. -/
theorem Valid.modifyEdge {g : Graph} (hg : g.Valid) (id : EdgeId) {f : Edge → Edge}
    (hf : ∀ c, (f c).id = c.id ∧ (f c).fromNode = c.fromNode ∧ (f c).toNode = c.toNode) :
    (g.modifyEdge id f).Valid := by
  have hold : ∀ e c, (g.modifyEdge id f).getEdge e = some c →
      ∃ d, g.getEdge e = some d ∧ d.id = c.id ∧ d.fromNode = c.fromNode ∧ d.toNode = c.toNode := by
    intro e c he
    rw [getEdge_modifyEdge] at he
    split at he
    · obtain ⟨d, hd, rfl⟩ := Option.map_eq_some_iff.mp he
      exact ⟨d, hd, (hf d).1.symm, (hf d).2.1.symm, (hf d).2.2.symm⟩
    · exact ⟨c, he, rfl, rfl, rfl⟩
  have hnew : ∀ e d, g.getEdge e = some d → ∃ c, (g.modifyEdge id f).getEdge e = some c ∧
      c.fromNode = d.fromNode ∧ c.toNode = d.toNode := by
    intro e d hd
    rw [getEdge_modifyEdge]
    split
    · exact ⟨f d, by rw [hd]; rfl, (hf d).2⟩
    · exact ⟨d, hd, rfl, rfl⟩
  refine ⟨hg.outgoing_length, hg.incoming_length, ?_, ?_, ?_, ?_, hg.nodeFree, hg.nodeFree_nodup,
    ?_, hg.edgeFree_nodup⟩
  · intro e c he
    obtain ⟨d, hd, hid, -, -⟩ := hold e c he
    rw [← hid]
    exact hg.edge_id e d hd
  · intro e c he
    obtain ⟨d, hd, -, hfrom, hto⟩ := hold e c he
    rw [← hfrom, ← hto]
    exact hg.endpoints e d hd
  · intro m e
    refine (hg.outgoing m e).trans ⟨?_, ?_⟩
    · rintro ⟨d, hd, rfl⟩
      obtain ⟨c, hc, hfrom, -⟩ := hnew e d hd
      exact ⟨c, hc, hfrom⟩
    · rintro ⟨c, hc, rfl⟩
      obtain ⟨d, hd, -, hfrom, -⟩ := hold e c hc
      exact ⟨d, hd, hfrom⟩
  · intro m e
    refine (hg.incoming m e).trans ⟨?_, ?_⟩
    · rintro ⟨d, hd, rfl⟩
      obtain ⟨c, hc, -, hto⟩ := hnew e d hd
      exact ⟨c, hc, hto⟩
    · rintro ⟨c, hc, rfl⟩
      obtain ⟨d, hd, -, -, hto⟩ := hold e c hc
      exact ⟨d, hd, hto⟩
  · intro e he
    obtain ⟨hlt, hdead⟩ := hg.edgeFree e he
    refine ⟨by simpa [Graph.modifyEdge] using hlt, ?_⟩
    rw [getEdge_modifyEdge, hdead]
    simp

/-- Setting an edge property keeps the graph valid. -/
theorem Valid.setEdgeProperty {g : Graph} (hg : g.Valid) (id : EdgeId) (key : String)
    (value : PropertyValue) : (g.setEdgeProperty id key value).Valid :=
  hg.modifyEdge id fun _ => ⟨rfl, rfl, rfl⟩

/-! ## Deleting nodes -/

/-- Dropping edges twice. -/
lemma DropsEdges.trans {g g₁ g₂ : Graph} {freed freed' : List EdgeId} (h : DropsEdges g g₁ freed)
    (h' : DropsEdges g₁ g₂ freed') : DropsEdges g g₂ (freed' ++ freed) where
  getEdge e := by
    rw [h'.getEdge, h.getEdge]
    by_cases he' : e ∈ freed'
    · simp [he']
    · simp [he']
  edges_length := by rw [h'.edges_length, h.edges_length]
  edgeFreeList := by rw [h'.edgeFreeList, h.edgeFreeList, List.append_assoc]
  outgoing_length := by rw [h'.outgoing_length, h.outgoing_length]
  incoming_length := by rw [h'.incoming_length, h.incoming_length]
  nodes := by rw [h'.nodes, h.nodes]
  nodeFreeList := by rw [h'.nodeFreeList, h.nodeFreeList]

lemma DropsEdges.refl (g : Graph) : DropsEdges g g [] := by
  constructor <;> simp

/-- One round of the first loop. -/
lemma dropsEdges_dropOutgoing {g : Graph} {id : EdgeId} {c : Edge} (hc : g.getEdge id = some c) :
    DropsEdges g (g.dropOutgoing id) [id] := by
  unfold dropOutgoing
  simp only [hc]
  refine ⟨?_, by simp, rfl, by simp, by simp, rfl, rfl⟩
  intro e
  have h := getD_set_uint g.edges id e none none (toNat_lt_of_getEdge hc)
  simpa [getEdge] using h

/-- One round of the second loop. -/
lemma dropsEdges_dropIncoming {g : Graph} {id : EdgeId} {c : Edge} (hc : g.getEdge id = some c) :
    DropsEdges g (g.dropIncoming id) [id] := by
  unfold dropIncoming
  simp only [hc]
  refine ⟨?_, by simp, rfl, by simp, by simp, rfl, rfl⟩
  intro e
  have h := getD_set_uint g.edges id e none none (toNat_lt_of_getEdge hc)
  simpa [getEdge] using h

/-- The first loop, over live edges: the incoming sets lose the dropped edges, the outgoing sets do
not change. -/
lemma foldl_dropOutgoing (es : List EdgeId) (g : Graph) (hnodup : es.Nodup)
    (hlive : ∀ e ∈ es, (g.getEdge e).isSome)
    (hin : ∀ m e, e ∈ g.incoming m → ∃ c, g.getEdge e = some c ∧ c.toNode = m) :
    DropsEdges g (es.foldl dropOutgoing g) es.reverse ∧
    (es.foldl dropOutgoing g).outgoingEdges = g.outgoingEdges ∧
    ∀ m e, e ∈ (es.foldl dropOutgoing g).incoming m ↔ e ∉ es ∧ e ∈ g.incoming m := by
  induction es generalizing g with
  | nil => exact ⟨DropsEdges.refl g, rfl, fun m e => by simp⟩
  | cons id es ih =>
    obtain ⟨hid, hnodup⟩ := List.nodup_cons.mp hnodup
    obtain ⟨c, hc⟩ := Option.isSome_iff_exists.mp (hlive id List.mem_cons_self)
    have hdrop := dropsEdges_dropOutgoing hc
    have hkeep : ∀ e, e ≠ id → (g.dropOutgoing id).getEdge e = g.getEdge e := by
      intro e he
      rw [hdrop.getEdge, if_neg (by simpa using he)]
    have hin₁ : ∀ m e, e ∈ (g.dropOutgoing id).incoming m ↔ e ≠ id ∧ e ∈ g.incoming m := by
      intro m e
      have hmem : e ∈ (g.dropOutgoing id).incoming m ↔ ¬ (m = c.toNode ∧ e = id) ∧
          e ∈ g.incoming m := by
        have h := mem_modify_remove g.incomingEdges c.toNode m id e
        simpa [dropOutgoing, hc, incoming] using h
      rw [hmem]
      refine and_congr_left fun he => ?_
      obtain ⟨d, hd, rfl⟩ := hin m e he
      by_cases hee : e = id
      · subst hee
        rw [hc] at hd
        cases hd
        simp
      · simp [hee]
    have hlive₁ : ∀ e ∈ es, ((g.dropOutgoing id).getEdge e).isSome := by
      intro e he
      rw [hkeep e (fun h => hid (h ▸ he))]
      exact hlive e (List.mem_cons_of_mem _ he)
    have hsound₁ : ∀ m e, e ∈ (g.dropOutgoing id).incoming m →
        ∃ c, (g.dropOutgoing id).getEdge e = some c ∧ c.toNode = m := by
      intro m e he
      obtain ⟨hne, he⟩ := (hin₁ m e).mp he
      rw [hkeep e hne]
      exact hin m e he
    obtain ⟨hrest, hout, hin₂⟩ := ih (g.dropOutgoing id) hnodup hlive₁ hsound₁
    refine ⟨?_, ?_, ?_⟩
    · rw [List.foldl_cons, List.reverse_cons]
      exact hdrop.trans hrest
    · rw [List.foldl_cons, hout, dropOutgoing, hc]
    · intro m e
      rw [List.foldl_cons, hin₂, hin₁, List.mem_cons, not_or]
      tauto

/-- The second loop, over live edges: the outgoing sets lose the dropped edges, the incoming sets do
not change. -/
lemma foldl_dropIncoming (es : List EdgeId) (g : Graph) (hnodup : es.Nodup)
    (hlive : ∀ e ∈ es, (g.getEdge e).isSome)
    (hout : ∀ m e, e ∈ g.outgoing m → ∃ c, g.getEdge e = some c ∧ c.fromNode = m) :
    DropsEdges g (es.foldl dropIncoming g) es.reverse ∧
    (es.foldl dropIncoming g).incomingEdges = g.incomingEdges ∧
    ∀ m e, e ∈ (es.foldl dropIncoming g).outgoing m ↔ e ∉ es ∧ e ∈ g.outgoing m := by
  induction es generalizing g with
  | nil => exact ⟨DropsEdges.refl g, rfl, fun m e => by simp⟩
  | cons id es ih =>
    obtain ⟨hid, hnodup⟩ := List.nodup_cons.mp hnodup
    obtain ⟨c, hc⟩ := Option.isSome_iff_exists.mp (hlive id List.mem_cons_self)
    have hdrop := dropsEdges_dropIncoming hc
    have hkeep : ∀ e, e ≠ id → (g.dropIncoming id).getEdge e = g.getEdge e := by
      intro e he
      rw [hdrop.getEdge, if_neg (by simpa using he)]
    have hout₁ : ∀ m e, e ∈ (g.dropIncoming id).outgoing m ↔ e ≠ id ∧ e ∈ g.outgoing m := by
      intro m e
      have hmem : e ∈ (g.dropIncoming id).outgoing m ↔ ¬ (m = c.fromNode ∧ e = id) ∧
          e ∈ g.outgoing m := by
        have h := mem_modify_remove g.outgoingEdges c.fromNode m id e
        simpa [dropIncoming, hc, outgoing] using h
      rw [hmem]
      refine and_congr_left fun he => ?_
      obtain ⟨d, hd, rfl⟩ := hout m e he
      by_cases hee : e = id
      · subst hee
        rw [hc] at hd
        cases hd
        simp
      · simp [hee]
    have hlive₁ : ∀ e ∈ es, ((g.dropIncoming id).getEdge e).isSome := by
      intro e he
      rw [hkeep e (fun h => hid (h ▸ he))]
      exact hlive e (List.mem_cons_of_mem _ he)
    have hsound₁ : ∀ m e, e ∈ (g.dropIncoming id).outgoing m →
        ∃ c, (g.dropIncoming id).getEdge e = some c ∧ c.fromNode = m := by
      intro m e he
      obtain ⟨hne, he⟩ := (hout₁ m e).mp he
      rw [hkeep e hne]
      exact hout m e he
    obtain ⟨hrest, hin, hout₂⟩ := ih (g.dropIncoming id) hnodup hlive₁ hsound₁
    refine ⟨?_, ?_, ?_⟩
    · rw [List.foldl_cons, List.reverse_cons]
      exact hdrop.trans hrest
    · rw [List.foldl_cons, hin, dropIncoming, hc]
    · intro m e
      rw [List.foldl_cons, hout₂, hout₁, List.mem_cons, not_or]
      tauto

lemma mem_iter (order : IterOrder) (s : HashSet EdgeId) (e : EdgeId) :
    e ∈ order.iter s ↔ e ∈ s := by
  rw [(order.perm s).mem_iff, HashSet.mem_toList]

lemma nodup_iter (order : IterOrder) (s : HashSet EdgeId) : (order.iter s).Nodup :=
  (order.perm s).nodup_iff.mpr (HashSet.nodup_toList s)

/-- Taking the outgoing edges of a node drops exactly these. -/
lemma Valid.takeOutgoing {g : Graph} (hg : g.Valid) (order : IterOrder) {id : NodeId}
    (hid : (g.getNode id).isSome) :
    DropsEdges g (takeOutgoing order g id) (order.iter (g.outgoing id)).reverse ∧
    (takeOutgoing order g id).Valid := by
  have hlen : id.toNat < g.outgoingEdges.length := hg.outgoing_length ▸ toNat_lt_of_getNode hid
  have hlive : ∀ e ∈ order.iter (g.outgoing id), (g.getEdge e).isSome := by
    intro e he
    obtain ⟨c, hc, -⟩ := (hg.outgoing id e).mp ((mem_iter order _ e).mp he)
    simp [hc]
  obtain ⟨hdrop, hout, hin⟩ := foldl_dropOutgoing (order.iter (g.outgoing id))
    { g with outgoingEdges := g.outgoingEdges.set id.toNat ∅ } (nodup_iter order _) hlive
    (fun m e he => (hg.incoming m e).mp he)
  have hstart : DropsEdges g { g with outgoingEdges := g.outgoingEdges.set id.toNat ∅ } [] := by
    constructor <;> simp [getEdge]
  have htotal := hstart.trans hdrop
  rw [List.append_nil] at htotal
  refine ⟨htotal, htotal.valid hg ?_ ?_ ?_ ?_⟩
  · exact List.nodup_reverse.mpr (nodup_iter order _)
  · exact fun e he => hlive e (List.mem_reverse.mp he)
  · intro m e
    have hset : (Graph.takeOutgoing order g id).outgoing m = if m = id then ∅ else g.outgoing m := by
      rw [Graph.outgoing, Graph.takeOutgoing, hout]
      exact getD_set_uint _ _ _ _ _ hlen
    rw [hset, List.mem_reverse, mem_iter]
    by_cases hm : m = id
    · subst hm
      simp
    · rw [if_neg hm]
      refine ⟨fun he => ⟨fun he' => ?_, he⟩, And.right⟩
      -- An edge leaves only one node.
      obtain ⟨c, hc, rfl⟩ := (hg.outgoing m e).mp he
      obtain ⟨d, hd, rfl⟩ := (hg.outgoing id e).mp he'
      rw [hc] at hd
      exact hm (by rw [Option.some.inj hd])
  · intro m e
    rw [List.mem_reverse]
    exact hin m e

/-- Taking the incoming edges of a node drops exactly these. -/
lemma Valid.takeIncoming {g : Graph} (hg : g.Valid) (order : IterOrder) {id : NodeId}
    (hid : (g.getNode id).isSome) :
    DropsEdges g (takeIncoming order g id) (order.iter (g.incoming id)).reverse ∧
    (takeIncoming order g id).Valid := by
  have hlen : id.toNat < g.incomingEdges.length := hg.incoming_length ▸ toNat_lt_of_getNode hid
  have hlive : ∀ e ∈ order.iter (g.incoming id), (g.getEdge e).isSome := by
    intro e he
    obtain ⟨c, hc, -⟩ := (hg.incoming id e).mp ((mem_iter order _ e).mp he)
    simp [hc]
  obtain ⟨hdrop, hin, hout⟩ := foldl_dropIncoming (order.iter (g.incoming id))
    { g with incomingEdges := g.incomingEdges.set id.toNat ∅ } (nodup_iter order _) hlive
    (fun m e he => (hg.outgoing m e).mp he)
  have hstart : DropsEdges g { g with incomingEdges := g.incomingEdges.set id.toNat ∅ } [] := by
    constructor <;> simp [getEdge]
  have htotal := hstart.trans hdrop
  rw [List.append_nil] at htotal
  refine ⟨htotal, htotal.valid hg ?_ ?_ ?_ ?_⟩
  · exact List.nodup_reverse.mpr (nodup_iter order _)
  · exact fun e he => hlive e (List.mem_reverse.mp he)
  · intro m e
    rw [List.mem_reverse]
    exact hout m e
  · intro m e
    have hset : (Graph.takeIncoming order g id).incoming m = if m = id then ∅ else g.incoming m := by
      rw [Graph.incoming, Graph.takeIncoming, hin]
      exact getD_set_uint _ _ _ _ _ hlen
    rw [hset, List.mem_reverse, mem_iter]
    by_cases hm : m = id
    · subst hm
      simp
    · rw [if_neg hm]
      refine ⟨fun he => ⟨fun he' => ?_, he⟩, And.right⟩
      obtain ⟨c, hc, rfl⟩ := (hg.incoming m e).mp he
      obtain ⟨d, hd, rfl⟩ := (hg.incoming id e).mp he'
      rw [hc] at hd
      exact hm (by rw [Option.some.inj hd])

/-- What deleting a live node does to the slots: its edges go too, in some order. -/
structure DeletesNode (g g' : Graph) (id : NodeId) (freed : List EdgeId) : Prop where
  nodes : g'.nodes = g.nodes.set id.toNat none
  nodeFreeList : g'.nodeFreeList = id :: g.nodeFreeList
  getEdge : ∀ e, g'.getEdge e = if e ∈ freed then none else g.getEdge e
  edges_length : g'.edges.length = g.edges.length
  edgeFreeList : g'.edgeFreeList = freed ++ g.edgeFreeList
  freed_nodup : freed.Nodup
  mem_freed : ∀ e, e ∈ freed ↔
    ∃ c, g.getEdge e = some c ∧ (c.fromNode = id ∨ c.toNode = id)

/-- Deleting a live node, in whatever order its edge sets are iterated. -/
lemma Valid.deletesNode {g : Graph} (hg : g.Valid) (outOrder inOrder : IterOrder) {id : NodeId}
    (hid : (g.getNode id).isSome) :
    ∃ freed, DeletesNode g (g.deleteNode outOrder inOrder id).1 id freed ∧
      (g.deleteNode outOrder inOrder id).1.Valid := by
  obtain ⟨hdrop₁, hg₁⟩ := hg.takeOutgoing outOrder hid
  have hid₁ : ((Graph.takeOutgoing outOrder g id).getNode id).isSome := by
    rwa [getNode, hdrop₁.nodes]
  obtain ⟨hdrop₂, hg₂⟩ := hg₁.takeIncoming inOrder hid₁
  have hdrop := hdrop₁.trans hdrop₂
  set g₁ := Graph.takeOutgoing outOrder g id with hg₁_def
  set g₂ := Graph.takeIncoming inOrder g₁ id with hg₂_def
  set freed := (inOrder.iter (g₁.incoming id)).reverse ++ (outOrder.iter (g.outgoing id)).reverse
    with hfreed
  have hmem : ∀ e, e ∈ freed ↔
      ∃ c, g.getEdge e = some c ∧ (c.fromNode = id ∨ c.toNode = id) := by
    intro e
    have hfirst : e ∈ (outOrder.iter (g.outgoing id)).reverse ↔
        ∃ c, g.getEdge e = some c ∧ c.fromNode = id := by
      rw [List.mem_reverse, mem_iter, hg.outgoing]
    rw [hfreed, List.mem_append, List.mem_reverse, mem_iter, hg₁.incoming, hfirst, hdrop₁.getEdge]
    by_cases hout : ∃ c, g.getEdge e = some c ∧ c.fromNode = id
    · obtain ⟨c, hc, hfrom⟩ := hout
      simp [hc, hfrom]
    · rw [if_neg (hfirst.not.mpr hout)]
      refine ⟨?_, ?_⟩
      · rintro (⟨c, hc, hto⟩ | h)
        · exact ⟨c, hc, .inr hto⟩
        · exact absurd h hout
      · rintro ⟨c, hc, hfrom | hto⟩
        · exact absurd ⟨c, hc, hfrom⟩ hout
        · exact .inl ⟨c, hc, hto⟩
  have hnodup : freed.Nodup := by
    rw [hfreed, List.nodup_append]
    refine ⟨List.nodup_reverse.mpr (nodup_iter _ _), List.nodup_reverse.mpr (nodup_iter _ _), ?_⟩
    rintro e he e' he' rfl
    -- A self-loop is dropped by the first loop, and is in no set of the second one.
    rw [List.mem_reverse, mem_iter, hg₁.incoming, hdrop₁.getEdge, if_pos he'] at he
    obtain ⟨c, hc, -⟩ := he
    cases hc
  obtain ⟨node, hnode⟩ := Option.isSome_iff_exists.mp hid
  obtain ⟨ix, hix⟩ := foldl_labelIndexRemove_eq { g₂ with nodes := g₂.nodes.set id.toNat none } id
    node.labels
  have hdelete : (g.deleteNode outOrder inOrder id).1 =
      { g₂ with
        nodes := g₂.nodes.set id.toNat none
        labelIndex := ix
        nodeFreeList := id :: g₂.nodeFreeList
        nodeCount := g₂.nodeCount - 1 } := by
    simp only [Graph.deleteNode, hnode]
    rw [← hg₁_def, ← hg₂_def, hix]
  refine ⟨freed, ?_, ?_⟩
  · rw [hdelete]
    refine ⟨by simp [hdrop.nodes], by simp [hdrop.nodeFreeList], hdrop.getEdge,
      hdrop.edges_length, hdrop.edgeFreeList, hnodup, hmem⟩
  · rw [hdelete]
    have hlen : id.toNat < g₂.nodes.length := by
      rw [hdrop.nodes]
      exact toNat_lt_of_getNode hid
    have hnode₂ : ∀ m, (g₂.nodes.set id.toNat none).getD m.toNat none =
        if m = id then none else g₂.getNode m := fun m => getD_set_uint _ _ _ _ _ hlen
    have hlive₂ : (g₂.getNode id).isSome := by
      rwa [getNode, hdrop.nodes]
    refine ⟨?_, ?_, hg₂.edge_id, ?_, hg₂.outgoing, hg₂.incoming, ?_, ?_, hg₂.edgeFree,
      hg₂.edgeFree_nodup⟩
    · simp [hg₂.outgoing_length]
    · simp [hg₂.incoming_length]
    · intro e c he
      obtain ⟨hfrom, hto⟩ := hg₂.endpoints e c he
      have he' : g₂.getEdge e = some c := he
      have hlive : g.getEdge e = some c ∧ e ∉ freed := by
        rw [hdrop.getEdge] at he'
        split at he'
        · cases he'
        · exact ⟨he', ‹_›⟩
      rw [hmem] at hlive
      have hne : ¬ (c.fromNode = id ∨ c.toNode = id) := fun h => hlive.2 ⟨c, hlive.1, h⟩
      rw [not_or] at hne
      rw [getNode, getNode, hnode₂, hnode₂, if_neg hne.1, if_neg hne.2]
      exact ⟨hfrom, hto⟩
    · intro m hm
      rw [getNode, hnode₂, List.length_set]
      rcases List.mem_cons.mp hm with rfl | hm
      · exact ⟨hlen, if_pos rfl⟩
      · obtain ⟨hlt, hdead⟩ := hg₂.nodeFree m hm
        refine ⟨hlt, ?_⟩
        split
        · rfl
        · exact hdead
    · refine List.nodup_cons.mpr ⟨fun hmem => ?_, hg₂.nodeFree_nodup⟩
      rw [(hg₂.nodeFree id hmem).2] at hlive₂
      cases hlive₂

/-- The edges that a deletion of the node takes with it. -/
def incidentEdges (g : Graph) (id : NodeId) : List EdgeId :=
  ((g.outgoing id).toList ++ (g.incoming id).toList).dedup

lemma Valid.mem_incidentEdges {g : Graph} (hg : g.Valid) {id : NodeId} {e : EdgeId} :
    e ∈ g.incidentEdges id ↔ ∃ c, g.getEdge e = some c ∧ (c.fromNode = id ∨ c.toNode = id) := by
  rw [incidentEdges, List.mem_dedup, List.mem_append, HashSet.mem_toList, HashSet.mem_toList,
    hg.outgoing, hg.incoming, ← exists_or]
  simp only [and_or_left]

/-- The freed edges are the incident ones. -/
lemma DeletesNode.perm {g g' : Graph} (hg : g.Valid) {id : NodeId} {freed : List EdgeId}
    (h : DeletesNode g g' id freed) : freed.Perm (g.incidentEdges id) := by
  refine (List.perm_ext_iff_of_nodup h.freed_nodup (List.nodup_dedup _)).mpr ?_
  intro e
  rw [h.mem_freed]
  exact hg.mem_incidentEdges.symm

lemma deleteNode_of_dead {g : Graph} {id : NodeId} (hid : g.getNode id = none)
    (outOrder inOrder : IterOrder) : g.deleteNode outOrder inOrder id = (g, none) := by
  simp [deleteNode, hid]

/-! ## Reading after a change -/

lemma nodes_deleteEdge (g : Graph) (id : EdgeId) : (g.deleteEdge id).1.nodes = g.nodes := by
  unfold deleteEdge
  split <;> rfl

lemma edges_length_deleteEdge (g : Graph) (id : EdgeId) :
    (g.deleteEdge id).1.edges.length = g.edges.length := by
  unfold deleteEdge
  split
  · rfl
  · simp

lemma getEdge_deleteEdge (g : Graph) (id e : EdgeId) :
    (g.deleteEdge id).1.getEdge e = if e = id then none else g.getEdge e := by
  cases hc : g.getEdge id with
  | none =>
    have hsame : (g.deleteEdge id).1 = g := by simp [deleteEdge, hc]
    rw [hsame]
    split
    · next he => rw [he, hc]
    · rfl
  | some c => simpa only [List.mem_singleton] using (dropsEdges_deleteEdge hc).getEdge e

lemma nodes_createEdge (g : Graph) (fromNode toNode : NodeId) (label : String) :
    (g.createEdge fromNode toNode label).1.nodes = g.nodes := by
  unfold createEdge
  split
  · rfl
  · split
    · rfl
    · cases g.edgeFreeList <;> rfl

theorem Valid.deleteNode {g : Graph} (hg : g.Valid) (outOrder inOrder : IterOrder) (id : NodeId) :
    (g.deleteNode outOrder inOrder id).1.Valid := by
  cases hn : g.getNode id with
  | none => rwa [deleteNode_of_dead hn]
  | some n =>
    obtain ⟨-, -, hvalid⟩ := hg.deletesNode outOrder inOrder (by simp [hn] : (g.getNode id).isSome)
    exact hvalid

lemma Valid.getNode_deleteNode {g : Graph} (hg : g.Valid) (outOrder inOrder : IterOrder)
    (id m : NodeId) : (g.deleteNode outOrder inOrder id).1.getNode m =
      if m = id then none else g.getNode m := by
  cases hn : g.getNode id with
  | none =>
    rw [deleteNode_of_dead hn]
    split
    · next hm => rw [hm, hn]
    · rfl
  | some n =>
    have hlive : (g.getNode id).isSome := by simp [hn]
    obtain ⟨freed, hdelete, -⟩ := hg.deletesNode outOrder inOrder hlive
    rw [getNode, hdelete.nodes]
    exact getD_set_uint _ _ _ _ _ (toNat_lt_of_getNode hlive)

lemma Valid.nodes_length_deleteNode {g : Graph} (hg : g.Valid) (outOrder inOrder : IterOrder)
    (id : NodeId) : (g.deleteNode outOrder inOrder id).1.nodes.length = g.nodes.length := by
  cases hn : g.getNode id with
  | none => rw [deleteNode_of_dead hn]
  | some n =>
    obtain ⟨freed, hdelete, -⟩ := hg.deletesNode outOrder inOrder (by simp [hn] : (g.getNode id).isSome)
    rw [hdelete.nodes, List.length_set]

lemma Valid.edges_length_deleteNode {g : Graph} (hg : g.Valid) (outOrder inOrder : IterOrder)
    (id : NodeId) : (g.deleteNode outOrder inOrder id).1.edges.length = g.edges.length := by
  cases hn : g.getNode id with
  | none => rw [deleteNode_of_dead hn]
  | some n =>
    obtain ⟨freed, hdelete, -⟩ := hg.deletesNode outOrder inOrder (by simp [hn] : (g.getNode id).isSome)
    exact hdelete.edges_length

/-- A node goes with the edges at it. -/
lemma Valid.getEdge_deleteNode {g : Graph} (hg : g.Valid) (outOrder inOrder : IterOrder)
    (id : NodeId) (e : EdgeId) : (g.deleteNode outOrder inOrder id).1.getEdge e =
      (g.getEdge e).filter fun c => c.fromNode ≠ id ∧ c.toNode ≠ id := by
  cases hn : g.getNode id with
  | none =>
    rw [deleteNode_of_dead hn]
    cases hc : g.getEdge e with
    | none => rfl
    | some c =>
      obtain ⟨hfrom, hto⟩ := hg.endpoints e c hc
      have hne : ∀ m, (g.getNode m).isSome → m ≠ id := by
        rintro m hm rfl
        simp [hn] at hm
      simp [Option.filter, hne _ hfrom, hne _ hto]
  | some n =>
    obtain ⟨freed, hdelete, -⟩ := hg.deletesNode outOrder inOrder (by simp [hn] : (g.getNode id).isSome)
    rw [hdelete.getEdge]
    cases hc : g.getEdge e with
    | none => simp
    | some c =>
      have hiff : e ∈ freed ↔ c.fromNode = id ∨ c.toNode = id := by
        rw [hdelete.mem_freed, hc]
        simp
      by_cases hmem : e ∈ freed
      · rw [if_pos hmem]
        rcases hiff.mp hmem with h | h <;> simp [Option.filter, h]
      · have hnot := hiff.not.mp hmem
        rw [not_or] at hnot
        simp [if_neg hmem, Option.filter, hnot.1, hnot.2]

end Graph

end Maharit
