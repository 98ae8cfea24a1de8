import MaharitDb.Core.GraphSlots
import MaharitDb.Lib.GuardedRun

/-!
# The representation of the slot graph along runs

What the vectors, free lists, counters and the label index of a slot graph promise after any sequence
of operations.  The only call that breaks the promise adds the empty label: the node ignores it, the
label index does not.

A vector holds at most `isize::MAX` elements.  A call that has to grow one further panics, and the
run has no state behind it.
-/

namespace Maharit

open GuardedRun

namespace Graph

/-- What the parts of a slot graph promise. -/
structure Represents (g : Graph) : Prop where
  nodeFree_nodup : g.nodeFreeList.Nodup
  nodeFree : ∀ id ∈ g.nodeFreeList, id.toNat < g.nodes.length ∧ g.getNode id = none
  edgeFree_nodup : g.edgeFreeList.Nodup
  edgeFree : ∀ id ∈ g.edgeFreeList, id.toNat < g.edges.length ∧ g.getEdge id = none
  nodeCount : g.nodeCount = g.nodes.countP Option.isSome
  edgeCount : g.edgeCount = g.edges.countP Option.isSome
  outgoing : ∀ n id, id ∈ g.outgoing n ↔ ∃ e, g.getEdge id = some e ∧ e.fromNode = n
  incoming : ∀ n id, id ∈ g.incoming n ↔ ∃ e, g.getEdge id = some e ∧ e.toNode = n
  endpoints : ∀ id e, g.getEdge id = some e →
    (g.getNode e.fromNode).isSome ∧ (g.getNode e.toNode).isSome
  nodesByLabel : ∀ l id, id ∈ g.nodesByLabel l ↔ ∃ n, g.getNode id = some n ∧ n.hasLabel l = true

/-- `isize::MAX`, which no vector outgrows. -/
def vecLimit : ℕ := 2 ^ 63 - 1

/-- The vectors of the slots are allocated. -/
def Fits (g : Graph) : Prop := g.nodes.length ≤ vecLimit ∧ g.edges.length ≤ vecLimit

instance (g : Graph) : Decidable g.Fits := inferInstanceAs (Decidable (_ ∧ _))

/-- The invariant behind the promise. -/
structure Inv (g : Graph) : Prop where
  valid : g.Valid
  node_id : ∀ id n, g.getNode id = some n → n.id = id
  nodeCount : g.nodeCount = g.nodes.countP Option.isSome
  edgeCount : g.edgeCount = g.edges.countP Option.isSome
  labelIndex : ∀ l id, id ∈ HashMap.getDefault g.labelIndex l ↔
    ∃ n, g.getNode id = some n ∧ l ∈ n.labels
  fits : g.Fits

theorem Inv.represents {g : Graph} (hg : g.Inv) : g.Represents where
  nodeFree_nodup := hg.valid.nodeFree_nodup
  nodeFree := hg.valid.nodeFree
  edgeFree_nodup := hg.valid.edgeFree_nodup
  edgeFree := hg.valid.edgeFree
  nodeCount := hg.nodeCount
  edgeCount := hg.edgeCount
  outgoing := hg.valid.outgoing
  incoming := hg.valid.incoming
  endpoints := hg.valid.endpoints
  nodesByLabel l id := by
    simp only [Node.hasLabel_iff]
    exact hg.labelIndex l id

theorem inv_new : new.Inv where
  valid := valid_new
  node_id := by simp [new, getNode]
  nodeCount := rfl
  edgeCount := rfl
  labelIndex := by simp [new, getNode]
  fits := ⟨Nat.zero_le _, Nat.zero_le _⟩

lemma Fits.nodes_lt {g : Graph} (h : g.Fits) : g.nodes.length < 2 ^ 64 := by
  have hle := h.1
  unfold vecLimit at hle
  omega

lemma Fits.edges_lt {g : Graph} (h : g.Fits) : g.edges.length < 2 ^ 64 := by
  have hle := h.2
  unfold vecLimit at hle
  omega

/-! ## The label index -/

/-- Registering a node changes the label index only. -/
lemma labelIndexAddNode_rest (g : Graph) (id : NodeId) :
    (g.labelIndexAddNode id).nodes = g.nodes ∧ (g.labelIndexAddNode id).nodeCount = g.nodeCount ∧
      (g.labelIndexAddNode id).edgeCount = g.edgeCount := by
  obtain ⟨ix, hix⟩ := labelIndexAddNode_eq g id
  rw [hix]
  exact ⟨rfl, rfl, rfl⟩

/-- Membership in the label index after a stored node was registered. -/
lemma mem_labelIndexAddNode {g : Graph} {id : NodeId} {n : Node}
    (hn : (g.labelIndexAddNode id).getNode id = some n) (l : String) (m : NodeId) :
    m ∈ HashMap.getDefault (g.labelIndexAddNode id).labelIndex l ↔
      m = id ∧ l ∈ n.labels ∨ m ∈ HashMap.getDefault g.labelIndex l := by
  have hstored : g.getNode id = some n := by
    rwa [getNode, (labelIndexAddNode_rest g id).1] at hn
  unfold labelIndexAddNode
  rw [hstored]
  exact HashSet.mem_foldl_modifyDefault_add _ _ _ _ _

/-- Membership in the label index after a node was removed from a label. -/
lemma mem_labelIndexRemove (g : Graph) (id : NodeId) (label l : String) (m : NodeId) :
    m ∈ HashMap.getDefault (g.labelIndexRemove id label).labelIndex l ↔
      ¬(l = label ∧ m = id) ∧ m ∈ HashMap.getDefault g.labelIndex l := by
  unfold labelIndexRemove
  cases hset : g.labelIndex.lookup label with
  | none =>
    have hempty : HashMap.getDefault g.labelIndex label = ∅ := by simp [HashMap.getDefault, hset]
    refine ⟨fun hm => ⟨?_, hm⟩, And.right⟩
    rintro ⟨rfl, -⟩
    rw [hempty] at hm
    simp at hm
  | some set =>
    have hget : HashMap.getDefault g.labelIndex label = set := by simp [HashMap.getDefault, hset]
    have hmem : label ∈ g.labelIndex := (HashMap.mem_iff_exists _ _).mpr ⟨set, hset⟩
    -- An emptied entry reads back as the empty set it was dropped for.
    have hread : HashMap.getDefault
        (if (set.remove id).toList.isEmpty then g.labelIndex.erase label
          else g.labelIndex.replace label (set.remove id)) l =
        if l = label then set.remove id else HashMap.getDefault g.labelIndex l := by
      split
      · next hnil =>
        have hnone : set.remove id = ∅ := AList.ext (List.map_eq_nil_iff.mp (List.isEmpty_iff.mp hnil))
        rw [HashMap.getDefault_erase, hnone]
      · rw [HashMap.getDefault_replace _ hmem]
    simp only [hread]
    by_cases hl : l = label
    · subst hl
      simp [hget]
    · simp [hl]

/-- Membership in the label index after a node was removed from several labels. -/
lemma mem_foldl_labelIndexRemove (g : Graph) (id : NodeId) (labels : List String) (l : String)
    (m : NodeId) :
    m ∈ HashMap.getDefault
        (labels.foldl (fun g label => g.labelIndexRemove id label) g).labelIndex l ↔
      ¬(m = id ∧ l ∈ labels) ∧ m ∈ HashMap.getDefault g.labelIndex l := by
  induction labels generalizing g with
  | nil => simp
  | cons label labels ih =>
    rw [List.foldl_cons, ih, mem_labelIndexRemove, List.mem_cons]
    tauto

/-! ## Creating nodes -/

/-- A node stored in an empty slot, counted and registered. -/
lemma Inv.storesNode {g g₁ : Graph} (hg : g.Inv) {id : NodeId} {labels : List String}
    (h : StoresNode g (g₁.labelIndexAddNode id) id ⟨id, labels, ∅⟩)
    (hslots : g₁.nodes.countP Option.isSome = g.nodes.countP Option.isSome + 1)
    (hnodes : g₁.nodeCount = g.nodeCount + 1) (hedges : g₁.edgeCount = g.edgeCount)
    (hix : g₁.labelIndex = g.labelIndex) (hfits : (g₁.labelIndexAddNode id).Fits) :
    (g₁.labelIndexAddNode id).Inv := by
  obtain ⟨hrest, hrestNodes, hrestEdges⟩ := labelIndexAddNode_rest g₁ id
  have hstored := h.getNode id
  rw [if_pos rfl] at hstored
  refine ⟨h.valid hg.valid, ?_, ?_, ?_, ?_, hfits⟩
  · intro m n hn
    rw [h.getNode] at hn
    split at hn
    · next hm =>
      rw [← Option.some.inj hn, hm]
    · exact hg.node_id m n hn
  · rw [hrestNodes, hnodes, hrest, hslots, hg.nodeCount]
  · rw [hrestEdges, hedges, h.edges, hg.edgeCount]
  · intro l m
    rw [mem_labelIndexAddNode hstored, hix, hg.labelIndex, h.getNode]
    by_cases hm : m = id
    · subst hm
      simp [h.dead]
    · simp [hm]

theorem Inv.createNodeWithLabels {g : Graph} (hg : g.Inv) (labels : List String)
    (hfits : (g.createNodeWithLabels labels).1.Fits) : (g.createNodeWithLabels labels).1.Inv := by
  have hcreate := hg.valid.createsNode hg.fits.nodes_lt labels
  unfold Graph.createNodeWithLabels at hfits hcreate ⊢
  cases hfree : g.nodeFreeList with
  | nil =>
    simp only [hfree] at hfits hcreate ⊢
    refine hg.storesNode hcreate.toStoresNode ?_ rfl rfl rfl hfits
    simp
  | cons freed rest =>
    obtain ⟨hlt, hdead⟩ := hg.valid.nodeFree freed (hfree ▸ List.mem_cons_self)
    simp only [hfree] at hfits hcreate ⊢
    exact hg.storesNode hcreate.toStoresNode (Slots.countP_set_some hlt hdead _) rfl rfl rfl hfits

lemma length_resizeWith {α : Type} {l : List α} {len : ℕ} (h : l.length ≤ len) (v : α) :
    (resizeWith l len v).length = len := by
  simp [resizeWith, h]

lemma resizeWith_eq {α : Type} {l : List α} {len : ℕ} (h : l.length ≤ len) (v : α) :
    resizeWith l len v = l ++ List.replicate (len - l.length) v := by
  rw [resizeWith, List.take_of_length_le h]

/-- A resized vector reads as before. -/
lemma getD_resizeWith {α : Type} {l : List α} {len : ℕ} (h : l.length ≤ len) (v : α) (j : ℕ) :
    (resizeWith l len v).getD j v = l.getD j v := by
  rw [resizeWith_eq h]
  by_cases hj : j < l.length
  · rw [List.getD_append _ _ _ _ hj]
  · rw [List.getD_append_right _ _ _ _ (not_lt.mp hj), List.getD_eq_default l v (not_lt.mp hj),
      Slots.getD_replicate]

/-- The vectors of the node slots, extended, with the empty slot in reach. -/
structure GrowsNodes (g g' : Graph) (id : NodeId) : Prop where
  reach : id.toNat < g'.nodes.length
  getNode : ∀ m, g'.getNode m = g.getNode m
  length_le : g.nodes.length ≤ g'.nodes.length
  outgoing_length : g'.outgoingEdges.length = g'.nodes.length
  incoming_length : g'.incomingEdges.length = g'.nodes.length
  outgoing : ∀ m, g'.outgoing m = g.outgoing m
  incoming : ∀ m, g'.incoming m = g.incoming m
  slots : g'.nodes.countP Option.isSome = g.nodes.countP Option.isSome
  edges : g'.edges = g.edges
  nodeFreeList : g'.nodeFreeList = g.nodeFreeList
  edgeFreeList : g'.edgeFreeList = g.edgeFreeList
  nodeCount : g'.nodeCount = g.nodeCount
  edgeCount : g'.edgeCount = g.edgeCount
  labelIndex : g'.labelIndex = g.labelIndex

lemma Valid.growsNodes {g : Graph} (hg : g.Valid) (id : NodeId) : GrowsNodes g (g.growNodes id) id := by
  unfold growNodes
  split
  · next hle =>
    have hlen : g.nodes.length ≤ id.toNat + 1 := Nat.le_succ_of_le hle
    have hout : g.outgoingEdges.length ≤ id.toNat + 1 := hg.outgoing_length ▸ hlen
    have hinc : g.incomingEdges.length ≤ id.toNat + 1 := hg.incoming_length ▸ hlen
    refine ⟨?_, ?_, ?_, ?_, ?_, ?_, ?_, ?_, rfl, rfl, rfl, rfl, rfl, rfl⟩
    · simp [length_resizeWith hlen]
    · exact fun m => getD_resizeWith hlen none _
    · simpa [length_resizeWith hlen] using hlen
    · simp [length_resizeWith hlen, length_resizeWith hout]
    · simp [length_resizeWith hlen, length_resizeWith hinc]
    · exact fun m => getD_resizeWith hout ∅ _
    · exact fun m => getD_resizeWith hinc ∅ _
    · simp only [resizeWith_eq hlen]
      exact Slots.countP_append_replicate_none _ _
  · next hlt =>
    exact ⟨not_le.mp hlt, fun _ => rfl, le_rfl, hg.outgoing_length, hg.incoming_length, fun _ => rfl,
      fun _ => rfl, rfl, rfl, rfl, rfl, rfl, rfl, rfl⟩

/-- The graph with a node in a slot in reach, before the labels are registered. -/
def fillNode (g : Graph) (id : NodeId) (labels : List String) : Graph :=
  { g with
    nodeFreeList := g.nodeFreeList.filter (· ≠ id)
    nodes := g.nodes.set id.toNat (some (⟨id, labels, ∅⟩ : Node))
    outgoingEdges := g.outgoingEdges.set id.toNat ∅
    incomingEdges := g.incomingEdges.set id.toNat ∅
    nodeCount := g.nodeCount + 1 }

lemma GrowsNodes.storesNode {g g' : Graph} {id : NodeId} (h : GrowsNodes g g' id)
    (hdead : g.getNode id = none) (labels : List String) :
    StoresNode g ((g'.fillNode id labels).labelIndexAddNode id) id ⟨id, labels, ∅⟩ := by
  obtain ⟨ix, hix⟩ := labelIndexAddNode_eq (g'.fillNode id labels) id
  rw [hix]
  refine ⟨hdead, ?_, ?_, ?_, ?_, ?_, ?_, h.edges, h.edgeFreeList, ?_, ?_⟩
  · intro m
    rw [← h.getNode]
    exact getD_set_uint _ _ _ _ _ h.reach
  · simpa [fillNode] using h.length_le
  · simp [fillNode, h.outgoing_length]
  · simp [fillNode, h.incoming_length]
  · intro m
    rw [← h.outgoing]
    exact getD_set_uint _ _ _ _ _ (h.outgoing_length ▸ h.reach)
  · intro m
    rw [← h.incoming]
    exact getD_set_uint _ _ _ _ _ (h.incoming_length ▸ h.reach)
  · simp only [fillNode, h.nodeFreeList]
    exact List.filter_sublist
  · simp [fillNode]

/-- Creating a node in an empty slot. -/
lemma createNodeWithIdAndLabels_of_dead {g : Graph} {id : NodeId} (hdead : g.getNode id = none)
    (labels : List String) :
    (g.createNodeWithIdAndLabels id labels).1 =
      ((g.growNodes id).fillNode id labels).labelIndexAddNode id := by
  simp [createNodeWithIdAndLabels, hdead, fillNode]

theorem Inv.createNodeWithIdAndLabels {g : Graph} (hg : g.Inv) (id : NodeId) (labels : List String)
    (hfits : (g.createNodeWithIdAndLabels id labels).1.Fits) :
    (g.createNodeWithIdAndLabels id labels).1.Inv := by
  cases hnode : g.getNode id with
  | some n =>
    have hsame : (g.createNodeWithIdAndLabels id labels).1 = g := by
      simp [Graph.createNodeWithIdAndLabels, hnode]
    rwa [hsame]
  | none =>
    have hgrow := hg.valid.growsNodes id
    have hslot : (g.growNodes id).nodes.getD id.toNat none = none := (hgrow.getNode id).trans hnode
    rw [createNodeWithIdAndLabels_of_dead hnode] at hfits ⊢
    refine hg.storesNode (hgrow.storesNode hnode labels) ?_ ?_ hgrow.edgeCount hgrow.labelIndex hfits
    · exact (Slots.countP_set_some hgrow.reach hslot _).trans (congrArg (· + 1) hgrow.slots)
    · exact congrArg (· + 1) hgrow.nodeCount

/-! ## Edges -/

/-- A change of the edges that counts them keeps the invariant when the graph stays valid. -/
lemma Inv.of_edges {g g' : Graph} (hg : g.Inv) (hvalid : g'.Valid) (hnodes : g'.nodes = g.nodes)
    (hnodeCount : g'.nodeCount = g.nodeCount) (hix : g'.labelIndex = g.labelIndex)
    (hedgeCount : g'.edgeCount = g'.edges.countP Option.isSome) (hfits : g'.Fits) : g'.Inv := by
  have hnode : ∀ m, g'.getNode m = g.getNode m := fun m => by rw [getNode, hnodes, getNode]
  refine ⟨hvalid, ?_, ?_, hedgeCount, ?_, hfits⟩
  · intro m n hn
    rw [hnode] at hn
    exact hg.node_id m n hn
  · rw [hnodeCount, hnodes, hg.nodeCount]
  · intro l m
    rw [hix, hnode]
    exact hg.labelIndex l m

/-- An edge stored in an empty slot and counted. -/
lemma Inv.storesEdge {g g' : Graph} (hg : g.Inv) (hvalid : g'.Valid) (hnodes : g'.nodes = g.nodes)
    (hnodeCount : g'.nodeCount = g.nodeCount) (hix : g'.labelIndex = g.labelIndex)
    (hslots : g'.edges.countP Option.isSome = g.edges.countP Option.isSome + 1)
    (hedgeCount : g'.edgeCount = g.edgeCount + 1) (hfits : g'.Fits) : g'.Inv :=
  hg.of_edges hvalid hnodes hnodeCount hix (by rw [hedgeCount, hslots, hg.edgeCount]) hfits

theorem Inv.createEdge {g : Graph} (hg : g.Inv) (fromNode toNode : NodeId) (label : String)
    (hfits : (g.createEdge fromNode toNode label).1.Fits) :
    (g.createEdge fromNode toNode label).1.Inv := by
  by_cases hfrom : (g.getNode fromNode).isSome
  · by_cases hto : (g.getNode toNode).isSome
    · have hfrom' : (g.getNode fromNode).isNone = false := by simp [Option.isNone_eq_false_iff, hfrom]
      have hto' : (g.getNode toNode).isNone = false := by simp [Option.isNone_eq_false_iff, hto]
      have hcreate := (hg.valid.createsEdge hg.fits.edges_lt hfrom hto label).2
      have hvalid := hcreate.valid hg.valid rfl hfrom hto
      unfold Graph.createEdge at hfits hvalid ⊢
      simp only [hfrom', hto', Bool.false_eq_true, if_false] at hfits hvalid ⊢
      cases hfree : g.edgeFreeList with
      | nil =>
        simp only [hfree] at hfits hvalid ⊢
        refine hg.storesEdge hvalid rfl rfl rfl ?_ rfl hfits
        simp
      | cons freed rest =>
        obtain ⟨hlt, hdead⟩ := hg.valid.edgeFree freed (hfree ▸ List.mem_cons_self)
        simp only [hfree] at hfits hvalid ⊢
        exact hg.storesEdge hvalid rfl rfl rfl (Slots.countP_set_some hlt hdead _) rfl hfits
    · have hsame : (g.createEdge fromNode toNode label).1 = g := by
        have hnone : g.getNode toNode = none := by simpa using hto
        unfold Graph.createEdge
        simp [hnone]
        split <;> rfl
      rwa [hsame]
  · have hsame : (g.createEdge fromNode toNode label).1 = g := by
      have hnone : g.getNode fromNode = none := by simpa using hfrom
      simp [Graph.createEdge, hnone]
    rwa [hsame]

/-- The vector of the edge slots, extended, with the empty slot in reach. -/
structure GrowsEdges (g g' : Graph) (id : EdgeId) : Prop where
  reach : id.toNat < g'.edges.length
  getEdge : ∀ e, g'.getEdge e = g.getEdge e
  slots : g'.edges.countP Option.isSome = g.edges.countP Option.isSome
  free : ∀ e ∈ g'.edgeFreeList, e.toNat < g'.edges.length ∧ g'.getEdge e = none
  free_nodup : g'.edgeFreeList.Nodup
  rest : ∃ edges free, g' = { g with edges := edges, edgeFreeList := free }

/-- The slots skipped over are behind the end of the vector and before the new one. -/
lemma mem_skipped {len id : ℕ} {e : EdgeId} (hid : id < 2 ^ 64)
    (he : e ∈ ((List.range' len (id - len)).map UInt64.ofNat).reverse) :
    len ≤ e.toNat ∧ e.toNat < id := by
  rw [List.mem_reverse, List.mem_map] at he
  obtain ⟨i, hi, rfl⟩ := he
  rw [List.mem_range'_1] at hi
  have hback : (UInt64.ofNat i).toNat = i := by
    rw [UInt64.toNat_ofNat']
    exact Nat.mod_eq_of_lt (by omega)
  rw [hback]
  omega

lemma nodup_skipped {len id : ℕ} (hid : id < 2 ^ 64) :
    ((List.range' len (id - len)).map UInt64.ofNat).reverse.Nodup := by
  refine List.nodup_reverse.mpr (List.Nodup.map_on ?_ List.nodup_range')
  intro i hi j hj heq
  rw [List.mem_range'_1] at hi hj
  have hback : ∀ k, k < 2 ^ 64 → (UInt64.ofNat k).toNat = k := by
    intro k hk
    rw [UInt64.toNat_ofNat']
    exact Nat.mod_eq_of_lt hk
  have hnat := congrArg UInt64.toNat heq
  rwa [hback i (by omega), hback j (by omega)] at hnat

lemma Valid.growsEdges {g : Graph} (hg : g.Valid) (id : EdgeId) : GrowsEdges g (g.growEdges id) id := by
  unfold growEdges
  split
  · next hle =>
    have hlen : g.edges.length ≤ id.toNat + 1 := Nat.le_succ_of_le hle
    have hget : ∀ e : EdgeId, (resizeWith g.edges (id.toNat + 1) none).getD e.toNat none = g.getEdge e :=
      fun e => getD_resizeWith hlen none _
    have hid : id.toNat < 2 ^ 64 := id.toNat_lt
    refine ⟨?_, hget, ?_, ?_, ?_, ⟨_, _, rfl⟩⟩
    · simp [length_resizeWith hlen]
    · simp only [resizeWith_eq hlen]
      exact Slots.countP_append_replicate_none _ _
    · intro e he
      rw [getEdge, hget, length_resizeWith hlen]
      rcases List.mem_append.mp he with he | he
      · obtain ⟨hge, hlt⟩ := mem_skipped hid he
        exact ⟨by omega, List.getD_eq_default _ _ hge⟩
      · obtain ⟨hlt, hdead⟩ := hg.edgeFree e he
        exact ⟨by omega, hdead⟩
    · refine List.nodup_append.mpr ⟨nodup_skipped hid, hg.edgeFree_nodup, ?_⟩
      rintro e he e' he' rfl
      have hge := (mem_skipped hid he).1
      have hlt := (hg.edgeFree e he').1
      omega
  · next hlt =>
    exact ⟨not_le.mp hlt, fun _ => rfl, rfl, hg.edgeFree, hg.edgeFree_nodup, ⟨_, _, rfl⟩⟩

/-- The graph with an edge in a slot in reach. -/
def fillEdge (g : Graph) (id : EdgeId) (fromNode toNode : NodeId) (label : String) : Graph :=
  { g with
    edgeFreeList := g.edgeFreeList.filter (· ≠ id)
    edges := g.edges.set id.toNat (some (⟨id, label, fromNode, toNode, ∅⟩ : Edge))
    outgoingEdges := g.outgoingEdges.modify fromNode.toNat (HashSet.add · id)
    incomingEdges := g.incomingEdges.modify toNode.toNat (HashSet.add · id)
    edgeCount := g.edgeCount + 1 }

lemma GrowsEdges.storesEdge {g g' : Graph} {id : EdgeId} (h : GrowsEdges g g' id) (hg : g.Valid)
    (hdead : g.getEdge id = none) {fromNode toNode : NodeId} (hfrom : (g.getNode fromNode).isSome)
    (hto : (g.getNode toNode).isSome) (label : String) :
    StoresEdge g (g'.fillEdge id fromNode toNode label) id ⟨id, label, fromNode, toNode, ∅⟩ := by
  obtain ⟨edges, free, rfl⟩ := h.rest
  refine ⟨hdead, ?_, rfl, rfl, ?_, ?_, ?_, ?_, ?_⟩
  · intro e
    rw [← h.getEdge]
    exact getD_set_uint _ _ _ _ _ h.reach
  · simp [fillEdge]
  · simp [fillEdge]
  · exact fun m e => mem_modify_add _ _ _ _ _ (hg.outgoing_length ▸ toNat_lt_of_getNode hfrom)
  · exact fun m e => mem_modify_add _ _ _ _ _ (hg.incoming_length ▸ toNat_lt_of_getNode hto)
  · simp [fillEdge]

lemma GrowsEdges.valid {g g' : Graph} {id : EdgeId} (h : GrowsEdges g g' id) (hg : g.Valid)
    (hdead : g.getEdge id = none) {fromNode toNode : NodeId} (hfrom : (g.getNode fromNode).isSome)
    (hto : (g.getNode toNode).isSome) (label : String) :
    (g'.fillEdge id fromNode toNode label).Valid := by
  have hstores := h.storesEdge hg hdead hfrom hto label
  refine hstores.valid hg rfl hfrom hto (fun e he => ?_) (h.free_nodup.filter _)
  obtain ⟨hmem, hne⟩ := List.mem_filter.mp he
  obtain ⟨hlt, hnone⟩ := h.free e hmem
  refine ⟨by simpa [fillEdge] using hlt, ?_⟩
  rw [hstores.getEdge, if_neg (of_decide_eq_true hne), ← h.getEdge, hnone]

/-- Creating an edge in a chosen slot: either nothing happens or an empty slot is filled. -/
lemma createEdgeWithId_cases (g : Graph) (id : EdgeId) (fromNode toNode : NodeId) (label : String) :
    (g.createEdgeWithId id fromNode toNode label).1 = g ∨
      (g.getNode fromNode).isSome ∧ (g.getNode toNode).isSome ∧ g.getEdge id = none ∧
        (g.createEdgeWithId id fromNode toNode label).1 =
          (g.growEdges id).fillEdge id fromNode toNode label := by
  unfold createEdgeWithId
  split
  · exact .inl rfl
  · split
    · exact .inl rfl
    · split
      · exact .inl rfl
      · next hfrom hto hdead =>
        refine .inr ⟨?_, ?_, ?_, rfl⟩
        · simpa [← Option.isSome_iff_ne_none] using hfrom
        · simpa [← Option.isSome_iff_ne_none] using hto
        · simpa using hdead

theorem Inv.createEdgeWithId {g : Graph} (hg : g.Inv) (id : EdgeId) (fromNode toNode : NodeId)
    (label : String) (hfits : (g.createEdgeWithId id fromNode toNode label).1.Fits) :
    (g.createEdgeWithId id fromNode toNode label).1.Inv := by
  rcases createEdgeWithId_cases g id fromNode toNode label with hsame | ⟨hfrom, hto, hdead, hfill⟩
  · rwa [hsame]
  · rw [hfill] at hfits ⊢
    have hgrow := hg.valid.growsEdges id
    have hvalid := hgrow.valid hg.valid hdead hfrom hto label
    have hslot : (g.growEdges id).edges.getD id.toNat none = none := (hgrow.getEdge id).trans hdead
    have hslots := (Slots.countP_set_some hgrow.reach hslot
      (⟨id, label, fromNode, toNode, ∅⟩ : Edge)).trans (congrArg (· + 1) hgrow.slots)
    obtain ⟨edges, free, hrest⟩ := hgrow.rest
    rw [hrest] at hfits hvalid hslots ⊢
    exact hg.storesEdge hvalid rfl rfl rfl hslots rfl hfits

theorem Inv.deleteEdge {g : Graph} (hg : g.Inv) (id : EdgeId) : (g.deleteEdge id).1.Inv := by
  have hvalid := hg.valid.deleteEdge id
  unfold Graph.deleteEdge at hvalid ⊢
  cases hc : g.getEdge id with
  | none => exact hg
  | some c =>
    simp only [hc] at hvalid ⊢
    refine hg.of_edges hvalid rfl rfl rfl ?_ ⟨hg.fits.1, by simpa using hg.fits.2⟩
    rw [Slots.countP_set_none hc, hg.edgeCount]

/-! ## Deleting nodes -/

/-- What the loops of a deletion keep: the node slots, their count and the label index, and that the
edges are counted. -/
structure KeepsNodes (g g' : Graph) : Prop where
  nodeCount : g'.nodeCount = g.nodeCount
  labelIndex : g'.labelIndex = g.labelIndex
  edgeCount : g.edgeCount = g.edges.countP Option.isSome → g'.edgeCount = g'.edges.countP Option.isSome

lemma KeepsNodes.trans {g g₁ g₂ : Graph} (h : KeepsNodes g g₁) (h' : KeepsNodes g₁ g₂) :
    KeepsNodes g g₂ where
  nodeCount := h'.nodeCount.trans h.nodeCount
  labelIndex := h'.labelIndex.trans h.labelIndex
  edgeCount hc := h'.edgeCount (h.edgeCount hc)

lemma keepsNodes_dropOutgoing (g : Graph) (e : EdgeId) : KeepsNodes g (g.dropOutgoing e) := by
  unfold dropOutgoing
  cases hc : g.getEdge e with
  | none => exact ⟨rfl, rfl, id⟩
  | some c =>
    refine ⟨rfl, rfl, fun hcount => ?_⟩
    simp only
    rw [Slots.countP_set_none hc, hcount]

lemma keepsNodes_dropIncoming (g : Graph) (e : EdgeId) : KeepsNodes g (g.dropIncoming e) := by
  unfold dropIncoming
  cases hc : g.getEdge e with
  | none => exact ⟨rfl, rfl, id⟩
  | some c =>
    refine ⟨rfl, rfl, fun hcount => ?_⟩
    simp only
    rw [Slots.countP_set_none hc, hcount]

lemma keepsNodes_foldl {f : Graph → EdgeId → Graph} (hf : ∀ g e, KeepsNodes g (f g e)) (g : Graph)
    (es : List EdgeId) : KeepsNodes g (es.foldl f g) := by
  induction es generalizing g with
  | nil => exact ⟨rfl, rfl, id⟩
  | cons e es ih => exact (hf g e).trans (ih (f g e))

/-- The two loops of a deletion. -/
lemma keepsNodes_take (outOrder inOrder : IterOrder) (g : Graph) (id : NodeId) :
    KeepsNodes g (takeIncoming inOrder (takeOutgoing outOrder g id) id) := by
  set g₁ := takeOutgoing outOrder g id with hg₁
  have hstart : KeepsNodes g { g with outgoingEdges := g.outgoingEdges.set id.toNat ∅ } :=
    ⟨rfl, rfl, fun hc => hc⟩
  have hout : KeepsNodes g g₁ := hstart.trans (keepsNodes_foldl keepsNodes_dropOutgoing _ _)
  have hstart₁ : KeepsNodes g₁ { g₁ with incomingEdges := g₁.incomingEdges.set id.toNat ∅ } :=
    ⟨rfl, rfl, fun hc => hc⟩
  exact hout.trans (hstart₁.trans (keepsNodes_foldl keepsNodes_dropIncoming _ _))

/-- What the deletion of a live node leaves of the counters and the label index. -/
lemma deleteNode_rest {g : Graph} (outOrder inOrder : IterOrder) {id : NodeId} {n : Node}
    (hn : g.getNode id = some n) :
    (g.deleteNode outOrder inOrder id).1.nodeCount = g.nodeCount - 1 ∧
    (g.edgeCount = g.edges.countP Option.isSome →
      (g.deleteNode outOrder inOrder id).1.edgeCount =
        (g.deleteNode outOrder inOrder id).1.edges.countP Option.isSome) ∧
    ∀ l m, m ∈ HashMap.getDefault (g.deleteNode outOrder inOrder id).1.labelIndex l ↔
      ¬(m = id ∧ l ∈ n.labels) ∧ m ∈ HashMap.getDefault g.labelIndex l := by
  have hkeep := keepsNodes_take outOrder inOrder g id
  unfold deleteNode
  simp only [hn]
  set g₂ := takeIncoming inOrder (takeOutgoing outOrder g id) id
  have hmem := mem_foldl_labelIndexRemove { g₂ with nodes := g₂.nodes.set id.toNat none } id n.labels
  obtain ⟨ix, hix⟩ := foldl_labelIndexRemove_eq { g₂ with nodes := g₂.nodes.set id.toNat none } id n.labels
  rw [hix] at hmem ⊢
  refine ⟨congrArg (· - 1) hkeep.nodeCount, hkeep.edgeCount, fun l m => ?_⟩
  rw [← hkeep.labelIndex]
  exact hmem l m

theorem Inv.deleteNode {g : Graph} (hg : g.Inv) (outOrder inOrder : IterOrder) (id : NodeId) :
    (g.deleteNode outOrder inOrder id).1.Inv := by
  cases hn : g.getNode id with
  | none =>
    rw [deleteNode_of_dead hn]
    exact hg
  | some n =>
    have hlive : (g.getNode id).isSome := by simp [hn]
    obtain ⟨freed, hdelete, hvalid⟩ := hg.valid.deletesNode outOrder inOrder hlive
    obtain ⟨hnodeCount, hedgeCount, hix⟩ := deleteNode_rest outOrder inOrder hn
    have hnode : ∀ m, (g.deleteNode outOrder inOrder id).1.getNode m =
        if m = id then none else g.getNode m := by
      intro m
      rw [getNode, hdelete.nodes]
      exact getD_set_uint _ _ _ _ _ (toNat_lt_of_getNode hlive)
    refine ⟨hvalid, ?_, ?_, hedgeCount hg.edgeCount, ?_, ?_, ?_⟩
    · intro m d hd
      rw [hnode] at hd
      split at hd
      · cases hd
      · exact hg.node_id m d hd
    · rw [hnodeCount, hdelete.nodes, Slots.countP_set_none hn, hg.nodeCount]
    · intro l m
      rw [hix, hg.labelIndex, hnode]
      by_cases hm : m = id
      · subst hm
        simp [hn]
      · simp [hm]
    · rw [hdelete.nodes, List.length_set]
      exact hg.fits.1
    · rw [hdelete.edges_length]
      exact hg.fits.2

/-! ## Changing a stored node or edge in place -/

/-- A node slot whose content was exchanged. -/
lemma getNode_exchangeNode {g g' : Graph} {id : NodeId} {n n' : Node} (hn : g.getNode id = some n)
    (hnodes : g'.nodes = g.nodes.set id.toNat (some n')) (m : NodeId) :
    g'.getNode m = if m = id then some n' else g.getNode m := by
  rw [getNode, hnodes]
  exact getD_set_uint _ _ _ _ _ (toNat_lt_of_getNode (by simp [hn]))

lemma Valid.exchangeNode {g g' : Graph} (hg : g.Valid) {id : NodeId} {n n' : Node}
    (hn : g.getNode id = some n) (hnodes : g'.nodes = g.nodes.set id.toNat (some n'))
    (hrest : ∃ nodes ix, g' = { g with nodes := nodes, labelIndex := ix }) : g'.Valid := by
  have hsome : ∀ m, (g'.getNode m).isSome = (g.getNode m).isSome := by
    intro m
    rw [getNode_exchangeNode hn hnodes]
    split
    · next hm => simp [hm, hn]
    · rfl
  have hlen : g'.nodes.length = g.nodes.length := by simp [hnodes]
  obtain ⟨nodes, ix, rfl⟩ := hrest
  refine ⟨?_, ?_, hg.edge_id, ?_, hg.outgoing, hg.incoming, ?_, hg.nodeFree_nodup, hg.edgeFree,
    hg.edgeFree_nodup⟩
  · rw [hlen]
    exact hg.outgoing_length
  · rw [hlen]
    exact hg.incoming_length
  · intro e c he
    rw [hsome, hsome]
    exact hg.endpoints e c he
  · intro m hm
    obtain ⟨hlt, hdead⟩ := hg.nodeFree m hm
    refine ⟨hlen ▸ hlt, ?_⟩
    rw [← Option.isNone_iff_eq_none, ← Option.not_isSome, hsome, hdead]
    rfl

/-- A node slot whose content was exchanged, with the label index following. -/
lemma Inv.exchangeNode {g g' : Graph} (hg : g.Inv) {id : NodeId} {n n' : Node}
    (hn : g.getNode id = some n) (hid : n'.id = n.id)
    (hnodes : g'.nodes = g.nodes.set id.toNat (some n'))
    (hrest : ∃ nodes ix, g' = { g with nodes := nodes, labelIndex := ix })
    (hix : ∀ l m, m ∈ HashMap.getDefault g'.labelIndex l ↔
      m = id ∧ l ∈ n'.labels ∨ m ≠ id ∧ m ∈ HashMap.getDefault g.labelIndex l) : g'.Inv := by
  have hvalid := hg.valid.exchangeNode hn hnodes hrest
  have hnode := getNode_exchangeNode hn hnodes
  have hlen : g'.nodes.length = g.nodes.length := by simp [hnodes]
  obtain ⟨nodes, ix, rfl⟩ := hrest
  refine ⟨hvalid, ?_, ?_, hg.edgeCount, ?_, hlen ▸ hg.fits.1, hg.fits.2⟩
  · intro m d hd
    rw [hnode] at hd
    split at hd
    · next hm =>
      rw [← Option.some.inj hd, hid, hm]
      exact hg.node_id id n hn
    · exact hg.node_id m d hd
  · simp only at hnodes ⊢
    rw [hnodes, Slots.countP_set_of_some hn, hg.nodeCount]
  · intro l m
    rw [hix, hnode, hg.labelIndex]
    by_cases hm : m = id
    · simp [hm]
    · simp [hm]

theorem Valid.addNodeLabel {g : Graph} (hg : g.Valid) (id : NodeId) (label : String) :
    (g.addNodeLabel id label).Valid := by
  unfold Graph.addNodeLabel
  cases hn : g.getNode id with
  | none => exact hg
  | some n =>
    simp only
    split
    · exact hg
    · exact hg.exchangeNode hn rfl ⟨_, _, rfl⟩

theorem Valid.removeNodeLabel {g : Graph} (hg : g.Valid) (id : NodeId) (label : String) :
    (g.removeNodeLabel id label).Valid := by
  unfold Graph.removeNodeLabel
  cases hn : g.getNode id with
  | none => exact hg
  | some n =>
    simp only
    split
    · obtain ⟨ix, hix⟩ := foldl_labelIndexRemove_eq
        { g with nodes := g.nodes.set id.toNat (some (n.removeLabel label)) } id [label]
      rw [List.foldl_cons, List.foldl_nil] at hix
      rw [hix]
      exact hg.exchangeNode hn rfl ⟨_, _, rfl⟩
    · exact hg

theorem Inv.addNodeLabel {g : Graph} (hg : g.Inv) {id : NodeId} {label : String}
    (hkeep : ∀ n, g.getNode id = some n → label = "" → "" ∈ n.labels) :
    (g.addNodeLabel id label).Inv := by
  unfold Graph.addNodeLabel
  cases hn : g.getNode id with
  | none => exact hg
  | some n =>
    simp only
    split
    · exact hg
    · next hlacks =>
      rw [Node.hasLabel_iff] at hlacks
      have hlabel : label ≠ "" := by
        rintro rfl
        exact hlacks (hkeep n hn rfl)
      have hadd : n.addLabel label = { n with labels := n.labels ++ [label] } := by
        simp [Node.addLabel, hlabel, hlacks]
      refine hg.exchangeNode hn ?_ rfl ⟨_, _, rfl⟩ fun l m => ?_
      · rw [hadd]
      · rw [HashSet.mem_modifyDefault_add, hadd, List.mem_append, List.mem_singleton]
        by_cases hm : m = id
        · subst hm
          have hold : m ∈ HashMap.getDefault g.labelIndex l ↔ l ∈ n.labels := by
            rw [hg.labelIndex, hn]
            simp
          simp [hold, or_comm]
        · simp [hm]

theorem Inv.removeNodeLabel {g : Graph} (hg : g.Inv) (id : NodeId) (label : String) :
    (g.removeNodeLabel id label).Inv := by
  unfold Graph.removeNodeLabel
  cases hn : g.getNode id with
  | none => exact hg
  | some n =>
    simp only
    split
    · have hmem := mem_labelIndexRemove
        { g with nodes := g.nodes.set id.toNat (some (n.removeLabel label)) } id label
      obtain ⟨ix, hix⟩ := foldl_labelIndexRemove_eq
        { g with nodes := g.nodes.set id.toNat (some (n.removeLabel label)) } id [label]
      rw [List.foldl_cons, List.foldl_nil] at hix
      rw [hix] at hmem ⊢
      have hid : (n.removeLabel label).id = n.id := rfl
      refine hg.exchangeNode hn hid rfl ⟨_, _, rfl⟩ fun l m => (hmem l m).trans ?_
      change ¬(l = label ∧ m = id) ∧ m ∈ HashMap.getDefault g.labelIndex l ↔ _
      by_cases hm : m = id
      · subst hm
        have hold : m ∈ HashMap.getDefault g.labelIndex l ↔ l ∈ n.labels := by
          rw [hg.labelIndex, hn]
          simp
        simp [hold, Node.removeLabel, and_comm]
      · simp [hm]
    · exact hg

end Graph

/-- A call of one of the operations of a slot graph. -/
inductive GraphCall where
  | createNode (label : String)
  | createNodeWithLabels (labels : List String)
  | createNodeWithId (id : NodeId) (label : String)
  | createNodeWithIdAndLabels (id : NodeId) (labels : List String)
  /-- The two sets of edge ids are iterated in some orders. -/
  | deleteNode (id : NodeId) (outOrder inOrder : IterOrder)
  | createEdge (fromNode toNode : NodeId) (label : String)
  | createEdgeWithId (id : EdgeId) (fromNode toNode : NodeId) (label : String)
  | deleteEdge (id : EdgeId)
  | addNodeLabel (id : NodeId) (label : String)
  | removeNodeLabel (id : NodeId) (label : String)

namespace GraphCall

open Graph

/-- The graph after a call, its vectors growing without bound. -/
def apply (g : Graph) : GraphCall → Graph
  | createNode label => (g.createNode label).1
  | createNodeWithLabels labels => (g.createNodeWithLabels labels).1
  | createNodeWithId id label => (g.createNodeWithId id label).1
  | createNodeWithIdAndLabels id labels => (g.createNodeWithIdAndLabels id labels).1
  | deleteNode id outOrder inOrder => (g.deleteNode outOrder inOrder id).1
  | createEdge fromNode toNode label => (g.createEdge fromNode toNode label).1
  | createEdgeWithId id fromNode toNode label => (g.createEdgeWithId id fromNode toNode label).1
  | deleteEdge id => (g.deleteEdge id).1
  | addNodeLabel id label => g.addNodeLabel id label
  | removeNodeLabel id label => g.removeNodeLabel id label

/-- A call; there is no state behind a panic. -/
def step (s : Option Graph) (c : GraphCall) : Option Graph :=
  s.bind fun g => if (c.apply g).Fits then some (c.apply g) else none

/-- The calls that keep the promise in a state: the empty label is added to no node that lacks it. -/
def Keeps (s : Option Graph) : GraphCall → Prop
  | addNodeLabel id label => ∀ g ∈ s, ∀ n, g.getNode id = some n → label = "" → "" ∈ n.labels
  | _ => True

theorem inv_apply {g : Graph} (hg : g.Inv) {c : GraphCall} (hkeep : Keeps (some g) c)
    (hfits : (c.apply g).Fits) : (c.apply g).Inv := by
  cases c with
  | createNode label => exact hg.createNodeWithLabels _ hfits
  | createNodeWithLabels labels => exact hg.createNodeWithLabels labels hfits
  | createNodeWithId id label => exact hg.createNodeWithIdAndLabels id _ hfits
  | createNodeWithIdAndLabels id labels => exact hg.createNodeWithIdAndLabels id labels hfits
  | deleteNode id outOrder inOrder => exact hg.deleteNode outOrder inOrder id
  | createEdge fromNode toNode label => exact hg.createEdge fromNode toNode label hfits
  | createEdgeWithId id fromNode toNode label => exact hg.createEdgeWithId id fromNode toNode label hfits
  | deleteEdge id => exact hg.deleteEdge id
  | addNodeLabel id label => exact hg.addNodeLabel (hkeep g rfl)
  | removeNodeLabel id label => exact hg.removeNodeLabel id label

/-- Adding the empty label to a node that lacks it enters the node into the index only. -/
theorem keeps_of_represents {g : Graph} {c : GraphCall} (hfits : (c.apply g).Fits → (c.apply g).Represents)
    (hg : g.Inv) : Keeps (some g) c := by
  cases c with
  | addNodeLabel id label =>
    intro g' hg' n hn hlabel
    obtain rfl := Option.some.inj hg'
    subst hlabel
    by_contra hnot
    have hhas : n.hasLabel "" = false := by
      rw [Bool.eq_false_iff, ne_eq, Node.hasLabel_iff]
      exact hnot
    have hgraph : g.addNodeLabel id "" =
        { g with
          nodes := g.nodes.set id.toNat (some n)
          labelIndex := HashMap.modifyDefault g.labelIndex "" (HashSet.add · id) } := by
      simp [Graph.addNodeLabel, hn, hhas, Node.addLabel]
    have happly : (addNodeLabel id "").apply g = g.addNodeLabel id "" := rfl
    rw [happly, hgraph] at hfits
    have hr := hfits ⟨by simpa using hg.fits.1, hg.fits.2⟩
    obtain ⟨n', hn', hmem⟩ := (hr.nodesByLabel "" id).mp
      ((HashSet.mem_modifyDefault_add _ _ _ _ _).mpr (.inl ⟨rfl, rfl⟩))
    have hget : (g.nodes.set id.toNat (some n)).getD id.toNat none = some n' := hn'
    rw [getD_set_uint _ _ _ _ _ (toNat_lt_of_getNode (by simp [hn])), if_pos rfl] at hget
    rw [← Option.some.inj hget, hhas] at hmem
    cases hmem
  | createNode | createNodeWithLabels | createNodeWithId | createNodeWithIdAndLabels | deleteNode
  | createEdge | createEdgeWithId | deleteEdge | removeNodeLabel => trivial

end GraphCall

/-- The parts of a slot graph keep their promise in every state of a sequence of operations exactly
when no call of it adds the empty label to a node that lacks it. -/
theorem graph_represents_iff (calls : List GraphCall) :
    (∀ pre, pre <+: calls → ∀ g ∈ pre.foldl GraphCall.step (some .new), g.Represents) ↔
      Along GraphCall.step GraphCall.Keeps (some .new) calls := by
  have hkeep : ∀ (s : Option Graph) (c : GraphCall), (∀ g ∈ s, g.Inv) → GraphCall.Keeps s c →
      ∀ g ∈ GraphCall.step s c, g.Inv := by
    intro s c hs hkeep g' hg'
    cases s with
    | none => cases hg'
    | some g =>
      simp only [GraphCall.step, Option.bind_some, Option.mem_ite_none_right, Option.mem_some] at hg'
      obtain ⟨hfits, rfl⟩ := hg'
      exact GraphCall.inv_apply (hs g rfl) hkeep hfits
  have hexact : ∀ (s : Option Graph) (c : GraphCall), (∀ g ∈ s, g.Inv) →
      (∀ g ∈ GraphCall.step s c, g.Represents) → GraphCall.Keeps s c := by
    intro s c hs hgood
    cases s with
    | none => cases c <;> simp [GraphCall.Keeps]
    | some g =>
      refine GraphCall.keeps_of_represents (fun hfits => hgood _ ?_) (hs g rfl)
      simp [GraphCall.step, hfits]
  refine forall_prefix_iff_along (fun s hs g hg => (hs g hg).represents) hkeep hexact ?_
  intro g hg
  rw [← Option.some.inj hg]
  exact Graph.inv_new

/-- The empty label, added to a node, is listed by the index and not by the node. -/
theorem graph_addNodeLabel_empty :
    ¬∀ calls : List GraphCall, ∀ g ∈ calls.foldl GraphCall.step (some .new), g.Represents := by
  intro hall
  have hr := hall [.createNode "A", .addNodeLabel 0 ""] _ rfl
  obtain ⟨n, hn, hl⟩ := (hr.nodesByLabel "" 0).mp (by decide)
  have hstored : n = ⟨0, ["A"], ∅⟩ := (Option.some.inj hn).symm
  rw [hstored] at hl
  revert hl
  decide

end Maharit
