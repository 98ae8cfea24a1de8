import MaharitDb.Storage.Backup

/-!
# What a restored backup is

Copies of a graph, equal up to the ids, and the graph that `Backup.restore` builds: the element of
rank `i` among the live slots of the original becomes the element with the id `i`.
-/

namespace Maharit

/-- Two nodes with the same labels and properties. -/
structure Node.SameData (a b : Node) : Prop where
  labels : b.labels = a.labels
  properties : ∀ key, b.getProperty key = a.getProperty key

/-- Two edges with the same label and properties. -/
structure Edge.SameData (a b : Edge) : Prop where
  label : b.label = a.label
  properties : ∀ key, b.getProperty key = a.getProperty key

/-- The node with further properties. -/
def Node.assign (entries : List (Sigma fun _ : String => PropertyValue)) (n : Node) : Node :=
  { n with properties := entries.foldl (fun m p => m.insert p.1 p.2) n.properties }

/-- The edge with further properties. -/
def Edge.assign (entries : List (Sigma fun _ : String => PropertyValue)) (e : Edge) : Edge :=
  { e with properties := entries.foldl (fun m p => m.insert p.1 p.2) e.properties }

namespace Graph

/-- `ν` and `ε` carry the live nodes and edges of `g` to those of `g'`, with all their data. -/
structure Copies (g g' : Graph) (ν : NodeId → NodeId) (ε : EdgeId → EdgeId) : Prop where
  nodes : Set.BijOn ν {n | (g.getNode n).isSome} {n | (g'.getNode n).isSome}
  edges : Set.BijOn ε {e | (g.getEdge e).isSome} {e | (g'.getEdge e).isSome}
  node : ∀ n a, g.getNode n = some a → ∃ b, g'.getNode (ν n) = some b ∧ a.SameData b
  edge : ∀ e a, g.getEdge e = some a → ∃ b, g'.getEdge (ε e) = some b ∧ a.SameData b ∧
    b.fromNode = ν a.fromNode ∧ b.toNode = ν a.toNode

/-- `g'` is `g` up to the ids. -/
def IsCopy (g g' : Graph) : Prop := ∃ ν ε, Copies g g' ν ε

/-! ## Changing in place -/

lemma modifyNode_modifyNode (g : Graph) (id : NodeId) (f f' : Node → Node) :
    (g.modifyNode id f).modifyNode id f' = g.modifyNode id (f' ∘ f) := by
  simp only [modifyNode, List.modify_modify_eq]
  congr 2
  funext o
  simp

lemma modifyEdge_modifyEdge (g : Graph) (id : EdgeId) (f f' : Edge → Edge) :
    (g.modifyEdge id f).modifyEdge id f' = g.modifyEdge id (f' ∘ f) := by
  simp only [modifyEdge, List.modify_modify_eq]
  congr 2
  funext o
  simp

lemma foldl_setNodeProperty (g : Graph) (n : NodeId)
    (entries : List (Sigma fun _ : String => PropertyValue)) :
    entries.foldl (fun g p => g.setNodeProperty n p.1 p.2) g = g.modifyNode n (Node.assign entries) := by
  induction entries generalizing g with
  | nil =>
    have hsame : Option.map (Node.assign []) = id := by
      funext o
      cases o <;> rfl
    simp [modifyNode, hsame]
  | cons p entries ih =>
    rw [List.foldl_cons, ih]
    exact modifyNode_modifyNode g n (·.setProperty p.1 p.2) (Node.assign entries)

lemma foldl_setEdgeProperty (g : Graph) (e : EdgeId)
    (entries : List (Sigma fun _ : String => PropertyValue)) :
    entries.foldl (fun g p => g.setEdgeProperty e p.1 p.2) g = g.modifyEdge e (Edge.assign entries) := by
  induction entries generalizing g with
  | nil =>
    have hsame : Option.map (Edge.assign []) = id := by
      funext o
      cases o <;> rfl
    simp [modifyEdge, hsame]
  | cons p entries ih =>
    rw [List.foldl_cons, ih]
    exact modifyEdge_modifyEdge g e (·.setProperty p.1 p.2) (Edge.assign entries)

/-! ## Creating in a graph without free slots -/

/-- A node is appended. -/
lemma nodes_createNodeWithLabels {g : Graph} (hfree : g.nodeFreeList = []) (labels : List String) :
    (g.createNodeWithLabels labels).2 = UInt64.ofNat g.nodes.length ∧
    (g.createNodeWithLabels labels).1.nodes.length = g.nodes.length + 1 := by
  unfold createNodeWithLabels
  rw [hfree]
  refine ⟨rfl, ?_⟩
  rw [(labelIndexAddNode_rest _ _).1]
  simp

/-- What appending elements does to the graph: the node `n` gets the next id. -/
structure AppendsNode (g g' : Graph) (n : Node) : Prop where
  valid : g'.Valid
  getNode : ∀ m, g'.getNode m = if m = UInt64.ofNat g.nodes.length then some n else g.getNode m
  nodes_length : g'.nodes.length = g.nodes.length + 1
  nodeFreeList : g'.nodeFreeList = []
  edges : g'.edges = g.edges
  edgeFreeList : g'.edgeFreeList = g.edgeFreeList

lemma Valid.appendsNode_entries {g : Graph} (hg : g.Valid) (hfree : g.nodeFreeList = [])
    (hlen : g.nodes.length < 2 ^ 64) (labels : List String)
    (entries : List (Sigma fun _ : String => PropertyValue)) :
    AppendsNode g (entries.foldl (fun g' p => g'.setNodeProperty (g.createNodeWithLabels labels).2 p.1 p.2)
        (g.createNodeWithLabels labels).1)
      ⟨UInt64.ofNat g.nodes.length, labels, entries.foldl (fun m p => m.insert p.1 p.2) ∅⟩ := by
  obtain ⟨hid, hlength⟩ := nodes_createNodeWithLabels hfree labels
  have hcreate := hg.createsNode hlen labels
  rw [foldl_setNodeProperty]
  rw [hid] at hcreate ⊢
  refine ⟨(hcreate.valid hg).modifyNode _ _, ?_, ?_, ?_, hcreate.edges, hcreate.edgeFreeList⟩
  · intro m
    rw [getNode_modifyNode, hcreate.getNode]
    split
    · rfl
    · rfl
  · simpa [Graph.modifyNode] using hlength
  · change (g.createNodeWithLabels labels).1.nodeFreeList = []
    rw [hcreate.nodeFreeList, hfree]
    rfl

lemma Valid.appendsNode {g : Graph} (hg : g.Valid) (hfree : g.nodeFreeList = [])
    (hlen : g.nodes.length < 2 ^ 64) (labels : List String) (props : Properties) :
    AppendsNode g (Backup.setNodeProperties (g.createNodeWithLabels labels).1
        (g.createNodeWithLabels labels).2 props)
      ⟨UInt64.ofNat g.nodes.length, labels, Backup.copyProperties props⟩ :=
  hg.appendsNode_entries hfree hlen labels props.entries

/-- What appending an edge does to the graph. -/
structure AppendsEdge (g g' : Graph) (e : Edge) : Prop where
  valid : g'.Valid
  getEdge : ∀ i, g'.getEdge i = if i = UInt64.ofNat g.edges.length then some e else g.getEdge i
  edges_length : g'.edges.length = g.edges.length + 1
  edgeFreeList : g'.edgeFreeList = []
  nodes : g'.nodes = g.nodes
  nodeFreeList : g'.nodeFreeList = g.nodeFreeList

lemma Valid.appendsEdge_entries {g : Graph} (hg : g.Valid) (hfree : g.edgeFreeList = [])
    (hlen : g.edges.length < 2 ^ 64) {fromNode toNode : NodeId} (hfrom : (g.getNode fromNode).isSome)
    (hto : (g.getNode toNode).isSome) (label : String)
    (entries : List (Sigma fun _ : String => PropertyValue)) :
    (g.createEdge fromNode toNode label).2 = .ok (UInt64.ofNat g.edges.length) ∧
    AppendsEdge g (entries.foldl (fun g' p => g'.setEdgeProperty (UInt64.ofNat g.edges.length) p.1 p.2)
        (g.createEdge fromNode toNode label).1)
      ⟨UInt64.ofNat g.edges.length, label, fromNode, toNode, entries.foldl (fun m p => m.insert p.1 p.2) ∅⟩ := by
  have hnext : g.nextEdgeId = UInt64.ofNat g.edges.length := by
    rw [nextEdgeId, hfree]
    rfl
  obtain ⟨hok, hcreate⟩ := hg.createsEdge hlen hfrom hto label
  rw [hnext] at hok hcreate
  rw [foldl_setEdgeProperty]
  refine ⟨hok, (hcreate.valid hg rfl hfrom hto).modifyEdge _ fun _ => ⟨rfl, rfl, rfl⟩, ?_, ?_, ?_,
    hcreate.nodes, hcreate.nodeFreeList⟩
  · intro i
    rw [getEdge_modifyEdge, hcreate.getEdge]
    split
    · rfl
    · rfl
  · have hlength := hcreate.edges_length
    rw [if_pos hfree] at hlength
    simpa [Graph.modifyEdge] using hlength
  · change (g.createEdge fromNode toNode label).1.edgeFreeList = []
    rw [hcreate.edgeFreeList, hfree]
    rfl

lemma Valid.appendsEdge {g : Graph} (hg : g.Valid) (hfree : g.edgeFreeList = [])
    (hlen : g.edges.length < 2 ^ 64) {fromNode toNode : NodeId} (hfrom : (g.getNode fromNode).isSome)
    (hto : (g.getNode toNode).isSome) (label : String) (props : Properties) :
    (g.createEdge fromNode toNode label).2 = .ok (UInt64.ofNat g.edges.length) ∧
    AppendsEdge g (Backup.setEdgeProperties (g.createEdge fromNode toNode label).1
        (UInt64.ofNat g.edges.length) props)
      ⟨UInt64.ofNat g.edges.length, label, fromNode, toNode, Backup.copyProperties props⟩ :=
  hg.appendsEdge_entries hfree hlen hfrom hto label props.entries

end Graph

namespace Backup

/-! ## The nodes of the file -/

/-- A node with the labels and properties that the file keeps of another one. -/
structure CopyOfNode (n b : Node) : Prop where
  labels : b.labels = splitLabels (joinLabels n.labels)
  properties : ∀ key, b.getProperty key = n.getProperty key

/-- The nodes `ns` have been created. -/
structure CopiedNodes (ns : List Node) (r : Restored) : Prop where
  valid : r.1.Valid
  nodes_length : r.1.nodes.length = ns.length
  nodeFreeList : r.1.nodeFreeList = []
  edges : r.1.edges = []
  edgeFreeList : r.1.edgeFreeList = []
  node : ∀ i n, ns[i]? = some n → ∃ b, r.1.getNode (UInt64.ofNat i) = some b ∧ CopyOfNode n b
  idMap : ∀ i n, ns[i]? = some n → r.2.lookup n.id = some (UInt64.ofNat i)

lemma copiedNodes_nil : CopiedNodes [] (.new, ∅) :=
  ⟨Graph.valid_new, rfl, rfl, rfl, rfl, by simp, by simp⟩

/-- Two positions in a list of fewer than `2 ^ 64` elements have different words. -/
lemma ofNat_ne {i j : ℕ} (hi : i < 2 ^ 64) (hj : j < 2 ^ 64) (hne : i ≠ j) :
    UInt64.ofNat i ≠ UInt64.ofNat j := by
  intro h
  have hnat := congrArg UInt64.toNat h
  rw [toNat_ofNat64 hi, toNat_ofNat64 hj] at hnat
  exact hne hnat

/-- The elements of a list with one more at its end. -/
lemma getElem?_push {α : Type} {l : List α} {a b : α} {i : ℕ} (h : (l ++ [a])[i]? = some b) :
    i < l.length ∧ l[i]? = some b ∨ i = l.length ∧ b = a := by
  by_cases hi : i < l.length
  · rw [List.getElem?_append_left hi] at h
    exact .inl ⟨hi, h⟩
  · rw [List.getElem?_append_right (not_lt.mp hi)] at h
    obtain ⟨hlt, hb⟩ := List.getElem?_eq_some_iff.mp h
    have hzero : i - l.length = 0 := by simpa using hlt
    refine .inr ⟨by omega, ?_⟩
    simpa [hzero] using hb.symm

lemma CopiedNodes.push {ns : List Node} {r : Restored} (h : CopiedNodes ns r) {n : Node}
    (hnew : ∀ m ∈ ns, m.id ≠ n.id) (hlen : ns.length < 2 ^ 64) :
    CopiedNodes (ns ++ [n]) (copyNode r n) := by
  have hlen' : r.1.nodes.length < 2 ^ 64 := h.nodes_length ▸ hlen
  obtain ⟨hid, -⟩ := Graph.nodes_createNodeWithLabels h.nodeFreeList
    (splitLabels (joinLabels n.labels))
  have happend := h.valid.appendsNode h.nodeFreeList hlen' (splitLabels (joinLabels n.labels))
    (copyProperties n.properties)
  have hgetNode := happend.getNode
  rw [h.nodes_length] at hid hgetNode
  refine ⟨happend.valid, ?_, happend.nodeFreeList, happend.edges.trans h.edges,
    happend.edgeFreeList.trans h.edgeFreeList, ?_, ?_⟩
  · rw [List.length_append, ← h.nodes_length]
    exact happend.nodes_length
  · intro i m hm
    have hnode := hgetNode (UInt64.ofNat i)
    rcases getElem?_push hm with ⟨hi, hm⟩ | ⟨rfl, rfl⟩
    · obtain ⟨b, hb, hcopy⟩ := h.node i m hm
      rw [if_neg (ofNat_ne (hi.trans hlen) hlen hi.ne)] at hnode
      exact ⟨b, hnode.trans hb, hcopy⟩
    · rw [if_pos rfl] at hnode
      refine ⟨_, hnode, rfl, fun key => ?_⟩
      simp only [Node.getProperty, lookup_copyProperties]
  · intro i m hm
    change (r.2.insert n.id (r.1.createNodeWithLabels (splitLabels (joinLabels n.labels))).2).lookup
      m.id = _
    rw [HashMap.lookup_insert_ite, hid]
    rcases getElem?_push hm with ⟨hi, hm⟩ | ⟨rfl, rfl⟩
    · rw [if_neg (hnew m (List.mem_of_getElem? hm))]
      exact h.idMap i m hm
    · rw [if_pos rfl]

lemma CopiedNodes.foldl {done ns : List Node} {r : Restored} (h : CopiedNodes done r)
    (hnodup : ((done ++ ns).map Node.id).Nodup) (hlen : (done ++ ns).length < 2 ^ 64) :
    CopiedNodes (done ++ ns) (ns.foldl copyNode r) := by
  induction ns generalizing done r with
  | nil => simpa using h
  | cons n ns ih =>
    have hsplit : done ++ n :: ns = (done ++ [n]) ++ ns := by simp
    rw [hsplit] at hnodup hlen ⊢
    refine ih (h.push ?_ ?_) hnodup hlen
    · intro m hm heq
      rw [List.map_append, List.map_append, List.append_assoc] at hnodup
      have hdisjoint := (List.nodup_append.mp hnodup).2.2
      exact hdisjoint m.id (List.mem_map_of_mem hm) n.id (by simp) heq
    · refine lt_of_le_of_lt ?_ hlen
      simp

/-! ## The edges of the file -/

/-- The edges `es` have been created between the nodes that `idMap` gives. -/
structure CopiedEdges (r : Restored) (es : List Edge) (g : Graph) : Prop where
  valid : g.Valid
  edges_length : g.edges.length = es.length
  edgeFreeList : g.edgeFreeList = []
  nodes : g.nodes = r.1.nodes
  nodeFreeList : g.nodeFreeList = r.1.nodeFreeList
  edge : ∀ i e, es[i]? = some e → ∃ c, g.getEdge (UInt64.ofNat i) = some c ∧ e.SameData c ∧
    r.2.lookup e.fromNode = some c.fromNode ∧ r.2.lookup e.toNode = some c.toNode

/-- The endpoints of an edge are known and live. -/
def KnownEnds (r : Restored) (e : Edge) : Prop :=
  (∃ a, r.2.lookup e.fromNode = some a ∧ (r.1.getNode a).isSome) ∧
  ∃ b, r.2.lookup e.toNode = some b ∧ (r.1.getNode b).isSome

lemma CopiedEdges.push {r : Restored} {es : List Edge} {g : Graph} (h : CopiedEdges r es g) {e : Edge}
    (hends : KnownEnds r e) (hlen : es.length < 2 ^ 64) :
    ∃ g', copyEdge r.2 g e = .ok g' ∧ CopiedEdges r (es ++ [e]) g' := by
  obtain ⟨⟨a, ha, halive⟩, b, hb, hblive⟩ := hends
  have hnode : ∀ n, g.getNode n = r.1.getNode n := fun n => by rw [Graph.getNode, h.nodes, Graph.getNode]
  have hlen' : g.edges.length < 2 ^ 64 := h.edges_length ▸ hlen
  obtain ⟨hok, happend⟩ := h.valid.appendsEdge h.edgeFreeList hlen' (hnode a ▸ halive)
    (hnode b ▸ hblive) e.label (copyProperties e.properties)
  refine ⟨_, ?_, ⟨happend.valid, ?_, happend.edgeFreeList, happend.nodes.trans h.nodes,
    happend.nodeFreeList.trans h.nodeFreeList, ?_⟩⟩
  · simp only [copyEdge, addEdge, ha, hb]
    rcases hcreate : g.createEdge a b e.label with ⟨g', x | id⟩
    · rw [hcreate] at hok
      cases hok
    · rw [hcreate] at hok
      obtain rfl : id = UInt64.ofNat g.edges.length := Except.ok.inj hok
      simp only
  · rw [List.length_append, ← h.edges_length]
    exact happend.edges_length
  · intro i c hc
    have hedge := happend.getEdge (UInt64.ofNat i)
    rcases getElem?_push hc with ⟨hi, hc⟩ | ⟨rfl, rfl⟩
    · obtain ⟨d, hd, hrest⟩ := h.edge i c hc
      have hi' : i ≠ g.edges.length := (h.edges_length ▸ hi).ne
      rw [if_neg (ofNat_ne (hi.trans hlen) hlen' hi')] at hedge
      exact ⟨d, hedge.trans hd, hrest⟩
    · rw [if_pos (by rw [h.edges_length])] at hedge
      refine ⟨_, hedge, ⟨rfl, fun key => ?_⟩, ha, hb⟩
      simp only [Edge.getProperty, lookup_copyProperties]

lemma CopiedEdges.foldlM {r : Restored} {done es : List Edge} {g : Graph} (h : CopiedEdges r done g)
    (hends : ∀ e ∈ es, KnownEnds r e) (hlen : (done ++ es).length < 2 ^ 64) :
    ∃ g', es.foldlM (copyEdge r.2) g = .ok g' ∧ CopiedEdges r (done ++ es) g' := by
  induction es generalizing done g with
  | nil => exact ⟨g, rfl, by simpa using h⟩
  | cons e es ih =>
    rw [List.forall_mem_cons] at hends
    have hsplit : done ++ e :: es = (done ++ [e]) ++ es := by simp
    have hdone : done.length < 2 ^ 64 := by
      refine lt_of_le_of_lt ?_ hlen
      simp
    rw [hsplit] at hlen ⊢
    obtain ⟨g₁, hfirst, hg₁⟩ := h.push hends.1 hdone
    obtain ⟨g', hrest, hg'⟩ := ih hg₁ hends.2 hlen
    refine ⟨g', ?_, hg'⟩
    rw [List.foldlM_cons, hfirst]
    exact hrest

end Backup

namespace Graph

/-- The id that a live node gets in a restored backup. -/
def nodeRank (g : Graph) (n : NodeId) : NodeId := UInt64.ofNat (Slots.rank g.nodes n.toNat)

/-- The id that a live edge gets in a restored backup. -/
def edgeRank (g : Graph) (e : EdgeId) : EdgeId := UInt64.ofNat (Slots.rank g.edges e.toNat)

/-- What restoring a backup of `g` builds. -/
structure Rebuilds (g f : Graph) : Prop where
  valid : f.Valid
  nodes_length : f.nodes.length = g.nodeCount
  edges_length : f.edges.length = g.edgeCount
  nodeFreeList : f.nodeFreeList = []
  edgeFreeList : f.edgeFreeList = []
  node : ∀ n a, g.getNode n = some a → ∃ b, f.getNode (g.nodeRank n) = some b ∧
    Backup.CopyOfNode a b
  edge : ∀ e a, g.getEdge e = some a → ∃ b, f.getEdge (g.edgeRank e) = some b ∧ a.SameData b ∧
    b.fromNode = g.nodeRank a.fromNode ∧ b.toNode = g.nodeRank a.toNode

/-- Every graph is rebuilt. -/
theorem Inv.rebuilds {g : Graph} (hg : g.Inv) : ∃ f, Backup.rebuild g = .ok f ∧ Rebuilds g f := by
  have hnodesLen : (g.nodes.filterMap id).length < 2 ^ 64 :=
    (List.length_filterMap_le _ _).trans_lt hg.fits.nodes_lt
  have hedgesLen : (g.edges.filterMap id).length < 2 ^ 64 :=
    (List.length_filterMap_le _ _).trans_lt hg.fits.edges_lt
  have hnodup : ((g.nodes.filterMap id).map Node.id).Nodup :=
    nodup_slots hg.fits.nodes_lt hg.node_id
  have hnodes : Backup.CopiedNodes ([] ++ g.nodes.filterMap id) _ :=
    Backup.copiedNodes_nil.foldl (by simpa using hnodup) (by simpa using hnodesLen)
  rw [List.nil_append] at hnodes
  set r := (g.nodes.filterMap id).foldl Backup.copyNode (.new, ∅) with hr
  have hrank : ∀ n a, g.getNode n = some a → r.2.lookup n = some (g.nodeRank n) ∧
      ∃ b, r.1.getNode (g.nodeRank n) = some b ∧ Backup.CopyOfNode a b := by
    intro n a ha
    have hget := Slots.getElem?_rank ha
    refine ⟨?_, hnodes.node _ a hget⟩
    have hmap := hnodes.idMap _ a hget
    rwa [hg.node_id n a ha] at hmap
  have hknown : ∀ n, (g.getNode n).isSome → r.2.lookup n = some (g.nodeRank n) ∧
      (r.1.getNode (g.nodeRank n)).isSome := by
    intro n hn
    obtain ⟨a, ha⟩ := Option.isSome_iff_exists.mp hn
    obtain ⟨hlookup, b, hb, -⟩ := hrank n a ha
    exact ⟨hlookup, by simp [hb]⟩
  have hends : ∀ e ∈ g.edges.filterMap id, Backup.KnownEnds r e := by
    intro e he
    have hedge : g.getEdge e.id = some e := (mem_slots hg.fits.edges_lt hg.valid.edge_id e).mp he
    obtain ⟨hfrom, hto⟩ := hg.valid.endpoints e.id e hedge
    exact ⟨⟨_, hknown _ hfrom⟩, _, hknown _ hto⟩
  have hstart : Backup.CopiedEdges r [] r.1 :=
    ⟨hnodes.valid, by simp [hnodes.edges], hnodes.edgeFreeList, rfl, rfl, by simp⟩
  obtain ⟨f, hf, hedges⟩ := hstart.foldlM hends (by simpa using hedgesLen)
  rw [List.nil_append] at hedges
  refine ⟨f, hf, hedges.valid, ?_, ?_, ?_, hedges.edgeFreeList, ?_, ?_⟩
  · rw [hedges.nodes, hnodes.nodes_length, hg.nodeCount, Slots.length_filterMap_id]
  · rw [hedges.edges_length, hg.edgeCount, Slots.length_filterMap_id]
  · rw [hedges.nodeFreeList, hnodes.nodeFreeList]
  · intro n a ha
    obtain ⟨-, b, hb, hcopy⟩ := hrank n a ha
    exact ⟨b, by rw [getNode, hedges.nodes]; exact hb, hcopy⟩
  · intro e a ha
    obtain ⟨c, hc, hsame, hfrom, hto⟩ := hedges.edge _ a (Slots.getElem?_rank ha)
    obtain ⟨hlive, hlive'⟩ := hg.valid.endpoints e a ha
    rw [(hknown _ hlive).1] at hfrom
    rw [(hknown _ hlive').1] at hto
    exact ⟨c, hc, hsame, (Option.some.inj hfrom).symm, (Option.some.inj hto).symm⟩

end Graph

/-! ## Labels in one string -/

namespace Backup

/-- Labels that are the same after they were joined and split: none has a colon, and they are not a
single empty label, which leaves an empty string like no labels at all. -/
def LabelsKept (labels : List String) : Prop := (∀ l ∈ labels, ':' ∉ l.toList) ∧ labels ≠ [""]

instance (labels : List String) : Decidable (LabelsKept labels) := inferInstanceAs (Decidable (_ ∧ _))

lemma toList_joinLabels (labels : List String) :
    (joinLabels labels).toList = [':'].intercalate (labels.map String.toList) := by
  rw [joinLabels, String.toList_intercalate]
  rfl

lemma isEmpty_eq_false {s : String} (h : s.toList ≠ []) : s.isEmpty = false := by
  rw [Bool.eq_false_iff]
  intro hempty
  rw [String.isEmpty_iff] at hempty
  exact h (by simp [hempty])

/-- Labels that are kept are read back. -/
lemma splitLabels_joinLabels {labels : List String} (h : LabelsKept labels) :
    splitLabels (joinLabels labels) = labels := by
  obtain ⟨hcolon, hne⟩ := h
  cases labels with
  | nil => rfl
  | cons l rest =>
    have hcolon' : ∀ cs ∈ (l :: rest).map String.toList, ':' ∉ cs := by simpa using hcolon
    have hsplit := List.splitOn_intercalate ':' hcolon' (by simp)
    rw [← toList_joinLabels] at hsplit
    have hnonempty : (joinLabels (l :: rest)).toList ≠ [] := by
      intro hnil
      rw [hnil] at hsplit
      have hlist : (l :: rest).map String.toList = [[]] := by simpa using hsplit.symm
      refine hne ?_
      cases rest with
      | nil => simpa using hlist
      | cons m rest => simp at hlist
    rw [splitLabels, isEmpty_eq_false hnonempty, if_neg (by simp), hsplit, List.map_map]
    simp

/-- No piece of a list that was cut at `a` has `a` in it. -/
lemma notMem_of_mem_splitOn {α : Type} [DecidableEq α] {a : α} {xs piece : List α}
    (h : piece ∈ xs.splitOn a) : a ∉ piece := by
  induction xs generalizing piece with
  | nil =>
    obtain rfl : piece = [] := by simpa using h
    simp
  | cons x xs ih =>
    rw [List.splitOn_cons_eq_if_modifyHead] at h
    by_cases hx : x = a
    · rw [if_pos (by simpa using hx)] at h
      rcases List.mem_cons.mp h with rfl | h
      · simp
      · exact ih h
    · rw [if_neg (by simpa using hx)] at h
      cases hpieces : xs.splitOn a with
      | nil => exact absurd hpieces (List.splitOn_ne_nil a xs)
      | cons first others =>
        rw [hpieces, List.modifyHead_cons] at h
        rcases List.mem_cons.mp h with rfl | h
        · have hfirst : a ∉ first := ih (by simp [hpieces])
          simp [Ne.symm hx, hfirst]
        · exact ih (by simp [hpieces, h])

/-- What is read is kept. -/
lemma labelsKept_splitLabels (s : String) : LabelsKept (splitLabels s) := by
  unfold splitLabels
  split
  · exact ⟨by simp, by simp⟩
  · next hempty =>
    refine ⟨fun l hl => ?_, fun hone => ?_⟩
    · obtain ⟨piece, hpiece, rfl⟩ := List.mem_map.mp hl
      rw [String.toList_ofList]
      exact notMem_of_mem_splitOn hpiece
    · -- one empty piece: the string was empty
      obtain ⟨piece, hpieces, hpiece⟩ := List.map_eq_singleton_iff.mp hone
      have hnil : piece = [] := by simpa using congrArg String.toList hpiece
      have hback : [':'].intercalate (s.toList.splitOn ':') = s.toList := List.intercalate_splitOn ':'
      rw [hpieces, hnil] at hback
      refine hempty (String.isEmpty_iff.mpr ?_)
      exact String.toList_inj.mp (by simpa using hback.symm)

/-! ## The round trip -/

/-- Ranks number the occupied slots of a vector by the slots of a vector without holes. -/
lemma bijOn_rank {α β : Type} {l : List (Option α)} {l' : List (Option β)} (hlen : l.length < 2 ^ 64)
    (hlen' : l'.length = (l.filterMap id).length)
    (hmaps : ∀ n : UInt64, (l.getD n.toNat none).isSome →
      (l'.getD (UInt64.ofNat (Slots.rank l n.toNat)).toNat none).isSome) :
    Set.BijOn (fun n : UInt64 => UInt64.ofNat (Slots.rank l n.toNat))
      {n | (l.getD n.toNat none).isSome} {n | (l'.getD n.toNat none).isSome} := by
  have hcount : (l.filterMap id).length < 2 ^ 64 :=
    (List.length_filterMap_le _ _).trans_lt hlen
  have hrank : ∀ n : UInt64, (l.getD n.toNat none).isSome →
      (UInt64.ofNat (Slots.rank l n.toNat)).toNat = Slots.rank l n.toNat := by
    intro n hn
    obtain ⟨v, hv⟩ := Option.isSome_iff_exists.mp hn
    exact toNat_ofNat64 ((Slots.rank_lt hv).trans hcount)
  refine ⟨hmaps, fun n hn m hm heq => ?_, fun k hk => ?_⟩
  · obtain ⟨v, hv⟩ := Option.isSome_iff_exists.mp hn
    obtain ⟨w, hw⟩ := Option.isSome_iff_exists.mp hm
    have hnat := congrArg UInt64.toNat heq
    simp only [hrank n hn, hrank m hm] at hnat
    exact UInt64.toNat_inj.mp (Slots.rank_injOn hv hw hnat)
  · have hlt : k.toNat < (l.filterMap id).length := by
      rw [← hlen']
      by_contra hge
      rw [Set.mem_ofPred_eq, List.getD_eq_default _ _ (not_lt.mp hge)] at hk
      cases hk
    obtain ⟨i, v, hi, hik⟩ := Slots.exists_rank hlt
    have hilt : i < 2 ^ 64 := by
      by_contra hge
      rw [List.getD_eq_default _ _ (hlen.le.trans (not_lt.mp hge))] at hi
      cases hi
    refine ⟨UInt64.ofNat i, ?_, ?_⟩
    · rw [Set.mem_ofPred_eq, toNat_ofNat64 hilt, hi]
      rfl
    · simp [toNat_ofNat64 hilt, hik]

/-- When the labels of every node are kept, the rebuilt graph is a copy, with the ranks of the ids as
the new ids. -/
theorem copies_of_rebuilds {g f : Graph} (hg : g.Inv) (hf : g.Rebuilds f)
    (hlabels : ∀ n a, g.getNode n = some a → LabelsKept a.labels) :
    g.Copies f g.nodeRank g.edgeRank := by
  have hnodes : f.nodes.length = (g.nodes.filterMap id).length := by
    rw [hf.nodes_length, hg.nodeCount, Slots.length_filterMap_id]
  have hedges : f.edges.length = (g.edges.filterMap id).length := by
    rw [hf.edges_length, hg.edgeCount, Slots.length_filterMap_id]
  refine ⟨bijOn_rank hg.fits.nodes_lt hnodes fun n hn => ?_,
    bijOn_rank hg.fits.edges_lt hedges fun e he => ?_, fun n a ha => ?_, hf.edge⟩
  · obtain ⟨a, ha⟩ := Option.isSome_iff_exists.mp hn
    obtain ⟨b, hb, -⟩ := hf.node n a ha
    exact Option.isSome_of_eq_some hb
  · obtain ⟨a, ha⟩ := Option.isSome_iff_exists.mp he
    obtain ⟨b, hb, -⟩ := hf.edge e a ha
    exact Option.isSome_of_eq_some hb
  · obtain ⟨b, hb, hcopy⟩ := hf.node n a ha
    refine ⟨b, hb, ?_, hcopy.properties⟩
    rw [hcopy.labels, splitLabels_joinLabels (hlabels n a ha)]

/-- Every node of a rebuilt graph has labels that were read from a string. -/
theorem labelsKept_of_rebuilds {g f : Graph} (hg : g.Inv) (hf : g.Rebuilds f) {m : NodeId} {b : Node}
    (hb : f.getNode m = some b) : LabelsKept b.labels := by
  have hnodes : f.nodes.length = (g.nodes.filterMap id).length := by
    rw [hf.nodes_length, hg.nodeCount, Slots.length_filterMap_id]
  have hsurj := (bijOn_rank hg.fits.nodes_lt hnodes fun n hn => by
    obtain ⟨a, ha⟩ := Option.isSome_iff_exists.mp hn
    obtain ⟨b, hb, -⟩ := hf.node n a ha
    exact Option.isSome_of_eq_some hb).surjOn
  obtain ⟨n, hn, rfl⟩ := hsurj (Option.isSome_of_eq_some hb)
  obtain ⟨a, ha⟩ := Option.isSome_iff_exists.mp hn
  obtain ⟨b', hb', hcopy⟩ := hf.node n a ha
  obtain rfl : b' = b := Option.some.inj (hb'.symm.trans hb)
  rw [hcopy.labels]
  exact labelsKept_splitLabels _

/-- A backup that restores to a copy keeps the labels of every node. -/
theorem labelsKept_of_isCopy {z : Compressors} {g f : Graph} (hg : g.Inv) (hstore : Storable g)
    {timestamp : UInt64} {options : BackupOptions}
    (hoptions : WalCodec.ShortString options.description)
    (hf : restore z (create z g timestamp options).2 = .ok f) (hcopy : g.IsCopy f) {n : NodeId}
    {a : Node} (ha : g.getNode n = some a) : LabelsKept a.labels := by
  obtain ⟨f', hf', hrebuilds⟩ := hg.rebuilds
  obtain rfl : f' = f :=
    Except.ok.inj ((restore_create z hg hstore hf' timestamp hoptions).symm.trans hf)
  obtain ⟨ν, ε, hcopies⟩ := hcopy
  obtain ⟨b, hb, hsame⟩ := hcopies.node n a ha
  rw [← hsame.labels]
  exact labelsKept_of_rebuilds hg hrebuilds hb

/-- The round trip of a full backup, for every compression: the restored graph is a copy of the graph,
with the same labels, properties, edges and edge properties, exactly when the labels of every node
survive being joined with colons. -/
theorem restore_create_isCopy_iff (z : Compressors) {g : Graph} (hg : g.Inv) (hstore : Storable g)
    (timestamp : UInt64) (options : BackupOptions)
    (hoptions : WalCodec.ShortString options.description) :
    (∃ f, restore z (create z g timestamp options).2 = .ok f ∧ g.IsCopy f) ↔
      ∀ n a, g.getNode n = some a → LabelsKept a.labels := by
  constructor
  · rintro ⟨f, hf, hcopy⟩ n a ha
    exact labelsKept_of_isCopy hg hstore hoptions hf hcopy ha
  · intro hlabels
    obtain ⟨f, hf, hrebuilds⟩ := hg.rebuilds
    exact ⟨f, restore_create z hg hstore hf timestamp hoptions, _, _,
      copies_of_rebuilds hg hrebuilds hlabels⟩

/-- A graph of one node with the given labels and a loop. -/
def loopGraph (labels : List String) : Graph :=
  ((Graph.new.createNodeWithLabels labels).1.createEdge 0 0 "LOOP").1

lemma inv_loopGraph {labels : List String} (hnode : (Graph.new.createNodeWithLabels labels).1.Fits)
    (hedge : (loopGraph labels).Fits) : (loopGraph labels).Inv :=
  (Graph.inv_new.createNodeWithLabels labels hnode).createEdge 0 0 "LOOP" hedge

/-- A node with two labels and a loop is restored from a compressed backup. -/
theorem restore_create_loopGraph :
    ∃ f, restore .framed (create .framed (loopGraph ["City", "Port"]) 7 ⟨.zstd, "nightly"⟩).2 = .ok f ∧
      (loopGraph ["City", "Port"]).IsCopy f := by
  refine (restore_create_isCopy_iff .framed (inv_loopGraph (by decide +kernel) (by decide +kernel))
    (storable_of_slots (by decide +kernel) (by decide +kernel)) 7 ⟨.zstd, "nightly"⟩
    (by decide +kernel)).mpr fun n a ha => ?_
  have hall : ∀ a ∈ (loopGraph ["City", "Port"]).nodes.filterMap id, LabelsKept a.labels := by
    decide +kernel
  exact hall a (Slots.mem_filterMap_id.mpr ⟨_, ha⟩)

/-- A label with a colon in it comes back as two labels. -/
theorem restore_create_colon :
    ¬ ∃ f, restore .framed (create .framed (loopGraph ["geo:City"]) 7 ⟨.none, ""⟩).2 = .ok f ∧
      (loopGraph ["geo:City"]).IsCopy f := by
  rintro ⟨f, hf, hcopy⟩
  have hkept := labelsKept_of_isCopy (inv_loopGraph (by decide +kernel) (by decide +kernel))
    (storable_of_slots (by decide +kernel) (by decide +kernel)) (by decide +kernel) hf hcopy (n := 0)
    (a := ⟨0, ["geo:City"], ∅⟩) rfl
  exact absurd hkept (by decide)

end Backup

end Maharit
