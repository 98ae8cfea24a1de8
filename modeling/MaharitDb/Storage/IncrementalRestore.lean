import MaharitDb.Storage.IncrementalTracks

/-!
# Restoring an incremental backup

The four loops of `Backup.restoreIncremental`, each with what it does to the graph, and the condition
under which the result is a copy of the graph that was backed up.
-/

namespace Maharit

open WalCodec GuardedRun

namespace Backup

/-! ## The changed nodes -/

/-- The nodes `ns` of the file were applied to `g`. -/
structure NodesApplied (g : Graph) (ns : List Node) (f : Graph) : Prop where
  valid : f.Valid
  edges : f.edges = g.edges
  edgeFreeList : f.edgeFreeList = g.edgeFreeList
  node : ∀ n ∈ ns, ∃ b, f.getNode n.id = some b ∧ CopyOfNode n b
  other : ∀ m, (∀ n ∈ ns, n.id ≠ m) → f.getNode m = g.getNode m

/-- What one node of the file does. -/
lemma copyChangedNode_spec {g : Graph} (hg : g.Valid) (n : Node) :
    NodesApplied g [n] (copyChangedNode g n) := by
  have hcopied : ∀ key, (copyProperties (copyProperties n.properties)).lookup key =
      n.properties.lookup key := by simp
  unfold copyChangedNode applyChangedNode
  cases hnode : g.getNode n.id with
  | none =>
    have hstore := hg.storesNode_withId hnode (splitLabels (joinLabels n.labels))
    have hid : (g.createNodeWithIdAndLabels n.id (splitLabels (joinLabels n.labels))).2 = n.id := by
      simp [Graph.createNodeWithIdAndLabels, hnode]
    simp only [Option.isNone_none, if_true, setNodeProperties, Graph.foldl_setNodeProperty, hid]
    refine ⟨(hstore.valid hg).modifyNode _ _, hstore.edges, hstore.edgeFreeList, ?_, ?_⟩
    · intro m hm
      obtain rfl := List.mem_singleton.mp hm
      rw [Graph.getNode_modifyNode, if_pos rfl, hstore.getNode, if_pos rfl]
      exact ⟨_, rfl, rfl, hcopied⟩
    · intro m hm
      have hne : m ≠ n.id := (hm n List.mem_cons_self).symm
      rw [Graph.getNode_modifyNode, if_neg hne, hstore.getNode, if_neg hne]
  | some a =>
    simp only [Option.isNone_some, Bool.false_eq_true, if_false]
    refine ⟨hg.modifyNode _ _, rfl, rfl, ?_, ?_⟩
    · intro m hm
      obtain rfl := List.mem_singleton.mp hm
      rw [Graph.getNode_modifyNode, if_pos rfl, hnode]
      exact ⟨_, rfl, rfl, fun key => lookup_copyProperties m.properties key⟩
    · intro m hm
      have hne : m ≠ n.id := (hm n List.mem_cons_self).symm
      rw [Graph.getNode_modifyNode, if_neg hne]

/-- The loop over the changed nodes; the nodes of a list that share an id are one node. -/
lemma foldl_copyChangedNode {g : Graph} (hg : g.Valid) (ns : List Node)
    (huniq : ∀ n ∈ ns, ∀ m ∈ ns, n.id = m.id → n = m) :
    NodesApplied g ns (ns.foldl copyChangedNode g) := by
  induction ns generalizing g with
  | nil => exact ⟨hg, rfl, rfl, by simp, fun _ _ => rfl⟩
  | cons n ns ih =>
    have hfirst := copyChangedNode_spec hg n
    have hrest := ih hfirst.valid fun a ha b hb =>
      huniq a (List.mem_cons_of_mem _ ha) b (List.mem_cons_of_mem _ hb)
    refine ⟨hrest.valid, hrest.edges.trans hfirst.edges, hrest.edgeFreeList.trans hfirst.edgeFreeList,
      ?_, ?_⟩
    · intro m hm
      by_cases hlater : m ∈ ns
      · exact hrest.node m hlater
      · obtain rfl : m = n := (List.mem_cons.mp hm).resolve_right hlater
        have hkept := hrest.other m.id fun a ha hid => by
          have heq := huniq a (List.mem_cons_of_mem _ ha) m List.mem_cons_self hid
          exact hlater (heq ▸ ha)
        obtain ⟨b, hb, hcopy⟩ := hfirst.node m List.mem_cons_self
        exact ⟨b, hkept.trans hb, hcopy⟩
    · intro m hm
      rw [List.forall_mem_cons] at hm
      have hskip := hfirst.other m (by simpa using hm.1)
      exact (hrest.other m hm.2).trans hskip

/-! ## The changed edges -/

/-- The edges of the file that `f` does not have under their ids. -/
def missingEdges (f : Graph) (es : List Edge) : List Edge := es.filter fun e => (f.getEdge e.id).isNone

/-- The edges `es` of the file were applied to `f`: an edge it had was changed in place, the others
were appended. -/
structure EdgesApplied (f : Graph) (es : List Edge) (f' : Graph) : Prop where
  valid : f'.Valid
  nodes : f'.nodes = f.nodes
  edgeFreeList : f'.edgeFreeList = []
  edges_length : f'.edges.length = f.edges.length + (missingEdges f es).length
  old : ∀ e ∈ es, ∀ d, f.getEdge e.id = some d → ∃ c, f'.getEdge e.id = some c ∧ e.SameData c ∧
    c.fromNode = d.fromNode ∧ c.toNode = d.toNode
  new : ∀ j e, (missingEdges f es)[j]? = some e →
    ∃ c, f'.getEdge (UInt64.ofNat (f.edges.length + j)) = some c ∧ e.SameData c ∧
      c.fromNode = e.fromNode ∧ c.toNode = e.toNode
  other : ∀ i : EdgeId, i.toNat < f.edges.length → (∀ e ∈ es, e.id ≠ i) → f'.getEdge i = f.getEdge i

lemma edgesApplied_nil {f : Graph} (hf : f.Valid) (hfree : f.edgeFreeList = []) :
    EdgesApplied f [] f :=
  ⟨hf, rfl, hfree, rfl, by simp, by simp [missingEdges], fun _ _ _ => rfl⟩

/-- The ids of the appended edges. -/
lemma toNat_newEdge {f : Graph} {es : List Edge}
    (hbound : f.edges.length + (missingEdges f es).length < 2 ^ 64) {j : ℕ}
    (hj : j ≤ (missingEdges f es).length) :
    (UInt64.ofNat (f.edges.length + j)).toNat = f.edges.length + j :=
  toNat_ofNat64 (by omega)

section ChangedEdge

variable {f f' : Graph} {es : List Edge} (h : EdgesApplied f es f') {e : Edge}
  (hbound : f.edges.length + (missingEdges f es).length < 2 ^ 64)

include h hbound

/-- An edge that is there is changed in place. -/
lemma EdgesApplied.push_old (hnew : ∀ d ∈ es, d.id ≠ e.id) {d : Edge} (hd : f.getEdge e.id = some d) :
    ∃ f'', copyChangedEdge f' e = .ok f'' ∧ EdgesApplied f (es ++ [e]) f'' := by
  have hlt := Graph.toNat_lt_of_getEdge hd
  have hstill : f'.getEdge e.id = some d := (h.other e.id hlt hnew).trans hd
  have hmissing : missingEdges f (es ++ [e]) = missingEdges f es := by
    simp [missingEdges, List.filter_append, hd]
  have hcopy : copyChangedEdge f' e = .ok (f'.modifyEdge e.id fun c =>
      { c with label := e.label, properties := copyProperties e.properties }) := by
    simp [copyChangedEdge, applyChangedEdge, hstill]
  refine ⟨_, hcopy, h.valid.modifyEdge _ fun _ => ⟨rfl, rfl, rfl⟩, h.nodes, h.edgeFreeList, ?_, ?_, ?_,
    ?_⟩
  · rw [hmissing, ← h.edges_length]
    simp [Graph.modifyEdge]
  · intro a ha d' hd'
    rw [Graph.getEdge_modifyEdge]
    rcases List.mem_append.mp ha with ha | ha
    · rw [if_neg (hnew a ha)]
      exact h.old a ha d' hd'
    · obtain rfl := List.mem_singleton.mp ha
      rw [hd] at hd'
      obtain rfl := Option.some.inj hd'
      rw [if_pos rfl, hstill]
      exact ⟨_, rfl, ⟨rfl, fun key => lookup_copyProperties a.properties key⟩, rfl, rfl⟩
  · intro j a ha
    rw [hmissing] at ha
    obtain ⟨c, hc, hrest⟩ := h.new j a ha
    obtain ⟨hj, -⟩ := List.getElem?_eq_some_iff.mp ha
    refine ⟨c, ?_, hrest⟩
    -- The edge that is changed has a smaller id than those appended.
    have hne : UInt64.ofNat (f.edges.length + j) ≠ e.id := by
      intro heq
      have hnat := toNat_newEdge hbound hj.le
      rw [heq] at hnat
      omega
    rw [Graph.getEdge_modifyEdge, if_neg hne, hc]
  · intro i hi hids
    rw [Graph.getEdge_modifyEdge, if_neg (hids e (by simp)).symm]
    exact h.other i hi fun a ha => hids a (List.mem_append_left _ ha)

/-- An edge that is missing, and whose id was not given away, is appended. -/
lemma EdgesApplied.push_new (hmiss : f.getEdge e.id = none)
    (hid : f.edges.length + (missingEdges f es).length ≤ e.id.toNat)
    (hfrom : (f.getNode e.fromNode).isSome) (hto : (f.getNode e.toNode).isSome) :
    ∃ f'', copyChangedEdge f' e = .ok f'' ∧ EdgesApplied f (es ++ [e]) f'' := by
  have hnode : ∀ n, f'.getNode n = f.getNode n := fun n => by rw [Graph.getNode, h.nodes, Graph.getNode]
  have hmissing : missingEdges f (es ++ [e]) = missingEdges f es ++ [e] := by
    simp [missingEdges, List.filter_append, hmiss]
  have hdead : f'.getEdge e.id = none := by
    rw [Graph.getEdge, List.getD_eq_default _ _ (h.edges_length.trans_le hid)]
  have hlen : f'.edges.length < 2 ^ 64 := h.edges_length ▸ hbound
  rw [← hnode] at hfrom hto
  obtain ⟨hok, happend⟩ := h.valid.appendsEdge h.edgeFreeList hlen hfrom hto e.label
    (copyProperties e.properties)
  have hcopy : copyChangedEdge f' e = .ok (setEdgeProperties
      (f'.createEdge e.fromNode e.toNode e.label).1 (UInt64.ofNat f'.edges.length)
      (copyProperties e.properties)) := by
    simp only [copyChangedEdge, applyChangedEdge, hdead, Option.isNone_none, hfrom, hto, Bool.and_self,
      if_true]
    rcases hcreate : f'.createEdge e.fromNode e.toNode e.label with ⟨g, x | id⟩
    · rw [hcreate] at hok
      cases hok
    · rw [hcreate] at hok
      obtain rfl : id = UInt64.ofNat f'.edges.length := Except.ok.inj hok
      simp only
  have hget : ∀ i, (setEdgeProperties (f'.createEdge e.fromNode e.toNode e.label).1
      (UInt64.ofNat f'.edges.length) (copyProperties e.properties)).getEdge i =
      if i = UInt64.ofNat (f.edges.length + (missingEdges f es).length) then
        some ⟨UInt64.ofNat f'.edges.length, e.label, e.fromNode, e.toNode,
          copyProperties (copyProperties e.properties)⟩
      else f'.getEdge i := by
    rw [← h.edges_length]
    exact happend.getEdge
  refine ⟨_, hcopy, happend.valid, happend.nodes.trans h.nodes, happend.edgeFreeList, ?_, ?_, ?_, ?_⟩
  · rw [happend.edges_length, hmissing, List.length_append, List.length_singleton, h.edges_length]
    omega
  · intro a ha d hd
    have hlt := Graph.toNat_lt_of_getEdge hd
    have hne : a.id ≠ UInt64.ofNat (f.edges.length + (missingEdges f es).length) := by
      intro heq
      have hnat := toNat_newEdge hbound le_rfl
      rw [← heq] at hnat
      omega
    rw [hget, if_neg hne]
    rcases List.mem_append.mp ha with ha | ha
    · exact h.old a ha d hd
    · obtain rfl := List.mem_singleton.mp ha
      rw [hmiss] at hd
      cases hd
  · intro j a ha
    rw [hmissing] at ha
    rw [hget]
    rcases getElem?_push ha with ⟨hj, ha⟩ | ⟨rfl, rfl⟩
    · have hne : UInt64.ofNat (f.edges.length + j) ≠
          UInt64.ofNat (f.edges.length + (missingEdges f es).length) :=
        ofNat_ne (by omega) hbound (by omega)
      rw [if_neg hne]
      exact h.new j a ha
    · rw [if_pos rfl]
      refine ⟨_, rfl, ⟨rfl, fun key => ?_⟩, rfl, rfl⟩
      simp only [Edge.getProperty, lookup_copyProperties]
  · intro i hi hids
    have hne : i ≠ UInt64.ofNat (f.edges.length + (missingEdges f es).length) := by
      intro heq
      have hnat := toNat_newEdge hbound le_rfl
      rw [← heq] at hnat
      omega
    rw [hget, if_neg hne]
    exact h.other i hi fun a ha => hids a (List.mem_append_left _ ha)

end ChangedEdge

/-- The loop over the changed edges, in an order in which no missing edge meets an id already given
away. -/
lemma EdgesApplied.foldlM {f f' : Graph} {done es : List Edge} (h : EdgesApplied f done f')
    (hnodup : ((done ++ es).map Edge.id).Nodup)
    (hbound : f.edges.length + (missingEdges f (done ++ es)).length < 2 ^ 64)
    (hids : ∀ j e, (missingEdges f (done ++ es))[j]? = some e → f.edges.length + j ≤ e.id.toNat)
    (hends : ∀ e ∈ es, f.getEdge e.id = none →
      (f.getNode e.fromNode).isSome ∧ (f.getNode e.toNode).isSome) :
    ∃ f'', es.foldlM copyChangedEdge f' = .ok f'' ∧ EdgesApplied f (done ++ es) f'' := by
  induction es generalizing done f' with
  | nil => exact ⟨f', rfl, by simpa using h⟩
  | cons e es ih =>
    rw [List.forall_mem_cons] at hends
    have hsplit : done ++ e :: es = (done ++ [e]) ++ es := by simp
    have hmissing : missingEdges f (done ++ e :: es) =
        missingEdges f done ++ missingEdges f (e :: es) := List.filter_append _ _
    have hdone : f.edges.length + (missingEdges f done).length < 2 ^ 64 := by
      rw [hmissing, List.length_append] at hbound
      omega
    have hnew : ∀ d ∈ done, d.id ≠ e.id := by
      intro d hd heq
      rw [List.map_append] at hnodup
      exact (List.nodup_append.mp hnodup).2.2 d.id (List.mem_map_of_mem hd) e.id (by simp) heq
    have hfirst : ∃ f₁, copyChangedEdge f' e = .ok f₁ ∧ EdgesApplied f (done ++ [e]) f₁ := by
      cases hedge : f.getEdge e.id with
      | some d => exact h.push_old hdone hnew hedge
      | none =>
        have hhead : missingEdges f (e :: es) = e :: missingEdges f es := by
          simp [missingEdges, hedge]
        have hid := hids (missingEdges f done).length e (by rw [hmissing, hhead]; simp)
        exact h.push_new hdone hedge hid (hends.1 hedge).1 (hends.1 hedge).2
    rw [hsplit] at hnodup hbound hids ⊢
    obtain ⟨f₁, hcopy, hf₁⟩ := hfirst
    obtain ⟨f'', hrest, hf''⟩ := ih hf₁ hnodup hbound hids hends.2
    refine ⟨f'', ?_, hf''⟩
    rw [List.foldlM_cons, hcopy]
    exact hrest

/-! ## The deleted ids -/

/-- The nodes `ids` were deleted. -/
structure NodesDeleted (f : Graph) (ids : List NodeId) (f' : Graph) : Prop where
  valid : f'.Valid
  getNode : ∀ n, f'.getNode n = if n ∈ ids then none else f.getNode n
  getEdge : ∀ e, f'.getEdge e = (f.getEdge e).filter fun c => c.fromNode ∉ ids ∧ c.toNode ∉ ids

lemma nodesDeleted_deleteNodes {f : Graph} (hf : f.Valid) (orders : ℕ → IterOrder × IterOrder)
    (ids : List NodeId) : NodesDeleted f ids (deleteNodes orders ids f) := by
  induction ids generalizing f with
  | nil =>
    refine ⟨hf, fun n => by simp [deleteNodes], fun e => ?_⟩
    cases hc : f.getEdge e <;> simp [deleteNodes, hc, Option.filter]
  | cons id ids ih =>
    have hrest := ih (hf.deleteNode (orders ids.length).1 (orders ids.length).2 id)
    refine ⟨hrest.valid, fun n => ?_, fun e => ?_⟩
    · rw [deleteNodes, hrest.getNode, hf.getNode_deleteNode]
      by_cases hn : n = id
      · simp [hn]
      · simp [hn]
    · rw [deleteNodes, hrest.getEdge, hf.getEdge_deleteNode, Option.filter_filter]
      congr 1
      funext c
      rw [← Bool.decide_and, decide_eq_decide]
      simp only [List.mem_cons]
      tauto

lemma deleteEdges_spec (ids : List EdgeId) (f : Graph) :
    (deleteEdges ids f).nodes = f.nodes ∧
    ∀ e, (deleteEdges ids f).getEdge e = if e ∈ ids then none else f.getEdge e := by
  induction ids generalizing f with
  | nil => exact ⟨rfl, fun e => by simp [deleteEdges]⟩
  | cons id ids ih =>
    obtain ⟨hnodes, hedges⟩ := ih (f.deleteEdge id).1
    refine ⟨hnodes.trans (Graph.nodes_deleteEdge f id), fun e => ?_⟩
    refine (hedges e).trans ?_
    rw [Graph.getEdge_deleteEdge]
    by_cases he : e = id
    · simp [he]
    · simp [he]

end Backup

/-! ## When the copy is exact -/

namespace Graph

/-- A node id means the same node in a graph and in its restored backup, or none in both. -/
def NodeAligned (g : Graph) (n : NodeId) : Prop :=
  if (g.getNode n).isSome then g.nodeRank n = n else g.nodeCount ≤ n.toNat

/-- An edge id means the same edge in a graph and in its restored backup, or none in both. -/
def EdgeAligned (g : Graph) (e : EdgeId) : Prop :=
  if (g.getEdge e).isSome then g.edgeRank e = e else g.edgeCount ≤ e.toNat

instance (g : Graph) (n : NodeId) : Decidable (g.NodeAligned n) := by
  unfold NodeAligned
  infer_instance

instance (g : Graph) (e : EdgeId) : Decidable (g.EdgeAligned e) := by
  unfold EdgeAligned
  infer_instance

end Graph

/-- The edges that an incremental backup holds and the full backup does not, in the order of the
file. -/
def newEdgeIds (g₀ g : Graph) (orders : ChangeOrders) (records : List LogRecord) : List EdgeId :=
  (orders.changedEdges.iter (Changes.scan records).changedEdges).filter fun e =>
    (g.getEdge e).isSome && (g₀.getEdge e).isNone

/-- What an increment from `g₀` to `g` must respect, with the records logged in between.

The ids that the increment mentions mean the same in `g₀` and in its restored backup.  What is deleted
stays deleted, and the id of an edge of `g₀` is not used again.  The new edges get the next free ids
one after the other: their order must be such that none of these ids is the id of a new edge that comes
later, and none of them is among the deleted ones. -/
structure Restorable (g₀ g : Graph) (orders : ChangeOrders) (records : List LogRecord) : Prop where
  labels : ∀ n a, g.getNode n = some a → (∀ l ∈ a.labels, ':' ∉ l.toList) ∧ a.labels ≠ [""]
  changedNodes : ∀ n ∈ (Changes.scan records).changedNodes, (g.getNode n).isSome → g₀.NodeAligned n
  deletedNodes : ∀ n ∈ (Changes.scan records).deletedNodes, g₀.NodeAligned n
  ends : ∀ e ∈ newEdgeIds g₀ g orders records, ∀ c, g.getEdge e = some c →
    g₀.NodeAligned c.fromNode ∧ g₀.NodeAligned c.toNode
  changedEdges : ∀ e ∈ (Changes.scan records).changedEdges, (g.getEdge e).isSome → g₀.EdgeAligned e
  deletedEdges : ∀ e ∈ (Changes.scan records).deletedEdges, g₀.EdgeAligned e
  nodesGone : ∀ n ∈ (Changes.scan records).deletedNodes, g.getNode n = none
  edgesGone : ∀ e ∈ (Changes.scan records).deletedEdges, g.getEdge e = none
  edgesFresh : ∀ e ∈ createdEdges records, (g.getEdge e).isSome → g₀.getEdge e = none
  order : ∀ j e, (newEdgeIds g₀ g orders records)[j]? = some e → g₀.edgeCount + j ≤ e.toNat
  apart : ∀ e ∈ (Changes.scan records).deletedEdges,
    e.toNat < g₀.edgeCount ∨ g₀.edgeCount + (newEdgeIds g₀ g orders records).length ≤ e.toNat

end Maharit
