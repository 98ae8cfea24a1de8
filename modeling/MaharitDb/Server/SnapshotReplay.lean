import MaharitDb.Lib.GraphReplay
import MaharitDb.Core.ConcurrentGraphRuns
import MaharitDb.Core.Graph
import MaharitDb.Server.Replication
import MaharitDb.Server.Rollback

/-!
# A snapshot and the log behind it

A new follower subscribes to the log of its leader and is then sent a snapshot of the graph
(`handle_follower_connection` in `maharit-server/src/replication.rs`).  What the leader logs between
the two is in the snapshot and in the log, and the follower applies it twice, the second time over a
state that is ahead of it.

The replay converges.  On the content this is `PropertyGraph.Overlap`.  Besides, the follower's label
index may list a node under labels that it has in the snapshot and not yet in the replay; `Follows`
keeps both.
-/

namespace Maharit

open UndoLog GuardedRun PropertyGraph

/-! ## The snapshot -/

/-- The entries of a node in a snapshot. -/
def nodeSnapshot (J : JsonText) (n : Node) : List WalEntryData :=
  .createNode n.id n.labels :: n.properties.entries.map fun p =>
    .setProperty n.id true p.1 (propertyValueToWalString J p.2)

/-- The entries of an edge in a snapshot. -/
def edgeSnapshot (J : JsonText) (e : Edge) : List WalEntryData :=
  .createEdge e.id e.fromNode e.toNode e.label :: e.properties.entries.map fun p =>
    .setProperty e.id false p.1 (propertyValueToWalString J p.2)

/-- The snapshot of a graph with the given nodes and edges. -/
def snapshotEntries (J : JsonText) (nodes : List Node) (edges : List Edge) : List WalEntryData :=
  nodes.flatMap (nodeSnapshot J) ++ edges.flatMap (edgeSnapshot J)

/-- `graph_to_snapshot_entries`. -/
def graphToSnapshotEntries (J : JsonText) (g : Graph) : List WalEntryData :=
  snapshotEntries J (g.nodes.filterMap id) (g.edges.filterMap id)

/-- The operation on the content that an entry stands for. -/
def WalEntryData.op (J : JsonText) :
    WalEntryData → PropertyGraph.Op NodeId EdgeId String String PropertyValue
  | .createNode nodeId labels => .createNode nodeId {l | l ∈ labels}
  | .deleteNode nodeId => .deleteNode nodeId
  | .createEdge edgeId fromNode toNode label => .createEdge edgeId label fromNode toNode
  | .deleteEdge edgeId => .deleteEdge edgeId
  | .setProperty targetId isNode key value =>
      if isNode then .setNodeProp targetId key (some (walStringToPropertyValue J value))
      else .setEdgeProp targetId key (some (walStringToPropertyValue J value))
  | .removeProperty targetId isNode key =>
      if isNode then .setNodeProp targetId key none else .setEdgeProp targetId key none
  | .addLabel nodeId label => .addLabel nodeId label
  | .removeLabel nodeId label => .removeLabel nodeId label

/-- What holds of an entry that the leader logged when its content was `G`: it stores elements under
unused ids and edges between live nodes, an edge always with the endpoints that belong to its id; it
attaches no empty label, and a value that it assigns to a live element survives the log. -/
structure WalEntryData.Sound (J : JsonText) (ends : EdgeId → NodeId × NodeId) (G : GraphContent)
    (x : WalEntryData) : Prop where
  recorded : (x.op J).Recorded G
  endpoints : ∀ e a b l, x = .createEdge e a b l → (a, b) = ends e
  label : ∀ n l, x = .addLabel n l → l ≠ ""
  assigns : (x.op J).Assigns (SurvivesWal J) G

lemma WalEntryData.Sound.joins {J : JsonText} {ends : EdgeId → NodeId × NodeId} {G : GraphContent}
    {x : WalEntryData} (hx : x.Sound J ends G) {e : EdgeId} {label : String} {src dst : NodeId}
    (hop : x.op J = .createEdge e label src dst) : (src, dst) = ends e := by
  cases x with
  | createEdge edgeId fromNode toNode l =>
    simp only [WalEntryData.op, Op.createEdge.injEq] at hop
    obtain ⟨rfl, -, rfl, rfl⟩ := hop
    exact hx.endpoints edgeId fromNode toNode l rfl
  | setProperty targetId isNode key value => cases isNode <;> cases hop
  | removeProperty targetId isNode key => cases isNode <;> cases hop
  | _ => cases hop

/-- The content after a log. -/
noncomputable def replayContent (J : JsonText) (G : GraphContent) (log : List WalEntryData) :
    GraphContent := log.foldl (fun G x => (x.op J).apply G) G

/-- Every entry of a log is sound in the content the log has come to. -/
def SoundLog (J : JsonText) (ends : EdgeId → NodeId × NodeId) (G : GraphContent)
    (log : List WalEntryData) : Prop :=
  Along (fun G x => (x.op J).apply G) (fun G x => x.Sound J ends G) G log

section SoundLog

variable {J : JsonText} {ends : EdgeId → NodeId × NodeId} {G : GraphContent} {log log' : List WalEntryData}

lemma replayContent_append :
    replayContent J G (log ++ log') = replayContent J (replayContent J G log) log' :=
  List.foldl_append

lemma soundLog_append :
    SoundLog J ends G (log ++ log') ↔
      SoundLog J ends G log ∧ SoundLog J ends (replayContent J G log) log' := along_append

lemma SoundLog.edgesJoin (h : SoundLog J ends G log) (hG : EdgesJoin ends G) :
    EdgesJoin ends (replayContent J G log) :=
  inv_foldl (fun _ _ hG hx => hG.apply fun _ _ _ _ => hx.joins) hG h

lemma SoundLog.allValues (h : SoundLog J ends G log) (hG : AllValues (SurvivesWal J) G) :
    AllValues (SurvivesWal J) (replayContent J G log) :=
  inv_foldl (fun _ _ hG hx => hG.apply hx.assigns) hG h

end SoundLog

namespace ConcurrentGraph

/-! ## Graphs up to their label index -/

/-- The graph with another label index. -/
def withIndex (g : ConcurrentGraph) (ix : HashMap String (HashSet NodeId)) : ConcurrentGraph :=
  { g with labelIndex := ix }

@[simp] lemma content_withIndex (g : ConcurrentGraph) (ix : HashMap String (HashSet NodeId)) :
    (g.withIndex ix).content = g.content := rfl

@[simp] lemma withIndex_nodes (g : ConcurrentGraph) (ix : HashMap String (HashSet NodeId)) :
    (g.withIndex ix).nodes = g.nodes := rfl

@[simp] lemma withIndex_edges (g : ConcurrentGraph) (ix : HashMap String (HashSet NodeId)) :
    (g.withIndex ix).edges = g.edges := rfl

/-- With the right label index the graph would be consistent. -/
def Linked (g : ConcurrentGraph) : Prop := ∃ ix, (g.withIndex ix).Consistent

lemma Consistent.linked {g : ConcurrentGraph} (hg : g.Consistent) : g.Linked := ⟨g.labelIndex, hg⟩

/-- A loop whose rounds do not look at the label index does not either. -/
lemma foldl_withIndex {ι : Type} {f : ConcurrentGraph → ι → ConcurrentGraph}
    (hf : ∀ g ix i, f (g.withIndex ix) i = (f g i).withIndex ix) (is : List ι) (g : ConcurrentGraph)
    (ix : HashMap String (HashSet NodeId)) :
    is.foldl f (g.withIndex ix) = (is.foldl f g).withIndex ix := by
  induction is generalizing g with
  | nil => rfl
  | cons i is ih => rw [List.foldl_cons, hf, ih, List.foldl_cons]

lemma dropOutgoing_withIndex (g : ConcurrentGraph) (ix : HashMap String (HashSet NodeId))
    (e : EdgeId) : (g.withIndex ix).dropOutgoing e = (g.dropOutgoing e).withIndex ix := by
  unfold dropOutgoing
  rw [withIndex_edges]
  cases g.edges.lookup e <;> rfl

lemma dropIncoming_withIndex (g : ConcurrentGraph) (ix : HashMap String (HashSet NodeId))
    (e : EdgeId) : (g.withIndex ix).dropIncoming e = (g.dropIncoming e).withIndex ix := by
  unfold dropIncoming
  rw [withIndex_edges]
  cases g.edges.lookup e <;> rfl

lemma deleteNode_withIndex (g : ConcurrentGraph) (ix : HashMap String (HashSet NodeId))
    (id : NodeId) : ∃ ix', ((g.withIndex ix).deleteNode id).1 = (g.deleteNode id).1.withIndex ix' := by
  have hout : ∀ (g : ConcurrentGraph) ix, (g.withIndex ix).takeOutgoing id =
      (g.takeOutgoing id).withIndex ix := fun g ix =>
    foldl_withIndex dropOutgoing_withIndex _ { g with outgoing := g.outgoing.erase id } ix
  have hin : ∀ (g : ConcurrentGraph) ix, (g.withIndex ix).takeIncoming id =
      (g.takeIncoming id).withIndex ix := fun g ix =>
    foldl_withIndex dropIncoming_withIndex _ { g with incoming := g.incoming.erase id } ix
  unfold deleteNode
  rw [withIndex_nodes]
  cases g.nodes.lookup id with
  | none => exact ⟨ix, rfl⟩
  | some n =>
    refine ⟨((g.withIndex ix).labelIndexRemove id n.labels).labelIndex, ?_⟩
    simp only
    rw [← hin, ← hout]
    rfl

/-- Deleting a node takes it out of the label index under the labels it has. -/
lemma labelIndex_deleteNode {g : ConcurrentGraph} {id : NodeId} {n : Node}
    (hn : g.nodes.lookup id = some n) :
    (g.deleteNode id).1.labelIndex = (g.labelIndexRemove id n.labels).labelIndex := by
  unfold deleteNode
  simp only [hn, takeIncoming, takeOutgoing]
  rw [(dropsIncoming_foldl _ _).labelIndex]
  change (List.foldl dropOutgoing _ _).labelIndex = _
  rw [(dropsOutgoing_foldl _ _).labelIndex]
  rfl

/-- Storing a node, over another one or not. -/
lemma Linked.createNodeWithIdAndLabels {g : ConcurrentGraph} (hg : g.Linked) (id : NodeId)
    (labels : List String) : (g.createNodeWithIdAndLabels id labels).1.Linked := by
  obtain ⟨ix, hix⟩ := hg
  set old : List String := ((g.nodes.lookup id).map Node.labels).getD [] with hold
  set g₁ := ((g.withIndex ix).labelIndexRemove id old).labelIndexAdd id labels with hg₁
  refine ⟨g₁.labelIndex, GraphHistory.consistent_storeNode hix (n := ⟨id, labels, ∅⟩) rfl rfl rfl
    (fun m => HashMap.getDefault_ensure _ _ _) (fun m => HashMap.getDefault_ensure _ _ _) fun l m => ?_⟩
  change m ∈ HashMap.getDefault g₁.labelIndex l ↔ _
  rw [hg₁, mem_labelIndexAdd, mem_labelIndexRemove]
  by_cases hm : m = id
  · subst hm
    have hlisted : m ∈ HashMap.getDefault (g.withIndex ix).labelIndex l → l ∈ old := by
      intro hmem
      obtain ⟨n, hn, hl⟩ := (hix.labelIndex l m).mp hmem
      have hn' : g.nodes.lookup m = some n := hn
      simpa [hold, hn'] using hl
    simp only [true_and, ne_eq, not_true, false_and, or_false]
    constructor
    · rintro (h | ⟨hnot, hmem⟩)
      · exact h
      · exact absurd (hlisted hmem) hnot
    · exact Or.inl
  · simp [hm]

lemma Linked.deleteNode {g : ConcurrentGraph} (hg : g.Linked) (id : NodeId) :
    (g.deleteNode id).1.Linked := by
  obtain ⟨ix, hix⟩ := hg
  obtain ⟨ix', h⟩ := g.deleteNode_withIndex ix id
  exact ⟨ix', h ▸ hix.deleteNode id⟩

lemma Linked.content_deleteNode {g : ConcurrentGraph} (hg : g.Linked) (id : NodeId) :
    (g.deleteNode id).1.content = g.content.deleteNode id := by
  obtain ⟨ix, hix⟩ := hg
  obtain ⟨ix', hix'⟩ := g.deleteNode_withIndex ix id
  have h := hix.content_deleteNode id
  rwa [hix'] at h

lemma Linked.addNodeLabel {g : ConcurrentGraph} (hg : g.Linked) (id : NodeId) {label : String}
    (hlabel : label ≠ "") : (g.addNodeLabel id label).Linked := by
  obtain ⟨ix, hix⟩ := hg
  have hcons := hix.addNodeLabel id hlabel
  unfold ConcurrentGraph.addNodeLabel at hcons ⊢
  rw [withIndex_nodes] at hcons
  cases hn : g.nodes.lookup id with
  | none => exact ⟨ix, hix⟩
  | some n =>
    simp only [hn] at hcons ⊢
    by_cases hhas : n.hasLabel label
    · rw [if_pos hhas]
      exact ⟨ix, hix⟩
    · rw [if_neg hhas] at hcons ⊢
      exact ⟨_, hcons⟩

lemma Linked.removeNodeLabel {g : ConcurrentGraph} (hg : g.Linked) (id : NodeId) (label : String) :
    (g.removeNodeLabel id label).Linked := by
  obtain ⟨ix, hix⟩ := hg
  have hcons := hix.removeNodeLabel id label
  unfold ConcurrentGraph.removeNodeLabel at hcons ⊢
  rw [withIndex_nodes] at hcons
  cases hn : g.nodes.lookup id with
  | none => exact ⟨ix, hix⟩
  | some n =>
    simp only [hn] at hcons ⊢
    by_cases hhas : n.hasLabel label
    · rw [if_pos hhas] at hcons ⊢
      exact ⟨_, hcons⟩
    · rw [if_neg hhas]
      exact ⟨ix, hix⟩

lemma Linked.deleteEdge {g : ConcurrentGraph} (hg : g.Linked) (id : EdgeId) :
    (g.deleteEdge id).1.Linked := by
  obtain ⟨ix, hix⟩ := hg
  have hcons := hix.deleteEdge id
  unfold ConcurrentGraph.deleteEdge at hcons ⊢
  rw [withIndex_edges] at hcons
  cases hc : g.edges.lookup id with
  | none => exact ⟨ix, hix⟩
  | some c =>
    simp only [hc] at hcons ⊢
    exact ⟨ix, hcons⟩

/-- Storing an edge under a chosen id, over another one with the same endpoints or not. -/
lemma Linked.createEdgeWithId {g : ConcurrentGraph} (hg : g.Linked) {id : EdgeId}
    {fromNode toNode : NodeId} {label : String}
    (hends : ∀ c, g.edges.lookup id = some c → c.fromNode = fromNode ∧ c.toNode = toNode) :
    (g.createEdgeWithId id fromNode toNode label).1.Linked := by
  unfold ConcurrentGraph.createEdgeWithId
  split
  · exact hg
  · next hfrom =>
    split
    · exact hg
    · next hto =>
      obtain ⟨ix, hix⟩ := hg
      refine ⟨ix, ?_⟩
      exact GraphHistory.consistent_insertEdge (hix.withCounters g.nextNodeId (advance g.nextEdgeId id))
        (not_not.mp hfrom) (not_not.mp hto) hends

lemma content_createEdgeWithId (g : ConcurrentGraph) (id : EdgeId) (fromNode toNode : NodeId)
    (label : String) :
    (g.createEdgeWithId id fromNode toNode label).1.content =
      (Op.createEdge id label fromNode toNode).apply g.content := by
  have happly : (Op.createEdge id label fromNode toNode).apply g.content =
      if fromNode ∈ g.nodes ∧ toNode ∈ g.nodes then
        g.content.putEdge id ⟨label, fromNode, toNode, fun _ => none⟩
      else g.content := by
    simp only [Op.apply, content_nodes_isSome]
  rw [happly, createEdgeWithId]
  by_cases hfrom : fromNode ∈ g.nodes
  · by_cases hto : toNode ∈ g.nodes
    · simp only [hfrom, hto, not_true, if_false, and_self, if_true]
      exact content_insertEdge _ _ _ _ _
    · simp [hfrom, hto]
  · simp [hfrom]

/-- Applying an entry does on the content what the entry stands for. -/
theorem Linked.apply {g : ConcurrentGraph} (hg : g.Linked) (J : JsonText) {x : WalEntryData}
    (hends : ∀ e a b l, x = .createEdge e a b l → ∀ c, g.edges.lookup e = some c →
      c.fromNode = a ∧ c.toNode = b) (hlabel : ∀ n l, x = .addLabel n l → l ≠ "") :
    (applyWalEntry J g x).Linked ∧ (applyWalEntry J g x).content = (x.op J).apply g.content := by
  cases x with
  | createNode nodeId labels =>
    exact ⟨hg.createNodeWithIdAndLabels nodeId labels, content_createNodeWithIdAndLabels g nodeId labels⟩
  | deleteNode nodeId => exact ⟨hg.deleteNode nodeId, hg.content_deleteNode nodeId⟩
  | createEdge edgeId fromNode toNode label =>
    exact ⟨hg.createEdgeWithId (hends edgeId fromNode toNode label rfl),
      content_createEdgeWithId g edgeId fromNode toNode label⟩
  | deleteEdge edgeId => exact ⟨hg.deleteEdge edgeId, content_deleteEdge g edgeId⟩
  | setProperty targetId isNode key value =>
    obtain ⟨ix, hix⟩ := hg
    cases isNode with
    | true =>
      exact ⟨⟨ix, hix.setNodeProperty targetId key _⟩, content_setNodeProperty g targetId key _⟩
    | false =>
      exact ⟨⟨ix, hix.setEdgeProperty targetId key _⟩, content_setEdgeProperty g targetId key _⟩
  | removeProperty targetId isNode key =>
    obtain ⟨ix, hix⟩ := hg
    cases isNode with
    | true =>
      exact ⟨⟨ix, hix.removeNodeProperty targetId key⟩, content_removeNodeProperty g targetId key⟩
    | false =>
      exact ⟨⟨ix, hix.removeEdgeProperty targetId key⟩, content_removeEdgeProperty g targetId key⟩
  | addLabel nodeId label =>
    have hne := hlabel nodeId label rfl
    exact ⟨hg.addNodeLabel nodeId hne, content_addNodeLabel g nodeId hne⟩
  | removeLabel nodeId label =>
    exact ⟨hg.removeNodeLabel nodeId label, content_removeNodeLabel g nodeId label⟩

/-! ## The label index of a replaying follower -/

lemma mem_labelsOf_content {g : ConcurrentGraph} {l : String} {n : NodeId} :
    l ∈ labelsOf (g.content.nodes n) ↔ ∃ d, g.nodes.lookup n = some d ∧ l ∈ d.labels := by
  simp only [labelsOf, content, Set.mem_ofPred_eq, Option.map_eq_some_iff]
  constructor
  · rintro ⟨_, ⟨d, hd, rfl⟩, hl⟩
    exact ⟨d, hd, hl⟩
  · rintro ⟨d, hd, hl⟩
    exact ⟨_, ⟨d, hd, rfl⟩, hl⟩

/-- The label index lists every node under its labels, and under no others than these and those it has
in the later state `P`. -/
structure IndexFollows (P : GraphContent) (g : ConcurrentGraph) : Prop where
  listed : ∀ l n, l ∈ labelsOf (g.content.nodes n) → n ∈ HashMap.getDefault g.labelIndex l
  justified : ∀ l n, n ∈ HashMap.getDefault g.labelIndex l →
    l ∈ labelsOf (g.content.nodes n) ∨ l ∈ labelsOf (P.nodes n)

lemma Consistent.indexFollows {g : ConcurrentGraph} (hg : g.Consistent) (P : GraphContent) :
    IndexFollows P g where
  listed l n h := (hg.labelIndex l n).mpr (mem_labelsOf_content.mp h)
  justified l n h := .inl (mem_labelsOf_content.mpr ((hg.labelIndex l n).mp h))

section IndexFollows

variable {P : GraphContent} {g g' : ConcurrentGraph}

/-- A linked graph whose index follows the graph itself is consistent. -/
lemma IndexFollows.consistent (h : IndexFollows g.content g) (hg : g.Linked) : g.Consistent := by
  obtain ⟨ix, hix⟩ := hg
  refine ⟨hix.node_id, hix.edge_id, hix.endpoints, hix.outgoing, hix.incoming, fun l n => ?_⟩
  rw [← mem_labelsOf_content]
  exact ⟨fun hn => (h.justified l n hn).elim id id, h.listed l n⟩

/-- Operations that touch neither the labels nor the index. -/
lemma IndexFollows.of_labels (h : IndexFollows P g) (hix : g'.labelIndex = g.labelIndex)
    (hlabels : ∀ n, labelsOf (g'.content.nodes n) = labelsOf (g.content.nodes n)) :
    IndexFollows P g' := by
  refine ⟨fun l n => ?_, fun l n => ?_⟩
  · rw [hix, hlabels]
    exact h.listed l n
  · rw [hix, hlabels]
    exact h.justified l n

lemma IndexFollows.createNodeWithIdAndLabels (h : IndexFollows P g) {id : NodeId} {labels : List String}
    (hold : ∀ l, l ∈ labelsOf (g.content.nodes id) → l ∈ labelsOf (P.nodes id)) :
    IndexFollows P (g.createNodeWithIdAndLabels id labels).1 := by
  have hmem : ∀ l n, l ∈ labelsOf ((g.createNodeWithIdAndLabels id labels).1.content.nodes n) ↔
      n = id ∧ l ∈ labels ∨ n ≠ id ∧ l ∈ labelsOf (g.content.nodes n) := by
    intro l n
    rw [content_createNodeWithIdAndLabels]
    by_cases hn : n = id
    · subst hn
      simp [PropertyGraph.putNode, labelsOf]
    · simp [PropertyGraph.putNode, hn]
  have hindex : ∀ l n, n ∈ HashMap.getDefault (g.createNodeWithIdAndLabels id labels).1.labelIndex l ↔
      n = id ∧ l ∈ labels ∨ n ∈ HashMap.getDefault g.labelIndex l :=
    fun l n => mem_labelIndexAdd _ _ _ l n
  refine ⟨fun l n hl => ?_, fun l n hn => ?_⟩
  · rw [hindex]
    rcases (hmem l n).mp hl with hnew | ⟨-, hl⟩
    · exact .inl hnew
    · exact .inr (h.listed l n hl)
  · rw [hmem]
    rcases (hindex l n).mp hn with hnew | hlisted
    · exact .inl (.inl hnew)
    · by_cases hid : n = id
      · subst hid
        exact .inr ((h.justified l n hlisted).elim (hold l) fun hP => hP)
      · exact (h.justified l n hlisted).imp_left fun hl => .inr ⟨hid, hl⟩

lemma IndexFollows.deleteNode (h : IndexFollows P g) (hg : g.Linked) (id : NodeId) :
    IndexFollows P (g.deleteNode id).1 := by
  cases hd : g.nodes.lookup id with
  | none =>
    have hsame : (g.deleteNode id).1 = g := by simp [ConcurrentGraph.deleteNode, hd]
    rwa [hsame]
  | some d =>
    have hmem : ∀ l n, l ∈ labelsOf ((g.deleteNode id).1.content.nodes n) ↔
        n ≠ id ∧ l ∈ labelsOf (g.content.nodes n) := by
      intro l n
      rw [hg.content_deleteNode]
      by_cases hn : n = id
      · simp [PropertyGraph.deleteNode, hn, labelsOf]
      · simp [PropertyGraph.deleteNode, hn]
    have hindex : ∀ l n, n ∈ HashMap.getDefault (g.deleteNode id).1.labelIndex l ↔
        ¬ (n = id ∧ l ∈ d.labels) ∧ n ∈ HashMap.getDefault g.labelIndex l := by
      intro l n
      rw [labelIndex_deleteNode hd, mem_labelIndexRemove]
    refine ⟨fun l n hl => ?_, fun l n hn => ?_⟩
    · obtain ⟨hne, hl⟩ := (hmem l n).mp hl
      exact (hindex l n).mpr ⟨fun hd => hne hd.1, h.listed l n hl⟩
    · rw [hmem]
      obtain ⟨hnot, hlisted⟩ := (hindex l n).mp hn
      by_cases hid : n = id
      · subst hid
        refine .inr ((h.justified l n hlisted).resolve_left fun hl => hnot ⟨rfl, ?_⟩)
        obtain ⟨d', hd', hl⟩ := mem_labelsOf_content.mp hl
        rw [hd] at hd'
        rwa [Option.some.inj hd']
      · exact (h.justified l n hlisted).imp_left fun hl => ⟨hid, hl⟩

lemma IndexFollows.addNodeLabel (h : IndexFollows P g) (id : NodeId) {label : String}
    (hlabel : label ≠ "") : IndexFollows P (g.addNodeLabel id label) := by
  have hcontent := content_addNodeLabel g id hlabel
  cases hd : g.nodes.lookup id with
  | none =>
    have hsame : g.addNodeLabel id label = g := by simp [ConcurrentGraph.addNodeLabel, hd]
    rwa [hsame]
  | some d =>
    have hdata : g.content.nodes id = some d.content := by simp [content, hd]
    have hmem : ∀ l n, l ∈ labelsOf ((g.addNodeLabel id label).content.nodes n) ↔
        n = id ∧ l = label ∨ l ∈ labelsOf (g.content.nodes n) := by
      intro l n
      rw [hcontent]
      by_cases hn : n = id
      · subst hn
        simp [PropertyGraph.addLabel, PropertyGraph.modifyNode, labelsOf, hdata]
      · simp [PropertyGraph.addLabel, PropertyGraph.modifyNode, hn]
    by_cases hhas : d.hasLabel label
    · have hsame : g.addNodeLabel id label = g := by simp [ConcurrentGraph.addNodeLabel, hd, hhas]
      rwa [hsame]
    · have hindex : ∀ l n, n ∈ HashMap.getDefault (g.addNodeLabel id label).labelIndex l ↔
          l = label ∧ n = id ∨ n ∈ HashMap.getDefault g.labelIndex l := by
        intro l n
        simp only [ConcurrentGraph.addNodeLabel, hd, hhas, if_false, Bool.false_eq_true]
        exact HashSet.mem_modifyDefault_add _ _ _ _ _
      refine ⟨fun l n hl => ?_, fun l n hn => ?_⟩
      · rw [hindex]
        rcases (hmem l n).mp hl with ⟨hn, hl⟩ | hl
        · exact .inl ⟨hl, hn⟩
        · exact .inr (h.listed l n hl)
      · rw [hmem]
        rcases (hindex l n).mp hn with ⟨hl, hn⟩ | hn
        · exact .inl (.inl ⟨hn, hl⟩)
        · exact (h.justified l n hn).imp_left .inr

lemma IndexFollows.removeNodeLabel (h : IndexFollows P g) (id : NodeId) (label : String) :
    IndexFollows P (g.removeNodeLabel id label) := by
  have hcontent := content_removeNodeLabel g id label
  cases hd : g.nodes.lookup id with
  | none =>
    have hsame : g.removeNodeLabel id label = g := by simp [ConcurrentGraph.removeNodeLabel, hd]
    rwa [hsame]
  | some d =>
    have hdata : g.content.nodes id = some d.content := by simp [content, hd]
    have hmem : ∀ l n, l ∈ labelsOf ((g.removeNodeLabel id label).content.nodes n) ↔
        ¬ (n = id ∧ l = label) ∧ l ∈ labelsOf (g.content.nodes n) := by
      intro l n
      rw [hcontent]
      by_cases hn : n = id
      · subst hn
        simp [PropertyGraph.removeLabel, PropertyGraph.modifyNode, labelsOf, hdata, and_comm]
      · simp [PropertyGraph.removeLabel, PropertyGraph.modifyNode, hn]
    by_cases hhas : d.hasLabel label
    · have hindex : ∀ l n, n ∈ HashMap.getDefault (g.removeNodeLabel id label).labelIndex l ↔
          ¬ (l = label ∧ n = id) ∧ n ∈ HashMap.getDefault g.labelIndex l := by
        intro l n
        simp only [ConcurrentGraph.removeNodeLabel, hd, hhas, if_true]
        exact HashSet.mem_modify_remove _ _ _ _ _
      refine ⟨fun l n hl => ?_, fun l n hn => ?_⟩
      · obtain ⟨hnot, hl⟩ := (hmem l n).mp hl
        exact (hindex l n).mpr ⟨fun h' => hnot ⟨h'.2, h'.1⟩, h.listed l n hl⟩
      · rw [hmem]
        obtain ⟨hnot, hn⟩ := (hindex l n).mp hn
        exact (h.justified l n hn).imp_left fun hl => ⟨fun h' => hnot ⟨h'.2, h'.1⟩, hl⟩
    · have hsame : g.removeNodeLabel id label = g := by
        simp [ConcurrentGraph.removeNodeLabel, hd, hhas]
      rwa [hsame]

end IndexFollows

/-! ## The replay -/

/-- The follower has the state `R` when the log has come to the content `O` and started from a snapshot
of the content `P`. -/
structure Follows (ends : EdgeId → NodeId × NodeId) (O P : GraphContent) (R : ConcurrentGraph) : Prop where
  linked : R.Linked
  overlap : Overlap O R.content P
  index : IndexFollows P R
  ends : EdgesJoin ends R.content

section Follows

variable {J : JsonText} {ends : EdgeId → NodeId × NodeId} {O P G : GraphContent} {R : ConcurrentGraph}

/-- When the log has come to the snapshot, the follower is where the leader is. -/
lemma Follows.eq (h : Follows ends P P R) : R.Consistent ∧ R.content = P := by
  have heq := h.overlap.eq
  exact ⟨IndexFollows.consistent (heq ▸ h.index) h.linked, heq⟩

lemma labelsOf_setProperty (R : ConcurrentGraph) (id : NodeId) (k : String) (v : Option PropertyValue)
    (n : NodeId) :
    labelsOf ((R.content.setNodeProp id k v).nodes n) = labelsOf (R.content.nodes n) := by
  by_cases hn : n = id
  · subst hn
    cases h : R.content.nodes n with
    | none => simp [PropertyGraph.setNodeProp, PropertyGraph.modifyNode, labelsOf, h]
    | some d => simp [PropertyGraph.setNodeProp, PropertyGraph.modifyNode, labelsOf, h]
  · simp [PropertyGraph.setNodeProp, PropertyGraph.modifyNode, hn]

/-- The label index of the follower after an entry. -/
lemma Follows.index_apply (h : Follows ends O P R) {x : WalEntryData} (hx : x.Sound J ends O)
    (hcontent : (applyWalEntry J R x).content = (x.op J).apply R.content) :
    IndexFollows P (applyWalEntry J R x) := by
  cases x with
  | createNode nodeId labels =>
    refine h.index.createNodeWithIdAndLabels fun l hl => ?_
    -- the id was unused when the entry was logged
    have hunused : O.nodes nodeId = none := hx.recorded
    rcases (h.overlap.nodes nodeId).labels l with hnow | hlater
    · have hO := hnow.mp hl
      simp [labelsOf, hunused] at hO
    · exact hlater.mp hl
  | deleteNode nodeId => exact h.index.deleteNode h.linked nodeId
  | createEdge edgeId fromNode toNode label =>
    refine h.index.of_labels ?_ fun n => ?_
    · simp only [applyWalEntry, createEdgeWithId]
      split
      · rfl
      · split <;> rfl
    · rw [hcontent]
      simp only [WalEntryData.op, Op.apply]
      split <;> rfl
  | deleteEdge edgeId =>
    refine h.index.of_labels ?_ fun n => ?_
    · simp only [applyWalEntry, ConcurrentGraph.deleteEdge]
      cases R.edges.lookup edgeId <;> rfl
    · rw [hcontent]
      rfl
  | setProperty targetId isNode key value =>
    cases isNode with
    | true =>
      refine h.index.of_labels rfl fun n => ?_
      rw [hcontent]
      exact labelsOf_setProperty R targetId key _ n
    | false => exact h.index.of_labels rfl fun n => by rw [hcontent]; rfl
  | removeProperty targetId isNode key =>
    cases isNode with
    | true =>
      refine h.index.of_labels rfl fun n => ?_
      rw [hcontent]
      exact labelsOf_setProperty R targetId key _ n
    | false => exact h.index.of_labels rfl fun n => by rw [hcontent]; rfl
  | addLabel nodeId label => exact h.index.addNodeLabel nodeId (hx.label nodeId label rfl)
  | removeLabel nodeId label => exact h.index.removeNodeLabel nodeId label

/-- One entry of the log. -/
theorem Follows.step (h : Follows ends O P R) (hP : P.Closed) {x : WalEntryData}
    (hx : x.Sound J ends O) : Follows ends ((x.op J).apply O) P (applyWalEntry J R x) := by
  have hends : ∀ e a b l, x = .createEdge e a b l → ∀ c, R.edges.lookup e = some c →
      c.fromNode = a ∧ c.toNode = b := by
    intro e a b l hxe c hc
    have hold := h.ends e c.content (by simp [content, hc])
    rw [← hx.endpoints e a b l hxe] at hold
    exact Prod.mk.inj hold
  obtain ⟨hlinked, hcontent⟩ := h.linked.apply J hends hx.label
  refine ⟨hlinked, ?_, h.index_apply hx hcontent, ?_⟩
  · rw [hcontent]
    exact h.overlap.step hP hx.recorded
  · rw [hcontent]
    exact h.ends.apply fun e label src dst => hx.joins

/-- A whole log. -/
theorem Follows.run (h : Follows ends O P R) (hP : P.Closed) {log : List WalEntryData}
    (hlog : SoundLog J ends O log) :
    Follows ends (replayContent J O log) P (log.foldl (applyWalEntry J) R) := by
  induction log generalizing O R with
  | nil => exact h
  | cons x log ih => exact ih (h.step hP hlog.1) hlog.2

/-- The follower of a log that overlaps with its snapshot ends where the log ends: it loaded a snapshot
of the state after the entries `before` and `again`, and is sent the entries `again` and `after`. -/
theorem Consistent.replay (hR : R.Consistent) {before again after : List WalEntryData}
    (hjoin : EdgesJoin ends G) (hsnapshot : R.content = replayContent J G (before ++ again))
    (hlog : SoundLog J ends G (before ++ again ++ after))
    (hend : (replayContent J G (before ++ again ++ after)).Closed) :
    ((again ++ after).foldl (applyWalEntry J) R).Consistent ∧
      ((again ++ after).foldl (applyWalEntry J) R).content =
        replayContent J G (before ++ again ++ after) := by
  obtain ⟨hsnap, hafter⟩ := soundLog_append.mp hlog
  obtain ⟨hbefore, hagain⟩ := soundLog_append.mp hsnap
  have hjoins : EdgesJoin ends R.content := hsnapshot ▸ hsnap.edgesJoin hjoin
  -- the entries that are in the snapshot already
  have hstart : Follows ends (replayContent J G before) R.content R :=
    ⟨hR.linked, .later _ _, hR.indexFollows _, hjoins⟩
  have hcaught := hstart.run hR.closed hagain
  rw [← replayContent_append, ← hsnapshot] at hcaught
  obtain ⟨hcons, hcontent⟩ := hcaught.eq
  -- the entries that are new
  rw [← hsnapshot] at hafter
  rw [List.foldl_append, replayContent_append, ← hsnapshot]
  rw [replayContent_append, ← hsnapshot] at hend
  set R' := again.foldl (applyWalEntry J) R
  have hrest : Follows ends R.content (replayContent J R.content after) R' :=
    ⟨hcons.linked, hcontent ▸ .now _ _, hcons.indexFollows _, hcontent ▸ hjoins⟩
  exact (hrest.run hend hafter).eq

end Follows

end ConcurrentGraph

end Maharit
