import MaharitDb.Core.GraphContent
import MaharitDb.Server.SnapshotReplay

/-!
# A follower that starts from a snapshot

The leader logs its calls, a snapshot of its state is loaded into an empty follower, and the follower
applies the log from an earlier position on.  `snapshot_replay_converges` says that it ends with the
state of the leader: the entries of the log are sound (`SoundLog`), loading a snapshot gives the content
it was taken of, and the replay over it is `ConcurrentGraph.Consistent.replay`.
-/

namespace Maharit

open UndoLog GuardedRun PropertyGraph

/-! ## The log of the leader -/

/-- What the callers of the leader respect: new elements get unused ids, values survive the log, and
no empty label is attached. -/
def WriteCall.Logs (J : JsonText) (g : ConcurrentGraph) (c : WriteCall) : Prop :=
  c.StoresUnderFreshId g ∧ c.Replicates J g ∧ ∀ id label, c = .addNodeLabel id label → label ≠ ""

/-- An id of an edge stands for one pair of endpoints, whenever an edge is stored under it. -/
def EndpointsKept (log : List WalEntryData) : Prop :=
  ∀ e a b l a' b' l', .createEdge e a b l ∈ log → .createEdge e a' b' l' ∈ log → (a, b) = (a', b')

lemma EndpointsKept.exists_ends {log : List WalEntryData} (h : EndpointsKept log) :
    ∃ ends : EdgeId → NodeId × NodeId, ∀ e a b l, .createEdge e a b l ∈ log → (a, b) = ends e := by
  have hchoice : ∀ e, ∃ ab : NodeId × NodeId, ∀ a b l, .createEdge e a b l ∈ log → (a, b) = ab := by
    intro e
    by_cases hstored : ∃ a b l, .createEdge e a b l ∈ log
    · obtain ⟨a, b, l, hmem⟩ := hstored
      exact ⟨(a, b), fun a' b' l' hmem' => h e a' b' l' a b l hmem' hmem⟩
    · exact ⟨(0, 0), fun a b l hmem => absurd ⟨a, b, l, hmem⟩ hstored⟩
  choose ends hjoin using hchoice
  exact ⟨ends, hjoin⟩

/-- The graph of the leader when its log has come to the given length. -/
def leaderAfter (J : JsonText) : ConcurrentGraph → List WriteCall → ℕ → ConcurrentGraph
  | g, [], _ => g
  | g, c :: calls, p =>
      let logged := (RecordingGraph.walEntries J g c).length
      if logged ≤ p then leaderAfter J (c.apply g) calls (p - logged) else g

namespace RecordingGraph

variable {J : JsonText} {ends : EdgeId → NodeId × NodeId} {g : ConcurrentGraph}

/-- A call logs one entry at most. -/
lemma length_walEntries_le (J : JsonText) (g : ConcurrentGraph) (c : WriteCall) :
    (walEntries J g c).length ≤ 1 := by
  have hif : ∀ (b : Prop) [Decidable b] (x : WalEntryData), (if b then [x] else []).length ≤ 1 := by
    intro b _ x
    split <;> simp
  cases c <;> first | exact hif _ _ | exact le_rfl

/-- The leader has a state for every length of its log. -/
lemma exists_leaderAfter (J : JsonText) (g : ConcurrentGraph) (calls : List WriteCall) {p : ℕ}
    (hp : p ≤ (runRecords WriteCall.apply (walEntries J) g calls).length) :
    ∃ pre rest, calls = pre ++ rest ∧ leaderAfter J g calls p = WriteCall.run g pre ∧
      (runRecords WriteCall.apply (walEntries J) g pre).length = p := by
  induction calls generalizing g p with
  | nil =>
    have hzero : p = 0 := by simpa [runRecords] using hp
    exact ⟨[], [], rfl, rfl, by simp [runRecords, hzero]⟩
  | cons c calls ih =>
    rw [runRecords, List.length_append] at hp
    by_cases hlogged : (walEntries J g c).length ≤ p
    · obtain ⟨pre, rest, rfl, hstate, hlen⟩ :=
        ih (c.apply g) (p := p - (walEntries J g c).length) (by omega)
      refine ⟨c :: pre, rest, rfl, ?_, ?_⟩
      · simp only [leaderAfter, if_pos hlogged, hstate, WriteCall.run_cons]
      · rw [runRecords, List.length_append, hlen]
        omega
    · have hone := length_walEntries_le J g c
      refine ⟨[], c :: calls, rfl, ?_, ?_⟩
      · simp only [leaderAfter, if_neg hlogged, WriteCall.run_nil]
      · rw [runRecords, List.length_nil]
        omega

/-- The entry of a call is sound in the state of the leader. -/
lemma sound_walEntries (hJ : J.Faithful) {c : WriteCall} (hc : c.Logs J g)
    (hends : ∀ e a b l, .createEdge e a b l ∈ walEntries J g c → (a, b) = ends e) {x : WalEntryData}
    (hx : x ∈ walEntries J g c) : x.Sound J ends g.content := by
  obtain ⟨hfresh, hsurvives, hlabel⟩ := hc
  have hread : ∀ {P : Prop} {v : PropertyValue}, (P → SurvivesWal J v) →
      P → SurvivesWal J (walStringToPropertyValue J (propertyValueToWalString J v)) := by
    intro P v hv hP
    rw [(walStringToPropertyValue_eq_iff hJ v).mpr (hv hP)]
    exact hv hP
  have hjoin : ∀ e a b l, x = .createEdge e a b l → (a, b) = ends e :=
    fun e a b l h => hends e a b l (h ▸ hx)
  cases c with
  | createNodeWithLabels labels =>
    simp only [walEntries, List.mem_singleton] at hx
    subst hx
    exact ⟨ConcurrentGraph.content_nodes_eq_none hfresh, hjoin, by simp, trivial⟩
  | createEdge fromNode toNode label =>
    simp only [walEntries, List.mem_ite_nil_right, List.mem_singleton] at hx
    obtain ⟨⟨hfrom, hto⟩, rfl⟩ := hx
    refine ⟨⟨ConcurrentGraph.content_edges_eq_none (hfresh hfrom hto), ?_, ?_⟩, hjoin, by simp, trivial⟩
    · exact ConcurrentGraph.content_nodes_isSome.mpr hfrom
    · exact ConcurrentGraph.content_nodes_isSome.mpr hto
  | deleteNode id =>
    simp only [walEntries, List.mem_ite_nil_right, List.mem_singleton] at hx
    obtain ⟨-, rfl⟩ := hx
    exact ⟨trivial, hjoin, by simp, trivial⟩
  | deleteEdge id =>
    simp only [walEntries, List.mem_ite_nil_right, List.mem_singleton] at hx
    obtain ⟨-, rfl⟩ := hx
    exact ⟨trivial, hjoin, by simp, trivial⟩
  | setNodeProperty id key value =>
    simp only [walEntries, List.mem_singleton] at hx
    subst hx
    refine ⟨trivial, hjoin, by simp, ?_⟩
    exact hread fun hlive => hsurvives (ConcurrentGraph.content_nodes_isSome.mp hlive)
  | removeNodeProperty id key =>
    simp only [walEntries, List.mem_ite_nil_right, List.mem_singleton] at hx
    obtain ⟨-, rfl⟩ := hx
    exact ⟨trivial, hjoin, by simp, trivial⟩
  | addNodeLabel id label =>
    simp only [walEntries, List.mem_ite_nil_right, List.mem_singleton] at hx
    obtain ⟨hwith, rfl⟩ := hx
    refine ⟨?_, hjoin, ?_, trivial⟩
    · refine ConcurrentGraph.content_nodes_isSome.mpr ?_
      by_contra hid
      rw [withNode, AList.lookup_eq_none.mpr hid] at hwith
      cases hwith
    · rintro n l ⟨⟩
      exact hlabel id label rfl
  | removeNodeLabel id label =>
    simp only [walEntries, List.mem_ite_nil_right, List.mem_singleton] at hx
    obtain ⟨-, rfl⟩ := hx
    exact ⟨trivial, hjoin, by simp, trivial⟩
  | setEdgeProperty id key value =>
    simp only [walEntries, List.mem_singleton] at hx
    subst hx
    refine ⟨trivial, hjoin, by simp, ?_⟩
    exact hread fun hlive => hsurvives (ConcurrentGraph.content_edges_isSome.mp hlive)
  | removeEdgeProperty id key =>
    simp only [walEntries, List.mem_ite_nil_right, List.mem_singleton] at hx
    obtain ⟨-, rfl⟩ := hx
    exact ⟨trivial, hjoin, by simp, trivial⟩
  | restoreNode id labels =>
    simp only [walEntries, List.mem_singleton] at hx
    subst hx
    exact ⟨ConcurrentGraph.content_nodes_eq_none hfresh, hjoin, by simp, trivial⟩
  | restoreEdge id fromNode toNode label =>
    simp only [walEntries, List.mem_ite_nil_right, List.mem_singleton] at hx
    obtain ⟨⟨hfrom, hto⟩, rfl⟩ := hx
    refine ⟨⟨ConcurrentGraph.content_edges_eq_none hfresh, ?_, ?_⟩, hjoin, by simp, trivial⟩
    · exact ConcurrentGraph.content_nodes_isSome.mpr hfrom
    · exact ConcurrentGraph.content_nodes_isSome.mpr hto

/-- The entries of a call, in the state of the leader. -/
lemma soundLog_walEntries (hJ : J.Faithful) {c : WriteCall} (hc : c.Logs J g)
    (hends : ∀ e a b l, .createEdge e a b l ∈ walEntries J g c → (a, b) = ends e) :
    SoundLog J ends g.content (walEntries J g c) := by
  have hsound := fun x => sound_walEntries (x := x) hJ hc hends
  match hentries : walEntries J g c, length_walEntries_le J g c with
  | [], _ => trivial
  | [x], _ => exact ⟨hsound x (by simp [hentries]), trivial⟩

/-- The entries of a call do on the content what the call does. -/
lemma replayContent_walEntries (hJ : J.Faithful) (hg : g.Consistent) (hlive : g.AdjacencyLive)
    {c : WriteCall} (hc : c.Logs J g)
    (hends : ∀ e a b l, .createEdge e a b l ∈ walEntries J g c → (a, b) = ends e) :
    replayContent J g.content (walEntries J g c) = (c.apply g).content := by
  obtain ⟨a, b, hfollower⟩ := applyWalEntry_walEntries hJ hlive g.nextNodeId g.nextEdgeId hc.2.1
  have hsame : g.withCounters g.nextNodeId g.nextEdgeId = g := rfl
  rw [hsame] at hfollower
  have hcontent := congrArg ConcurrentGraph.content hfollower
  change _ = (c.apply g).content at hcontent
  rw [← hcontent]
  have hsound := fun x => sound_walEntries (x := x) hJ hc hends
  match hentries : walEntries J g c, length_walEntries_le J g c with
  | [], _ => rfl
  | [x], _ =>
    have hx := hsound x (by simp [hentries])
    refine (hg.linked.apply J (x := x) ?_ hx.label).2.symm
    -- a new edge has an unused id
    rintro e a b l rfl d hd
    have hunused : g.content.edges e = none := hx.recorded.1
    simp [ConcurrentGraph.content, hd] at hunused

lemma consistent_apply (hg : g.Consistent) {c : WriteCall} (hc : c.Logs J g) :
    (c.apply g).Consistent := by
  obtain ⟨hfresh, -, hlabel⟩ := hc
  cases c with
  | addNodeLabel id label => exact hg.addNodeLabel id (hlabel id label rfl)
  | removeNodeLabel id label => exact hg.removeNodeLabel id label
  | _ => exact hg.apply trivial hfresh

/-- The log of a run is sound, and it leads to the content of the leader. -/
theorem soundLog_run (hJ : J.Faithful) (hg : g.Consistent) (hlive : g.AdjacencyLive)
    {calls : List WriteCall} (hcalls : Along WriteCall.apply (fun g c => c.Logs J g) g calls)
    (hends : ∀ e a b l, .createEdge e a b l ∈ runRecords WriteCall.apply (walEntries J) g calls →
      (a, b) = ends e) :
    SoundLog J ends g.content (runRecords WriteCall.apply (walEntries J) g calls) ∧
      replayContent J g.content (runRecords WriteCall.apply (walEntries J) g calls) =
        (WriteCall.run g calls).content ∧
      (WriteCall.run g calls).Consistent := by
  induction calls generalizing g with
  | nil => exact ⟨trivial, rfl, hg⟩
  | cons c calls ih =>
    have hcall : ∀ e a b l, .createEdge e a b l ∈ walEntries J g c → (a, b) = ends e :=
      fun e a b l h => hends e a b l (List.mem_append_left _ h)
    have hcontent := replayContent_walEntries hJ hg hlive hcalls.1 hcall
    obtain ⟨hsound, hend, hcons⟩ := ih (consistent_apply hg hcalls.1) (hlive.apply c) hcalls.2
      fun e a b l h => hends e a b l (List.mem_append_right _ h)
    rw [← hcontent] at hsound hend
    refine ⟨soundLog_append.mpr ⟨soundLog_walEntries hJ hcalls.1 hcall, hsound⟩, ?_, hcons⟩
    rw [runRecords, replayContent_append]
    exact hend

end RecordingGraph

/-! ## Loading a snapshot -/

namespace ConcurrentGraph

variable {J : JsonText} {g : ConcurrentGraph}

/-- Properties that survive the log arrive as they are. -/
lemma foldl_setProperty (hJ : J.Faithful) (id : UInt64) (isNode : Bool)
    {entries : List (Sigma fun _ : String => PropertyValue)}
    (hsurvive : ∀ p ∈ entries, SurvivesWal J p.2) (g : ConcurrentGraph) :
    (entries.map fun p => WalEntryData.setProperty id isNode p.1
        (propertyValueToWalString J p.2)).foldl (applyWalEntry J) g =
      entries.foldl (fun g p => if isNode then g.setNodeProperty id p.1 p.2
        else g.setEdgeProperty id p.1 p.2) g := by
  induction entries generalizing g with
  | nil => rfl
  | cons p entries ih =>
    have hread := (walStringToPropertyValue_eq_iff hJ p.2).mpr (hsurvive p List.mem_cons_self)
    rw [List.map_cons, List.foldl_cons, List.foldl_cons,
      ih fun p hp => hsurvive p (List.mem_cons_of_mem _ hp)]
    simp only [applyWalEntry, hread]

/-- A node of a snapshot is stored as a rollback stores it. -/
lemma foldl_nodeSnapshot (hJ : J.Faithful) {n : Node}
    (hn : ∀ p ∈ n.properties.entries, SurvivesWal J p.2) (g : ConcurrentGraph) :
    (nodeSnapshot J n).foldl (applyWalEntry J) g =
      UndoRecord.undo g (.deleteNode n.id n.labels n.properties) := by
  rw [nodeSnapshot, List.foldl_cons, foldl_setProperty hJ n.id true hn]
  rfl

/-- An edge of a snapshot is stored as a rollback stores it. -/
lemma foldl_edgeSnapshot (hJ : J.Faithful) {e : Edge}
    (he : ∀ p ∈ e.properties.entries, SurvivesWal J p.2) {g : ConcurrentGraph}
    (hfrom : e.fromNode ∈ g.nodes) (hto : e.toNode ∈ g.nodes) :
    (edgeSnapshot J e).foldl (applyWalEntry J) g =
      UndoRecord.undo g (RecordingGraph.deleteEdgeRecord e) := by
  rw [edgeSnapshot, List.foldl_cons, foldl_setProperty hJ e.id false he]
  simp [RecordingGraph.deleteEdgeRecord, UndoRecord.undo, GraphBackend.restoreEdge, applyWalEntry,
    createEdgeWithId, hfrom, hto, Except.map]
  rfl

/-- Loading the nodes of a snapshot into a graph that has none of their ids. -/
lemma Consistent.loadNodes (hJ : J.Faithful) (hg : g.Consistent) {ns : List Node}
    (hnodup : (ns.map Node.id).Nodup) (hnew : ∀ n ∈ ns, n.id ∉ g.nodes)
    (hsurvive : ∀ n ∈ ns, ∀ p ∈ n.properties.entries, SurvivesWal J p.2) :
    ((ns.flatMap (nodeSnapshot J)).foldl (applyWalEntry J) g).Consistent ∧
      ((ns.flatMap (nodeSnapshot J)).foldl (applyWalEntry J) g).content =
        ns.foldl (fun G n => G.putNode n.id n.content) g.content := by
  induction ns generalizing g with
  | nil => exact ⟨hg, rfl⟩
  | cons n ns ih =>
    rw [List.map_cons, List.nodup_cons] at hnodup
    obtain ⟨hcons, hcontent⟩ := undo_deleteNode hg (hnew n List.mem_cons_self) n
    rw [← foldl_nodeSnapshot hJ (hsurvive n List.mem_cons_self)] at hcons hcontent
    rw [List.flatMap_cons, List.foldl_append, List.foldl_cons, ← hcontent]
    refine ih hcons hnodup.2 (fun m hm => ?_) fun m hm => hsurvive m (List.mem_cons_of_mem _ hm)
    rw [← content_nodes_isSome, hcontent]
    have hne : m.id ≠ n.id := fun h => hnodup.1 (h ▸ List.mem_map_of_mem hm)
    have hold := content_nodes_eq_none (hnew m (List.mem_cons_of_mem _ hm))
    simp [PropertyGraph.putNode, hne, hold]

/-- Loading an edge keeps the nodes. -/
lemma nodes_foldl_edgeSnapshot (J : JsonText) (g : ConcurrentGraph) (e : Edge) :
    ((edgeSnapshot J e).foldl (applyWalEntry J) g).nodes = g.nodes := by
  have hprops : ∀ (entries : List (Sigma fun _ : String => PropertyValue)) (g : ConcurrentGraph),
      ((entries.map fun p => WalEntryData.setProperty e.id false p.1
        (propertyValueToWalString J p.2)).foldl (applyWalEntry J) g).nodes = g.nodes := by
    intro entries
    induction entries with
    | nil => exact fun _ => rfl
    | cons p entries ih => exact fun g => ih (applyWalEntry J g _)
  rw [edgeSnapshot, List.foldl_cons, hprops]
  simp only [applyWalEntry, createEdgeWithId]
  split
  · rfl
  · split <;> rfl

/-- Loading the edges of a snapshot into a graph that has their endpoints. -/
lemma Consistent.loadEdges (hJ : J.Faithful) (hg : g.Consistent) {es : List Edge}
    (hnodup : (es.map Edge.id).Nodup) (hnew : ∀ e ∈ es, e.id ∉ g.edges)
    (hends : ∀ e ∈ es, e.fromNode ∈ g.nodes ∧ e.toNode ∈ g.nodes)
    (hsurvive : ∀ e ∈ es, ∀ p ∈ e.properties.entries, SurvivesWal J p.2) :
    ((es.flatMap (edgeSnapshot J)).foldl (applyWalEntry J) g).Consistent ∧
      ((es.flatMap (edgeSnapshot J)).foldl (applyWalEntry J) g).content =
        g.content.putEdges (es.map fun e => (e.id, e.content)) := by
  have hload : (es.flatMap (edgeSnapshot J)).foldl (applyWalEntry J) g =
      (es.map RecordingGraph.deleteEdgeRecord).foldl UndoRecord.undo g := by
    clear hnodup hnew hg
    induction es generalizing g with
    | nil => rfl
    | cons e es ih =>
      obtain ⟨hfrom, hto⟩ := hends e List.mem_cons_self
      rw [List.flatMap_cons, List.foldl_append, List.map_cons, List.foldl_cons,
        ← foldl_edgeSnapshot hJ (hsurvive e List.mem_cons_self) hfrom hto]
      refine ih ?_ fun e he => hsurvive e (List.mem_cons_of_mem _ he)
      rw [nodes_foldl_edgeSnapshot]
      exact fun e he => hends e (List.mem_cons_of_mem _ he)
  rw [hload]
  exact foldl_undo_deleteEdge hg es hnodup hnew hends

end ConcurrentGraph

/-- The contents of the nodes after loading them. -/
lemma foldl_putNode {ns : List Node} (hnodup : (ns.map Node.id).Nodup) (G : GraphContent) :
    (ns.foldl (fun G n => G.putNode n.id n.content) G).edges = G.edges ∧
      (∀ n ∈ ns, (ns.foldl (fun G n => G.putNode n.id n.content) G).nodes n.id = some n.content) ∧
      ∀ id, id ∉ ns.map Node.id →
        (ns.foldl (fun G n => G.putNode n.id n.content) G).nodes id = G.nodes id := by
  induction ns generalizing G with
  | nil => exact ⟨rfl, by simp, fun _ _ => rfl⟩
  | cons n ns ih =>
    rw [List.map_cons, List.nodup_cons] at hnodup
    obtain ⟨hedges, hin, hout⟩ := ih hnodup.2 (G.putNode n.id n.content)
    rw [List.foldl_cons]
    refine ⟨hedges, fun m hm => ?_, fun id hid => ?_⟩
    · rcases List.mem_cons.mp hm with rfl | hm
      · rw [hout _ hnodup.1]
        simp [PropertyGraph.putNode]
      · exact hin m hm
    · rw [List.map_cons, List.mem_cons, not_or] at hid
      rw [hout id hid.2]
      simp [PropertyGraph.putNode, hid.1]

namespace Graph

variable {J : JsonText} {g : Graph}

lemma Inv.mem_nodes (hg : g.Inv) (n : Node) : n ∈ g.nodes.filterMap id ↔ g.getNode n.id = some n :=
  mem_slots hg.fits.nodes_lt hg.node_id n

lemma Inv.mem_edges (hg : g.Inv) (e : Edge) : e ∈ g.edges.filterMap id ↔ g.getEdge e.id = some e :=
  mem_slots hg.fits.edges_lt hg.valid.edge_id e

lemma Inv.content_node (hg : g.Inv) {n : Node} (hn : n ∈ g.nodes.filterMap id) :
    g.content.nodes n.id = some n.content := by
  simp [content, (hg.mem_nodes n).mp hn]

lemma Inv.content_edge (hg : g.Inv) {e : Edge} (he : e ∈ g.edges.filterMap id) :
    g.content.edges e.id = some e.content := by
  simp [content, (hg.mem_edges e).mp he]

/-- The nodes of a snapshot in an empty follower. -/
lemma Inv.loadNodes (hJ : J.Faithful) (hg : g.Inv) (hvalues : AllValues (SurvivesWal J) g.content) :
    let g₁ := ((g.nodes.filterMap id).flatMap (nodeSnapshot J)).foldl (applyWalEntry J) .new
    g₁.Consistent ∧ g₁.content.nodes = g.content.nodes ∧ ∀ e, g₁.content.edges e = none := by
  have hnodup := nodup_slots hg.fits.nodes_lt hg.node_id
  obtain ⟨hcons, hcontent⟩ := ConcurrentGraph.consistent_new.loadNodes hJ hnodup
    (fun n _ => by simp [ConcurrentGraph.new]) fun n hn p hp =>
      hvalues.nodes n.id _ p.1 p.2 (hg.content_node hn) (AList.mem_lookup_iff.mpr hp)
  obtain ⟨hedges, hin, hout⟩ := foldl_putNode hnodup ConcurrentGraph.new.content
  rw [← hcontent] at hedges hin hout
  refine ⟨hcons, funext fun id => ?_, fun e => ?_⟩
  · cases hslot : g.getNode id with
    | none =>
      have hdead : id ∉ (g.nodes.filterMap fun x => x).map Node.id := by
        intro hmem
        obtain ⟨n, hn, rfl⟩ := List.mem_map.mp hmem
        rw [(hg.mem_nodes n).mp hn] at hslot
        cases hslot
      rw [hout id hdead]
      simp [content, hslot, ConcurrentGraph.content, ConcurrentGraph.new]
    | some n =>
      have hid : n.id = id := hg.node_id id n hslot
      subst hid
      have hn := (hg.mem_nodes n).mpr hslot
      rw [hin n hn, hg.content_node hn]
  · rw [hedges]
    simp [ConcurrentGraph.content, ConcurrentGraph.new]

/-- The state of a follower that loaded the snapshot of a graph is that of the graph. -/
theorem Inv.loadSnapshot (hJ : J.Faithful) (hg : g.Inv) (hvalues : AllValues (SurvivesWal J) g.content) :
    ((graphToSnapshotEntries J g).foldl (applyWalEntry J) .new).Consistent ∧
      ((graphToSnapshotEntries J g).foldl (applyWalEntry J) .new).content = g.content := by
  obtain ⟨hcons, hnodes, hempty⟩ := hg.loadNodes hJ hvalues
  rw [graphToSnapshotEntries, snapshotEntries, List.foldl_append]
  set g₁ := ((g.nodes.filterMap id).flatMap (nodeSnapshot J)).foldl (applyWalEntry J) .new
  obtain ⟨hcons', hcontent⟩ := hcons.loadEdges hJ (nodup_slots hg.fits.edges_lt hg.valid.edge_id)
    (fun e _ he => by
      have hsome := ConcurrentGraph.content_edges_isSome.mpr he
      rw [hempty] at hsome
      cases hsome)
    (fun e he => by
      rw [← ConcurrentGraph.content_nodes_isSome, ← ConcurrentGraph.content_nodes_isSome, hnodes]
      exact hg.valid.closed e.id _ (hg.content_edge he))
    fun e he p hp =>
      hvalues.edges e.id _ p.1 p.2 (hg.content_edge he) (AList.mem_lookup_iff.mpr hp)
  refine ⟨hcons', hcontent.trans (PropertyGraph.ext ?_ ?_)⟩
  · rw [PropertyGraph.putEdges_nodes, hnodes]
  · funext id
    cases hslot : g.getEdge id with
    | none =>
      rw [PropertyGraph.putEdges_edges_of_notMem, hempty]
      · simp [content, hslot]
      · intro p hp
        obtain ⟨e, he, rfl⟩ := List.mem_map.mp hp
        rintro rfl
        have hlive : g.getEdge e.id = some e := (hg.mem_edges e).mp he
        exact absurd (hlive.symm.trans hslot) (Option.some_ne_none e)
    | some e =>
      have hid : e.id = id := hg.valid.edge_id id e hslot
      subst hid
      refine PropertyGraph.putEdges_edges_of_mem _ g.content _ ?_ _
        ⟨_, List.mem_map_of_mem ((hg.mem_edges e).mpr hslot), rfl⟩
      intro p hp
      obtain ⟨c, hc, rfl⟩ := List.mem_map.mp hp
      exact hg.content_edge hc

end Graph

/-! ## Convergence -/

/-- A follower loads the snapshot of the graph `snapshot` and then applies the log of the calls from the
position `q` on. -/
def bootstrap (J : JsonText) (snapshot : Graph) (calls : List WriteCall) (q : ℕ) : ConcurrentGraph :=
  ((WriteCall.run (RecordingGraph.new J .new true) calls).wal.drop q).foldl (applyWalEntry J)
    ((graphToSnapshotEntries J snapshot).foldl (applyWalEntry J) .new)

/-- **A snapshot and an overlapping log converge.** -/
theorem snapshot_replay_converges {J : JsonText} (hJ : J.Faithful) {calls : List WriteCall}
    (hcalls : Along WriteCall.apply (fun g c => c.Logs J g) .new calls)
    (hends : EndpointsKept (WriteCall.run (RecordingGraph.new J .new true) calls).wal) {p q : ℕ}
    (hqp : q ≤ p) (hp : p ≤ (WriteCall.run (RecordingGraph.new J .new true) calls).wal.length)
    {snapshot : Graph} (hinv : snapshot.Inv)
    (hsnapshot : snapshot.content = (leaderAfter J .new calls p).content) :
    (bootstrap J snapshot calls q).SameStore (WriteCall.run .new calls) := by
  have hwal : (WriteCall.run (RecordingGraph.new J .new true) calls).wal =
      runRecords WriteCall.apply (RecordingGraph.walEntries J) .new calls := by
    simp [RecordingGraph.run_eq_record, RecordingGraph.record, RecordingGraph.new]
  unfold bootstrap
  rw [hwal] at hends hp ⊢
  obtain ⟨ends, hjoin⟩ := hends.exists_ends
  obtain ⟨pre, rest, rfl, hstate, hlen⟩ := RecordingGraph.exists_leaderAfter J .new calls hp
  obtain ⟨hlog, hend, hcons⟩ := RecordingGraph.soundLog_run hJ ConcurrentGraph.consistent_new
    ConcurrentGraph.adjacencyLive_new hcalls hjoin
  rw [runRecords_append] at hlog hend hjoin ⊢
  set before := runRecords WriteCall.apply (RecordingGraph.walEntries J) .new pre
  set after := runRecords WriteCall.apply (RecordingGraph.walEntries J) (pre.foldl WriteCall.apply .new)
    rest
  -- the snapshot
  obtain ⟨hsound, hbefore, -⟩ := RecordingGraph.soundLog_run hJ ConcurrentGraph.consistent_new
    ConcurrentGraph.adjacencyLive_new (along_append.mp hcalls).1
    fun e a b l h => hjoin e a b l (List.mem_append_left _ h)
  have hcontent : snapshot.content = replayContent J ConcurrentGraph.new.content before := by
    rw [hsnapshot, hstate, hbefore]
  have hvalues : AllValues (SurvivesWal J) snapshot.content := by
    rw [hcontent]
    refine hsound.allValues ⟨?_, ?_⟩
    · rintro n d k v ⟨⟩
    · rintro e d k v ⟨⟩
  obtain ⟨hloaded, hloadedContent⟩ := hinv.loadSnapshot hJ hvalues
  -- the log from `q` on
  have hdrop : (before ++ after).drop q = before.drop q ++ after :=
    List.drop_append_of_le_length (hlen ▸ hqp)
  have hsplit := List.take_append_drop q before
  rw [hdrop]
  rw [← hsplit] at hlog hend hcontent
  have hclosed := hcons.closed
  rw [← hend] at hclosed
  have hempty : EdgesJoin ends ConcurrentGraph.new.content := by
    rintro e d ⟨⟩
  obtain ⟨hfinal, hfinalContent⟩ := hloaded.replay hempty (hloadedContent.trans hcontent) hlog hclosed
  exact hfinal.sameStore hcons (hfinalContent.trans hend)

/-- Graphs with few elements are compared id by id. -/
lemma content_eq_of_bounded {g : Graph} {h : ConcurrentGraph} {k m : ℕ} (hg : g.nodes.length ≤ k)
    (hg' : g.edges.length ≤ m) (hh : ∀ id ∈ h.nodes.keys, id.toNat < k)
    (hh' : ∀ id ∈ h.edges.keys, id.toNat < m)
    (hnodes : ∀ i < k, g.content.nodes (.ofNat i) = h.content.nodes (.ofNat i))
    (hedges : ∀ i < m, g.content.edges (.ofNat i) = h.content.edges (.ofNat i)) :
    g.content = h.content := by
  refine PropertyGraph.ext (funext fun id => ?_) (funext fun id => ?_)
  · by_cases hid : id.toNat < k
    · have hsame := hnodes id.toNat hid
      rwa [UInt64.ofNat_toNat] at hsame
    · have hslot : g.getNode id = none := List.getD_eq_default _ _ (hg.trans (not_lt.mp hid))
      rw [ConcurrentGraph.content_nodes_eq_none fun hmem => hid (hh id (AList.mem_keys.mp hmem))]
      simp [Graph.content, hslot]
  · by_cases hid : id.toNat < m
    · have hsame := hedges id.toNat hid
      rwa [UInt64.ofNat_toNat] at hsame
    · have hslot : g.getEdge id = none := List.getD_eq_default _ _ (hg'.trans (not_lt.mp hid))
      rw [ConcurrentGraph.content_edges_eq_none fun hmem => hid (hh' id (AList.mem_keys.mp hmem))]
      simp [Graph.content, hslot]

/-- A run whose log is sent again from before an edge that a node deletion took along. -/
def overlapCalls : List WriteCall :=
  [.createNodeWithLabels ["P"], .createNodeWithLabels [], .createEdge 0 1 "R",
    .setNodeProperty 0 "name" (.string "a"), .deleteNode 1, .restoreNode 1 ["Q"]]

/-- The graph at the end of it. -/
def overlapSnapshot : Graph :=
  ((Graph.new.createNodeWithLabels ["P"]).1.createNodeWithLabels ["Q"]).1.setNodeProperty 0 "name"
    (.string "a")

lemma inv_overlapSnapshot : overlapSnapshot.Inv := by
  refine Graph.Inv.modifyNode ?_ 0 (fun _ => rfl) fun _ => rfl
  refine Graph.Inv.createNodeWithLabels (Graph.inv_new.createNodeWithLabels _ ?_) _ ?_
  · constructor <;> decide
  · constructor <;> decide

lemma content_overlapSnapshot (J : JsonText) :
    overlapSnapshot.content = (leaderAfter J .new overlapCalls 6).content := by
  refine content_eq_of_bounded (k := 2) (m := 0) (by decide) (by decide) ?_ ?_ ?_ ?_
  · change ∀ id ∈ [1, 0], UInt64.toNat id < 2
    simp
  · rintro id ⟨⟩
  · intro i hi
    interval_cases i <;> rfl
  · intro i hi
    omega

theorem snapshot_replay_converges_overlapCalls :
    (bootstrap (logJson ⟨fun _ => "0.0", fun _ => "0"⟩) overlapSnapshot overlapCalls 2).SameStore
      (WriteCall.run .new overlapCalls) := by
  have hwal : ∀ J, (WriteCall.run (RecordingGraph.new J .new true) overlapCalls).wal =
      [.createNode 0 ["P"], .createNode 1 [], .createEdge 0 0 1 "R",
        .setProperty 0 true "name" (propertyValueToWalString J (.string "a")), .deleteNode 1,
        .createNode 1 ["Q"]] := fun _ => rfl
  refine snapshot_replay_converges (logJson_faithful _) ?_ ?_ (p := 6) (by decide) ?_
    inv_overlapSnapshot (content_overlapSnapshot _)
  · have hfresh : FreshIds .new overlapCalls := by decide
    exact ⟨⟨hfresh.1, hfresh.1, by simp⟩, ⟨hfresh.2.1, hfresh.2.1, by simp⟩,
      ⟨hfresh.2.2.1, trivial, by simp⟩, ⟨trivial, fun _ => trivial, by simp⟩,
      ⟨trivial, trivial, by simp⟩, ⟨hfresh.2.2.2.2.2.1, trivial, by simp⟩, trivial⟩
  · rw [hwal]
    intro e a b l a' b' l' h h'
    simp only [List.mem_cons, WalEntryData.createEdge.injEq, reduceCtorEq, false_or, List.not_mem_nil,
      or_false] at h h'
    rw [h.2.1, h.2.2.1, h'.2.1, h'.2.2.1]
  · rw [hwal]
    decide

/-- A label is removed and added again before another one. -/
def labelCalls : List WriteCall :=
  [.createNodeWithLabels [], .addNodeLabel 0 "X", .removeNodeLabel 0 "X", .addNodeLabel 0 "X",
    .addNodeLabel 0 "Y"]

/-- An edge id is used again, for another pair of endpoints. -/
def endpointCalls : List WriteCall :=
  [.createNodeWithLabels [], .createNodeWithLabels [], .createNodeWithLabels [],
    .restoreEdge 0 0 1 "R", .deleteNode 2, .deleteEdge 0, .restoreNode 2 [], .restoreEdge 0 0 2 "R"]

/-- A node is restored over a live one. -/
def overwriteCalls : List WriteCall := [.restoreNode 0 ["A"], .restoreNode 0 ["B"]]

/-- The empty label is added. -/
def emptyLabelCalls : List WriteCall := [.createNodeWithLabels [], .addNodeLabel 0 ""]

/-- The graph with one node. -/
def singleNode (labels : List String) : Graph := (Graph.new.createNodeWithLabels labels).1

/-- The graph at the end of `endpointCalls`. -/
def endpointSnapshot : Graph :=
  ((((singleNode []).createNodeWithLabels []).1.createNodeWithLabels []).1.createEdge 0 2 "R").1

/-- The follower's copy is not exactly the leader's state: the labels of a node come in another order;
an edge id that is used for other endpoints stays listed at an old one; and what the label index of the
leader lists without a label on the node is not in the snapshot. -/
theorem snapshot_replay_differs :
    let J := logJson ⟨fun _ => "0.0", fun _ => "0"⟩
    ((singleNode ["X", "Y"]).content = (leaderAfter J .new labelCalls 5).content ∧
      ((WriteCall.run ConcurrentGraph.new labelCalls).nodes.lookup 0).map Node.labels = some ["X", "Y"] ∧
      ((bootstrap J (singleNode ["X", "Y"]) labelCalls 1).nodes.lookup 0).map Node.labels = some ["Y", "X"]) ∧
    (endpointSnapshot.content = (leaderAfter J .new endpointCalls 8).content ∧
      0 ∉ HashMap.getDefault (WriteCall.run ConcurrentGraph.new endpointCalls).incoming 1 ∧
      0 ∈ HashMap.getDefault (bootstrap J endpointSnapshot endpointCalls 3).incoming 1) ∧
    ((singleNode ["B"]).content = (leaderAfter J .new overwriteCalls 2).content ∧
      0 ∈ HashMap.getDefault (WriteCall.run ConcurrentGraph.new overwriteCalls).labelIndex "A" ∧
      0 ∉ HashMap.getDefault (bootstrap J (singleNode ["B"]) overwriteCalls 2).labelIndex "A") ∧
    ((singleNode []).content = (leaderAfter J .new emptyLabelCalls 2).content ∧
      0 ∈ HashMap.getDefault (WriteCall.run ConcurrentGraph.new emptyLabelCalls).labelIndex "" ∧
      0 ∉ HashMap.getDefault (bootstrap J (singleNode []) emptyLabelCalls 2).labelIndex "") := by
  have hone : ∀ {labels : List String} {h : ConcurrentGraph}, h.nodes.keys = [0] → h.edges.keys = [] →
      (singleNode labels).content.nodes 0 = h.content.nodes 0 → (singleNode labels).content = h.content := by
    intro labels h hkeys hkeys' hnode
    refine content_eq_of_bounded (k := 1) (m := 0) le_rfl le_rfl (by simp [hkeys]) (by simp [hkeys'])
      (fun i hi => ?_) fun i hi => by omega
    interval_cases i
    exact hnode
  refine ⟨⟨hone rfl rfl rfl, by decide +kernel, by decide +kernel⟩,
    ⟨?_, by decide +kernel, by decide +kernel⟩,
    ⟨hone rfl rfl rfl, by decide +kernel, by decide +kernel⟩,
    ⟨hone rfl rfl rfl, by decide +kernel, by decide +kernel⟩⟩
  refine content_eq_of_bounded (k := 3) (m := 1) (by decide) (by decide) ?_ ?_ ?_ ?_
  · change ∀ id ∈ [2, 1, 0], UInt64.toNat id < 3
    simp
  · change ∀ id ∈ [0], UInt64.toNat id < 1
    simp
  · intro i hi
    interval_cases i <;> rfl
  · intro i hi
    interval_cases i
    rfl

end Maharit
