import MaharitDb.Core.GraphContent
import MaharitDb.Storage.WalDurability

/-!
# Recovery replays the log

A graph is changed through its six operations, and every operation is logged with the ids the graph
returned.  Recovery replays the log into an empty graph.

The two graphs hand out node ids alike.  Edge ids they do not: deleting a node frees the slots of
its edges in the order in which two hash sets happen to be iterated, and that order differs between
the two runs.  Later edges then get different ids, which recovery translates nowhere.  The relation
`Follows` carries the renaming of the edge slots through the run; it is the identity outside the
slots that were freed together with others.
-/

namespace Maharit

open WalCodec GuardedRun

/-! ## The logged graph -/

/-- An operation on the graph. -/
inductive GraphOp where
  | createNode (label : String)
  | deleteNode (id : NodeId)
  | createEdge (fromNode toNode : NodeId) (label : String)
  | deleteEdge (id : EdgeId)
  | setNodeProperty (id : NodeId) (key : String) (value : PropertyValue)
  | setEdgeProperty (id : EdgeId) (key : String) (value : PropertyValue)

/-- Perform an operation; with it what is logged for it.  An edge between missing nodes is not
created, and nothing is logged. -/
def GraphOp.perform (orders : IterOrder × IterOrder) (g : Graph) :
    GraphOp → Graph × Option RecordPayload
  | .createNode label =>
      let (g, id) := g.createNode label
      (g, some (.createNode id label))
  | .deleteNode id => ((g.deleteNode orders.1 orders.2 id).1, some (.deleteNode id))
  | .createEdge fromNode toNode label =>
      match g.createEdge fromNode toNode label with
      | (g, .ok id) => (g, some (.createEdge id fromNode toNode label))
      | (g, .error _) => (g, none)
  | .deleteEdge id => ((g.deleteEdge id).1, some (.deleteEdge id))
  | .setNodeProperty id key value =>
      (g.setNodeProperty id key value, some (.setNodeProperty id key value))
  | .setEdgeProperty id key value =>
      (g.setEdgeProperty id key value, some (.setEdgeProperty id key value))

/-- An operation keeps the invariant of the graph while the vectors are allocated. -/
theorem Graph.Inv.perform {g : Graph} (hg : g.Inv) (orders : IterOrder × IterOrder) (op : GraphOp)
    (hfits : (op.perform orders g).1.Fits) : (op.perform orders g).1.Inv := by
  cases op with
  | createNode label => exact hg.createNodeWithLabels _ hfits
  | deleteNode id => exact hg.deleteNode orders.1 orders.2 id
  | createEdge fromNode toNode label =>
    have hsame : ((GraphOp.createEdge fromNode toNode label).perform orders g).1 =
        (g.createEdge fromNode toNode label).1 := by
      simp only [GraphOp.perform]
      rcases g.createEdge fromNode toNode label with ⟨g', e | id⟩ <;> rfl
    rw [hsame] at hfits ⊢
    exact hg.createEdge fromNode toNode label hfits
  | deleteEdge id => exact hg.deleteEdge id
  | setNodeProperty id key value => exact hg.modifyNode id (fun _ => rfl) fun _ => rfl
  | setEdgeProperty id key value => exact hg.modifyEdge id fun _ => ⟨rfl, rfl, rfl⟩

/-- The edge slots that an operation frees in an unspecified order. -/
def GraphOp.scrambles (g : Graph) : GraphOp → List EdgeId
  | .deleteNode id =>
      if 2 ≤ (g.incidentEdges id).length then g.incidentEdges id else []
  | _ => []

/-- A graph with its log.  `log` lists the records appended so far, and `scrambled` the edge slots
that some node deletion freed together with others. -/
structure LoggedGraph where
  graph : Graph
  wal : Wal
  log : List LogRecord
  scrambled : List EdgeId

namespace LoggedGraph

/-- The empty graph, with a new log. -/
def start : LoggedGraph := ⟨.new, .openFile [], [], []⟩

/-- Append a record to the log. -/
def append (s : LoggedGraph) (payload : RecordPayload) (timestamp : UInt64) : LoggedGraph :=
  let (wal, lsn) := s.wal.appendAt payload.recordType payload timestamp
  { s with wal, log := s.log ++ [⟨lsn, timestamp, payload.recordType, payload⟩] }

/-- Perform and log an operation.  The `i`-th logged operation iterates over edge sets in the `i`-th
pair of orders. -/
def step (orders : ℕ → IterOrder × IterOrder) (s : LoggedGraph) (op : GraphOp × UInt64) :
    LoggedGraph :=
  let (graph, payload) := op.1.perform (orders s.log.length) s.graph
  let s' := { s with graph, scrambled := s.scrambled ++ op.1.scrambles s.graph }
  match payload with
  | none => s'
  | some payload => s'.append payload op.2

/-- A run of operations. -/
def run (orders : ℕ → IterOrder × IterOrder) (ops : List (GraphOp × UInt64)) : LoggedGraph :=
  ops.foldl (step orders) start

/-- The log file after a sync. -/
def file (s : LoggedGraph) : Bytes := s.wal.sync.writer.file

/-- What an operation must respect: an edge is not addressed by the id of a slot that was freed
together with others, the ids fit into 64 bits, and the strings are short enough for the log. -/
def Guard (s : LoggedGraph) (op : GraphOp × UInt64) : Prop :=
  match op.1 with
  | .createNode label => s.graph.nodes.length < 2 ^ 64 ∧ ShortString label
  | .deleteNode _ => True
  | .createEdge _ _ label => s.graph.edges.length < 2 ^ 64 ∧ ShortString label
  | .deleteEdge id => id ∉ s.scrambled
  | .setNodeProperty _ key value => ShortString key ∧ ShortValue value
  | .setEdgeProperty id key value => id ∉ s.scrambled ∧ ShortString key ∧ ShortValue value

instance (s : LoggedGraph) : ∀ op, Decidable (s.Guard op)
  | (.createNode label, _) =>
      inferInstanceAs (Decidable (s.graph.nodes.length < 2 ^ 64 ∧ ShortString label))
  | (.deleteNode _, _) => .isTrue trivial
  | (.createEdge _ _ label, _) =>
      inferInstanceAs (Decidable (s.graph.edges.length < 2 ^ 64 ∧ ShortString label))
  | (.deleteEdge id, _) => inferInstanceAs (Decidable (id ∉ s.scrambled))
  | (.setNodeProperty _ key value, _) =>
      inferInstanceAs (Decidable (ShortString key ∧ ShortValue value))
  | (.setEdgeProperty id key value, _) =>
      inferInstanceAs (Decidable (id ∉ s.scrambled ∧ ShortString key ∧ ShortValue value))

/-! ### The log file -/

/-- The writer was handed exactly the logged records. -/
structure LogWritten (s : LoggedGraph) : Prop where
  writer : s.wal.writer = s.log.foldl FileWriter.writeRecord (.atStart [])
  wellFormed : ∀ r ∈ s.log, WellFormed r

lemma logWritten_start : start.LogWritten := ⟨rfl, by simp [start]⟩

lemma LogWritten.append {s : LoggedGraph} (hs : s.LogWritten) {payload : RecordPayload}
    (hshort : ShortPayload payload) (timestamp : UInt64) :
    (s.append payload timestamp).LogWritten := by
  refine ⟨?_, ?_⟩
  · simp only [LoggedGraph.append, Wal.appendAt, List.foldl_append, ← hs.writer]
    rfl
  · intro r hr
    rcases List.mem_append.mp hr with hr | hr
    · exact hs.wellFormed r hr
    · rw [List.mem_singleton.mp hr]
      exact ⟨rfl, hshort⟩

/-- What a guarded operation logs is short. -/
lemma shortPayload_of_guard {s : LoggedGraph} {op : GraphOp × UInt64} (hop : s.Guard op)
    (orders : IterOrder × IterOrder) (g : Graph) {payload : RecordPayload}
    (h : (op.1.perform orders g).2 = some payload) : ShortPayload payload := by
  obtain ⟨op, timestamp⟩ := op
  cases op with
  | createNode label =>
    cases h
    exact hop.2
  | deleteNode id =>
    cases h
    trivial
  | createEdge fromNode toNode label =>
    simp only [GraphOp.perform] at h
    split at h
    · cases h
      exact hop.2
    · cases h
  | deleteEdge id =>
    cases h
    trivial
  | setNodeProperty id key value =>
    cases h
    exact hop
  | setEdgeProperty id key value =>
    cases h
    exact hop.2

lemma LogWritten.step_of_short {s : LoggedGraph} (hs : s.LogWritten)
    (orders : ℕ → IterOrder × IterOrder) {op : GraphOp × UInt64}
    (hshort : ∀ payload, (op.1.perform (orders s.log.length) s.graph).2 = some payload →
      ShortPayload payload) : (s.step orders op).LogWritten := by
  unfold LoggedGraph.step
  rcases hperform : op.1.perform (orders s.log.length) s.graph with ⟨graph, _ | payload⟩
  · exact ⟨hs.writer, hs.wellFormed⟩
  · have hs' : LogWritten
        { s with graph, scrambled := s.scrambled ++ op.1.scrambles s.graph } :=
      ⟨hs.writer, hs.wellFormed⟩
    exact hs'.append (hshort payload (by rw [hperform])) op.2

lemma LogWritten.step {s : LoggedGraph} (hs : s.LogWritten) (orders : ℕ → IterOrder × IterOrder)
    {op : GraphOp × UInt64} (hop : s.Guard op) : (s.step orders op).LogWritten :=
  hs.step_of_short orders fun _ h => shortPayload_of_guard hop _ _ h

/-- Reading the file gives the logged records. -/
lemma LogWritten.scanFile {s : LoggedGraph} (hs : s.LogWritten) :
    scanFile s.file = (s.log, none) := by
  have hfile : s.file = encodeLog s.log := by
    rw [← file_foldl_writeRecord, ← hs.writer]
    rfl
  rw [hfile, scanFile_encodeLog hs.wellFormed]

end LoggedGraph

/-! ## Isomorphic graphs -/

namespace Graph

/-- `ν` and `ε` carry the live nodes and edges of `g` to those of `g'`, with all their data. -/
structure Isomorphism (g g' : Graph) (ν : NodeId → NodeId) (ε : EdgeId → EdgeId) : Prop where
  nodes : Set.BijOn ν {n | (g.getNode n).isSome} {n | (g'.getNode n).isSome}
  edges : Set.BijOn ε {e | (g.getEdge e).isSome} {e | (g'.getEdge e).isSome}
  node : ∀ n a, g.getNode n = some a → ∃ b, g'.getNode (ν n) = some b ∧
    b.labels = a.labels ∧ b.properties = a.properties
  edge : ∀ e a, g.getEdge e = some a → ∃ b, g'.getEdge (ε e) = some b ∧
    b.label = a.label ∧ b.fromNode = ν a.fromNode ∧ b.toNode = ν a.toNode ∧
    b.properties = a.properties

/-- The graphs are the same up to the ids. -/
def Isomorphic (g g' : Graph) : Prop := ∃ ν ε, Isomorphism g g' ν ε

/-- `f` is `g` with its edge slots renamed by `π`, which moves only scrambled slots. -/
structure Follows (g : Graph) (scrambled : List EdgeId) (f : Graph) (π : Equiv.Perm EdgeId) :
    Prop where
  valid : g.Valid
  valid' : f.Valid
  nodes : f.nodes = g.nodes
  nodeFreeList : f.nodeFreeList = g.nodeFreeList
  edges_length : f.edges.length = g.edges.length
  getEdge : ∀ e, f.getEdge (π e) = (g.getEdge e).map ({ · with id := π e })
  edgeFreeList : f.edgeFreeList = g.edgeFreeList.map π
  fixed : ∀ e ∉ scrambled, π e = e
  scrambled_lt : ∀ e ∈ scrambled, e.toNat < g.edges.length

lemma follows_new : Follows .new [] .new 1 where
  valid := valid_new
  valid' := valid_new
  nodes := rfl
  nodeFreeList := rfl
  edges_length := rfl
  getEdge _ := rfl
  edgeFreeList := rfl
  fixed _ _ := rfl
  scrambled_lt := by simp

/-- A graph that follows another one is isomorphic to it. -/
theorem Follows.isomorphic {g f : Graph} {scrambled : List EdgeId} {π : Equiv.Perm EdgeId}
    (h : Follows g scrambled f π) : Isomorphic g f := by
  have hnode : ∀ n, f.getNode n = g.getNode n := fun n => by rw [Graph.getNode, h.nodes, Graph.getNode]
  refine ⟨id, π, ?_, ?_, ?_, ?_⟩
  · simp only [hnode]
    exact Set.bijOn_id _
  · refine ⟨?_, π.injective.injOn, ?_⟩
    · intro e he
      simpa [h.getEdge] using he
    · intro e he
      refine ⟨π.symm e, ?_, π.apply_symm_apply e⟩
      have heq := h.getEdge (π.symm e)
      rw [π.apply_symm_apply] at heq
      simpa [heq] using he
  · intro n a ha
    exact ⟨a, by rw [id, hnode, ha], rfl, rfl⟩
  · intro e a ha
    exact ⟨{ a with id := π e }, by rw [h.getEdge, ha]; rfl, rfl, rfl, rfl, rfl⟩

/-! ## One operation on both graphs -/

/-- A node is created under the same id. -/
lemma Follows.createNode {g f : Graph} {scrambled : List EdgeId} {π : Equiv.Perm EdgeId}
    (h : Follows g scrambled f π) (hlen : g.nodes.length < 2 ^ 64) (label : String) :
    Follows (g.createNode label).1 scrambled (f.createNode label).1 π ∧
    (f.createNode label).2 = (g.createNode label).2 := by
  unfold Graph.createNode
  set labels := if label.isEmpty then [] else [label]
  have hg := h.valid.createsNode hlen labels
  have hf := h.valid'.createsNode (h.nodes ▸ hlen) labels
  obtain ⟨hnodes, hid⟩ := createNodeWithLabels_congr h.nodes h.nodeFreeList labels
  refine ⟨⟨hg.valid h.valid, hf.valid h.valid', hnodes, ?_, ?_, ?_, ?_, h.fixed, ?_⟩, hid⟩
  · rw [hf.nodeFreeList, hg.nodeFreeList, h.nodeFreeList]
  · rw [hf.edges, hg.edges, h.edges_length]
  · intro e
    rw [hf.getEdge, hg.getEdge, h.getEdge]
  · rw [hf.edgeFreeList, hg.edgeFreeList, h.edgeFreeList]
  · rw [hg.edges]
    exact h.scrambled_lt

/-- The next edge slots correspond. -/
lemma Follows.nextEdgeId {g f : Graph} {scrambled : List EdgeId} {π : Equiv.Perm EdgeId}
    (h : Follows g scrambled f π) (hlen : g.edges.length < 2 ^ 64) :
    f.nextEdgeId = π g.nextEdgeId := by
  unfold Graph.nextEdgeId
  rw [h.edgeFreeList, h.edges_length]
  cases g.edgeFreeList with
  | cons e rest => rfl
  | nil =>
    -- A slot behind the end is not scrambled.
    refine (h.fixed _ fun hmem => ?_).symm
    have hlt : (UInt64.ofNat g.edges.length).toNat < g.edges.length := h.scrambled_lt _ hmem
    rw [UInt64.toNat_ofNat', Nat.mod_eq_of_lt hlen] at hlt
    exact lt_irrefl _ hlt

/-- An edge is created in corresponding slots. -/
lemma Follows.createEdge {g f : Graph} {scrambled : List EdgeId} {π : Equiv.Perm EdgeId}
    (h : Follows g scrambled f π) (hlen : g.edges.length < 2 ^ 64) {fromNode toNode : NodeId}
    (hfrom : (g.getNode fromNode).isSome) (hto : (g.getNode toNode).isSome) (label : String) :
    Follows (g.createEdge fromNode toNode label).1 scrambled
      (f.createEdge fromNode toNode label).1 π ∧
    ∃ id, (f.createEdge fromNode toNode label).2 = .ok id := by
  have hnode : ∀ n, f.getNode n = g.getNode n := fun n => by rw [Graph.getNode, h.nodes, Graph.getNode]
  have hfrom' : (f.getNode fromNode).isSome := hnode _ ▸ hfrom
  have hto' : (f.getNode toNode).isSome := hnode _ ▸ hto
  have hlen' : f.edges.length < 2 ^ 64 := h.edges_length ▸ hlen
  obtain ⟨-, hg⟩ := h.valid.createsEdge hlen hfrom hto label
  obtain ⟨hok, hf⟩ := h.valid'.createsEdge hlen' hfrom' hto' label
  have hnext := h.nextEdgeId hlen
  have hempty : f.edgeFreeList = [] ↔ g.edgeFreeList = [] := by
    rw [h.edgeFreeList, List.map_eq_nil_iff]
  refine ⟨⟨hg.valid h.valid rfl hfrom hto, hf.valid h.valid' rfl hfrom' hto', ?_, ?_, ?_, ?_, ?_,
    h.fixed, ?_⟩, _, hok⟩
  · rw [hf.nodes, hg.nodes, h.nodes]
  · rw [hf.nodeFreeList, hg.nodeFreeList, h.nodeFreeList]
  · simp only [hf.edges_length, hg.edges_length, h.edges_length, hempty]
  · intro e
    rw [hf.getEdge, hg.getEdge, hnext]
    by_cases he : e = g.nextEdgeId
    · subst he
      simp
    · rw [if_neg he, if_neg (fun h' => he (π.injective h')), h.getEdge]
  · rw [hf.edgeFreeList, hg.edgeFreeList, h.edgeFreeList, List.map_tail]
  · intro e he
    rw [hg.edges_length]
    exact (h.scrambled_lt e he).trans_le (Nat.le_add_right _ _)

/-- An edge that is not scrambled is deleted alike. -/
lemma Follows.deleteEdge {g f : Graph} {scrambled : List EdgeId} {π : Equiv.Perm EdgeId}
    (h : Follows g scrambled f π) {id : EdgeId} (hid : id ∉ scrambled) :
    Follows (g.deleteEdge id).1 scrambled (f.deleteEdge id).1 π := by
  have hfix : π id = id := h.fixed id hid
  have hedge := h.getEdge id
  rw [hfix] at hedge
  have hvalid := h.valid.deleteEdge id
  have hvalid' := h.valid'.deleteEdge id
  cases hc : g.getEdge id with
  | none =>
    have hg : (g.deleteEdge id).1 = g := by simp [Graph.deleteEdge, hc]
    have hf : (f.deleteEdge id).1 = f := by simp [Graph.deleteEdge, hedge, hc]
    rwa [hg, hf]
  | some c =>
    rw [hc] at hedge
    have hg := dropsEdges_deleteEdge hc
    have hf := dropsEdges_deleteEdge hedge
    refine ⟨hvalid, hvalid', ?_, ?_, ?_, ?_, ?_, h.fixed, ?_⟩
    · rw [hf.nodes, hg.nodes, h.nodes]
    · rw [hf.nodeFreeList, hg.nodeFreeList, h.nodeFreeList]
    · rw [hf.edges_length, hg.edges_length, h.edges_length]
    · intro e
      have hiff : π e ∈ [id] ↔ e ∈ [id] := by
        rw [List.mem_singleton, List.mem_singleton]
        nth_rewrite 1 [← hfix]
        exact π.injective.eq_iff
      rw [hf.getEdge, hg.getEdge, h.getEdge]
      by_cases he : e ∈ [id]
      · rw [if_pos he, if_pos (hiff.mpr he)]
        rfl
      · rw [if_neg he, if_neg (hiff.not.mpr he)]
    · rw [hf.edgeFreeList, hg.edgeFreeList, h.edgeFreeList]
      simp [hfix]
    · rw [hg.edges_length]
      exact h.scrambled_lt

/-- A node property is set alike. -/
lemma Follows.setNodeProperty {g f : Graph} {scrambled : List EdgeId} {π : Equiv.Perm EdgeId}
    (h : Follows g scrambled f π) (id : NodeId) (key : String) (value : PropertyValue) :
    Follows (g.setNodeProperty id key value) scrambled (f.setNodeProperty id key value) π where
  valid := h.valid.setNodeProperty id key value
  valid' := h.valid'.setNodeProperty id key value
  nodes := by simp only [Graph.setNodeProperty, h.nodes]
  nodeFreeList := h.nodeFreeList
  edges_length := h.edges_length
  getEdge := h.getEdge
  edgeFreeList := h.edgeFreeList
  fixed := h.fixed
  scrambled_lt := h.scrambled_lt

/-- A property of an edge that is not scrambled is set alike. -/
lemma Follows.setEdgeProperty {g f : Graph} {scrambled : List EdgeId} {π : Equiv.Perm EdgeId}
    (h : Follows g scrambled f π) {id : EdgeId} (hid : id ∉ scrambled) (key : String)
    (value : PropertyValue) :
    Follows (g.setEdgeProperty id key value) scrambled (f.setEdgeProperty id key value) π := by
  have hfix : π id = id := h.fixed id hid
  have hlen : ∀ g' : Graph, (g'.setEdgeProperty id key value).edges.length = g'.edges.length := by
    simp [Graph.setEdgeProperty]
  refine ⟨h.valid.setEdgeProperty id key value, h.valid'.setEdgeProperty id key value, h.nodes,
    h.nodeFreeList, ?_, ?_, h.edgeFreeList, h.fixed, ?_⟩
  · rw [hlen, hlen, h.edges_length]
  · intro e
    rw [getEdge_setEdgeProperty, getEdge_setEdgeProperty, h.getEdge]
    by_cases he : e = id
    · subst he
      rw [if_pos hfix, if_pos rfl, Option.map_map, Option.map_map]
      rfl
    · have hne : π e ≠ id := fun h' => he (π.injective (h'.trans hfix.symm))
      rw [if_neg hne, if_neg he]
  · rw [hlen]
    exact h.scrambled_lt

/-- A live node is deleted with all its edges; their slots may be freed in another order. -/
lemma Follows.deleteNode {g f : Graph} {scrambled : List EdgeId} {π : Equiv.Perm EdgeId}
    (h : Follows g scrambled f π) {id : NodeId} (hid : (g.getNode id).isSome)
    (orders orders' : IterOrder × IterOrder) :
    ∃ π', Follows (g.deleteNode orders.1 orders.2 id).1
      (scrambled ++ GraphOp.scrambles g (.deleteNode id))
      (f.deleteNode orders'.1 orders'.2 id).1 π' := by
  have hid' : (f.getNode id).isSome := by rwa [Graph.getNode, h.nodes]
  obtain ⟨freed, hg, hvalid⟩ := h.valid.deletesNode orders.1 orders.2 hid
  obtain ⟨freed', hf, hvalid'⟩ := h.valid'.deletesNode orders'.1 orders'.2 hid'
  -- Renamed, the same slots are freed.
  have hmem : ∀ e, π e ∈ freed' ↔ e ∈ freed := by
    intro e
    rw [hf.mem_freed, hg.mem_freed, h.getEdge]
    simp
  have hperm : (freed.map π).Perm freed' := by
    refine (List.perm_ext_iff_of_nodup (hg.freed_nodup.map π.injective) hf.freed_nodup).mpr ?_
    intro e
    have he := hmem (π.symm e)
    rw [π.apply_symm_apply] at he
    rw [he, List.mem_map]
    refine ⟨?_, fun hmem => ⟨_, hmem, π.apply_symm_apply e⟩⟩
    rintro ⟨e', he', rfl⟩
    rwa [π.symm_apply_apply]
  -- One slot alone is freed alike; only several ones may be renamed further.
  obtain ⟨τ, hτ, hfixed, hscrambled⟩ : ∃ τ : Equiv.Perm EdgeId, (freed.map π).map τ = freed' ∧
      (∀ e ∉ freed, τ (π e) = π e) ∧
      ∀ e ∉ scrambled ++ GraphOp.scrambles g (.deleteNode id), τ (π e) = e := by
    have hlength := (hg.perm h.valid).length_eq
    by_cases hmany : 2 ≤ (g.incidentEdges id).length
    · obtain ⟨τ, hτ, hfixed⟩ := Slots.exists_perm_map_eq hperm (hg.freed_nodup.map π.injective)
      have hfixed' : ∀ e ∉ freed, τ (π e) = π e := fun e he =>
        hfixed (π e) fun hmem => he ((List.mem_map_of_injective π.injective).mp hmem)
      refine ⟨τ, hτ, hfixed', fun e he => ?_⟩
      rw [GraphOp.scrambles, if_pos hmany, List.mem_append, not_or] at he
      have hfree : e ∉ freed := fun hmem => he.2 ((hg.perm h.valid).mem_iff.mp hmem)
      rw [hfixed' e hfree, h.fixed e he.1]
    · have hshort : (freed.map π).length ≤ 1 := by
        rw [List.length_map]
        omega
      refine ⟨1, ?_, fun _ _ => rfl, fun e he => ?_⟩
      · rw [Equiv.Perm.coe_one, List.map_id]
        rcases hl : freed.map π with _ | ⟨e, _ | ⟨e', tail⟩⟩
        · exact (List.nil_perm.mp (hl ▸ hperm)).symm
        · exact (List.perm_singleton.mp (hl ▸ hperm).symm).symm
        · rw [hl] at hshort
          simp at hshort
      · rw [List.mem_append, not_or] at he
        exact h.fixed e he.1
  refine ⟨π.trans τ, hvalid, hvalid', ?_, ?_, ?_, ?_, ?_, hscrambled, ?_⟩
  · rw [hf.nodes, hg.nodes, h.nodes]
  · rw [hf.nodeFreeList, hg.nodeFreeList, h.nodeFreeList]
  · rw [hf.edges_length, hg.edges_length, h.edges_length]
  · intro e
    have hiff : τ (π e) ∈ freed' ↔ e ∈ freed := by
      rw [← hτ, List.mem_map_of_injective τ.injective, List.mem_map_of_injective π.injective]
    rw [Equiv.trans_apply, hf.getEdge, hg.getEdge]
    by_cases he : e ∈ freed
    · rw [if_pos he, if_pos (hiff.mpr he)]
      rfl
    · rw [if_neg he, if_neg (hiff.not.mpr he), hfixed e he, h.getEdge]
  · rw [hf.edgeFreeList, hg.edgeFreeList, h.edgeFreeList, List.map_append, ← hτ, List.map_map]
    congr 1
    refine List.map_congr_left fun e he => ?_
    -- A slot that was free before is not freed now.
    have hdead := (h.valid.edgeFree e he).2
    refine (hfixed e fun hmem => ?_).symm
    obtain ⟨c, hc, -⟩ := (hg.mem_freed e).mp hmem
    rw [hdead] at hc
    cases hc
  · intro e he
    rw [hg.edges_length]
    rcases List.mem_append.mp he with he | he
    · exact h.scrambled_lt e he
    · have he' : e ∈ g.incidentEdges id := by
        rw [GraphOp.scrambles] at he
        split at he
        · exact he
        · cases he
      obtain ⟨c, hc, -⟩ := h.valid.mem_incidentEdges.mp he'
      exact toNat_lt_of_getEdge hc

end Graph

/-! ## Replaying the log -/

lemma applyRecords_append (orders : ℕ → IterOrder × IterOrder) (i : ℕ)
    (records records' : List LogRecord) (state : Recovery) :
    applyRecords orders i (records ++ records') state =
      (applyRecords orders i records state).bind
        (applyRecords orders (i + records.length) records') := by
  induction records generalizing i state with
  | nil => rfl
  | cons r records ih =>
    rw [List.cons_append, applyRecords, applyRecords]
    cases applyRecord (orders i).1 (orders i).2 state r with
    | error e => rfl
    | ok state' =>
      rw [Except.bind, Except.bind, ih, List.length_cons, Nat.add_right_comm, Nat.add_assoc]

/-- The id map of a recovery: node ids are their own translations, and live nodes are known. -/
structure Translates (g : Graph) (idMap : HashMap UInt64 UInt64) : Prop where
  sound : ∀ n m, idMap.lookup n = some m → m = n
  live : ∀ n, (g.getNode n).isSome → idMap.lookup n = some n

/-- An id is translated to itself, known or not. -/
lemma Translates.getD {g : Graph} {idMap : HashMap UInt64 UInt64} (h : Translates g idMap)
    (n : NodeId) : (idMap.lookup n).getD n = n := by
  cases hn : idMap.lookup n with
  | none => rfl
  | some m => exact h.sound n m hn

/-- The map still translates when no node has come to life. -/
lemma Translates.mono {g g' : Graph} {idMap : HashMap UInt64 UInt64} (h : Translates g idMap)
    (hlive : ∀ n, (g'.getNode n).isSome → (g.getNode n).isSome) : Translates g' idMap :=
  ⟨h.sound, fun n hn => h.live n (hlive n hn)⟩

/-- A new node is entered under its id. -/
lemma Translates.insert {g g' : Graph} {idMap : HashMap UInt64 UInt64} (h : Translates g idMap)
    {id : NodeId} {n : Node} (hcreate : Graph.CreatesNode g g' id n) :
    Translates g' (idMap.insert id id) := by
  refine ⟨fun m m' hm => ?_, fun m hm => ?_⟩
  · by_cases hid : m = id
    · subst hid
      rw [AList.lookup_insert] at hm
      exact (Option.some.inj hm).symm
    · rw [AList.lookup_insert_ne hid] at hm
      exact h.sound m m' hm
  · by_cases hid : m = id
    · subst hid
      rw [AList.lookup_insert]
    · rw [AList.lookup_insert_ne hid]
      rw [hcreate.getNode, if_neg hid] at hm
      exact h.live m hm

/-- `g` and `f` are two stages of the logged and of the recovered run. -/
structure Stage (g : Graph) (scrambled : List EdgeId) (state : Recovery) : Prop where
  follows : ∃ π, Graph.Follows g scrambled state.1 π
  translates : Translates g state.2

section Replay

variable {g : Graph} {scrambled : List EdgeId} {state : Recovery} (h : Stage g scrambled state)
  (orders orders' : IterOrder × IterOrder)

include h

lemma Stage.createNode (hlen : g.nodes.length < 2 ^ 64) (label : String) {r : LogRecord}
    (hr : r.payload = .createNode (g.createNode label).2 label) :
    ∃ state', applyRecord orders'.1 orders'.2 state r = .ok state' ∧
      Stage (g.createNode label).1 scrambled state' := by
  obtain ⟨⟨π, hfollows⟩, htranslates⟩ := h
  obtain ⟨hfollows', hid⟩ := hfollows.createNode hlen label
  refine ⟨_, by simp only [applyRecord, hr]; rfl, ⟨π, hfollows'⟩, ?_⟩
  have hcreate := hfollows.valid.createsNode hlen (if label.isEmpty then [] else [label])
  have hinsert := htranslates.insert hcreate
  change Translates _ (state.2.insert (g.createNode label).2 (state.1.createNode label).2)
  rw [hid]
  exact hinsert

lemma Stage.deleteNode {id : NodeId} {r : LogRecord} (hr : r.payload = .deleteNode id) :
    ∃ state', applyRecord orders'.1 orders'.2 state r = .ok state' ∧
      Stage (g.deleteNode orders.1 orders.2 id).1
        (scrambled ++ GraphOp.scrambles g (.deleteNode id)) state' := by
  obtain ⟨⟨π, hfollows⟩, htranslates⟩ := h
  have hnode : ∀ n, state.1.getNode n = g.getNode n := fun n => by
    rw [Graph.getNode, hfollows.nodes, Graph.getNode]
  cases hlive : g.getNode id with
  | none =>
    -- A missing node has no edges, and is missing in the recovered graph too.
    have hscrambles : GraphOp.scrambles g (.deleteNode id) = [] := by
      have hnone : ∀ e, e ∉ g.incidentEdges id := by
        intro e he
        obtain ⟨c, hc, hend⟩ := hfollows.valid.mem_incidentEdges.mp he
        have hends := hfollows.valid.endpoints e c hc
        rcases hend with rfl | rfl
        · simp [hlive] at hends
        · simp [hlive] at hends
      rw [GraphOp.scrambles, List.eq_nil_iff_forall_not_mem.mpr hnone]
      rfl
    rw [Graph.deleteNode_of_dead hlive, hscrambles, List.append_nil]
    refine ⟨state, ?_, ⟨π, hfollows⟩, htranslates⟩
    simp only [applyRecord, hr]
    cases hid : state.2.lookup id with
    | none => rfl
    | some actual =>
      have hactual : actual = id := htranslates.sound id actual hid
      simp only [hactual, Graph.deleteNode_of_dead ((hnode id).trans hlive)]
  | some n =>
    have hsome : (g.getNode id).isSome := by simp [hlive]
    obtain ⟨π', hfollows'⟩ := hfollows.deleteNode hsome orders orders'
    refine ⟨((state.1.deleteNode orders'.1 orders'.2 id).1, state.2), ?_, ⟨π', hfollows'⟩, ?_⟩
    · simp only [applyRecord, hr, htranslates.live id hsome]
    · refine htranslates.mono fun m hm => ?_
      obtain ⟨freed, hdelete, -⟩ := hfollows.valid.deletesNode orders.1 orders.2 hsome
      rw [Graph.getNode, hdelete.nodes,
        Graph.getD_set_uint _ _ _ _ _ (Graph.toNat_lt_of_getNode hsome)] at hm
      split at hm
      · cases hm
      · exact hm

lemma Stage.createEdge (hlen : g.edges.length < 2 ^ 64) {fromNode toNode : NodeId} {label : String}
    {id : EdgeId} (hok : (g.createEdge fromNode toNode label).2 = .ok id) {r : LogRecord}
    (hr : r.payload = .createEdge id fromNode toNode label) :
    ∃ state', applyRecord orders'.1 orders'.2 state r = .ok state' ∧
      Stage (g.createEdge fromNode toNode label).1 scrambled state' := by
  obtain ⟨⟨π, hfollows⟩, htranslates⟩ := h
  have hlive := Graph.live_of_createEdge_ok hok
  obtain ⟨hfollows', id', hok'⟩ := hfollows.createEdge hlen hlive.1 hlive.2 label
  obtain ⟨-, hcreate⟩ := hfollows.valid.createsEdge hlen hlive.1 hlive.2 label
  refine ⟨((state.1.createEdge fromNode toNode label).1, state.2), ?_, ⟨π, hfollows'⟩, ?_⟩
  · simp only [applyRecord, hr, htranslates.getD]
    split
    · rename_i g' _ heq
      rw [heq]
    · rename_i g' e heq
      rw [heq] at hok'
      cases hok'
  · refine htranslates.mono fun m hm => ?_
    rwa [Graph.getNode, hcreate.nodes] at hm

lemma Stage.deleteEdge {id : EdgeId} (hid : id ∉ scrambled) {r : LogRecord}
    (hr : r.payload = .deleteEdge id) :
    ∃ state', applyRecord orders'.1 orders'.2 state r = .ok state' ∧
      Stage (g.deleteEdge id).1 scrambled state' := by
  obtain ⟨⟨π, hfollows⟩, htranslates⟩ := h
  refine ⟨((state.1.deleteEdge id).1, state.2), by simp only [applyRecord, hr],
    ⟨π, hfollows.deleteEdge hid⟩, ?_⟩
  refine htranslates.mono fun m hm => ?_
  rwa [Graph.getNode, Graph.nodes_deleteEdge] at hm

lemma Stage.setNodeProperty {id : NodeId} {key : String} {value : PropertyValue} {r : LogRecord}
    (hr : r.payload = .setNodeProperty id key value) :
    ∃ state', applyRecord orders'.1 orders'.2 state r = .ok state' ∧
      Stage (g.setNodeProperty id key value) scrambled state' := by
  obtain ⟨⟨π, hfollows⟩, htranslates⟩ := h
  refine ⟨(state.1.setNodeProperty id key value, state.2), ?_,
    ⟨π, hfollows.setNodeProperty id key value⟩, ?_⟩
  · simp only [applyRecord, hr, htranslates.getD]
  · refine htranslates.mono fun m hm => ?_
    rw [Graph.getNode_setNodeProperty] at hm
    split at hm
    · simpa using hm
    · exact hm

lemma Stage.setEdgeProperty {id : EdgeId} (hid : id ∉ scrambled) {key : String}
    {value : PropertyValue} {r : LogRecord} (hr : r.payload = .setEdgeProperty id key value) :
    ∃ state', applyRecord orders'.1 orders'.2 state r = .ok state' ∧
      Stage (g.setEdgeProperty id key value) scrambled state' := by
  obtain ⟨⟨π, hfollows⟩, htranslates⟩ := h
  refine ⟨(state.1.setEdgeProperty id key value, state.2), by simp only [applyRecord, hr],
    ⟨π, hfollows.setEdgeProperty hid key value⟩, ?_⟩
  exact htranslates.mono fun m hm => hm

end Replay

namespace LoggedGraph

/-- Replaying the log so far reaches the same stage. -/
def Replays (orders : ℕ → IterOrder × IterOrder) (s : LoggedGraph) : Prop :=
  ∃ state, applyRecords orders 0 s.log (.new, ∅) = .ok state ∧
    Stage s.graph s.scrambled state

lemma replays_start (orders : ℕ → IterOrder × IterOrder) : start.Replays orders := by
  refine ⟨(.new, ∅), rfl, ⟨1, Graph.follows_new⟩, by simp, ?_⟩
  simp [start, Graph.new, Graph.getNode]

/-- What one operation leads to in a replay: nothing is logged, or a record is applied. -/
def ReplaysStep (orders : IterOrder × IterOrder) (s s' : LoggedGraph) (state : Recovery) : Prop :=
  s'.log = s.log ∧ Stage s'.graph s'.scrambled state ∨
  ∃ r state', s'.log = s.log ++ [r] ∧ applyRecord orders.1 orders.2 state r = .ok state' ∧
    Stage s'.graph s'.scrambled state'

/-- The logged operation is replayed when its record is. -/
lemma ReplaysStep.append {orders : IterOrder × IterOrder} {s : LoggedGraph} {state : Recovery}
    {graph : Graph} {scrambled : List EdgeId} {payload : RecordPayload} {timestamp : UInt64}
    (hr : ∀ r : LogRecord, r.payload = payload →
      ∃ state', applyRecord orders.1 orders.2 state r = .ok state' ∧ Stage graph scrambled state') :
    ReplaysStep orders s (LoggedGraph.append { s with graph, scrambled } payload timestamp) state := by
  obtain ⟨state', happly, hstage⟩ :=
    hr ⟨s.wal.currentLsn + 1, timestamp, payload.recordType, payload⟩ rfl
  exact .inr ⟨_, state', rfl, happly, hstage⟩

/-- A guarded operation leads from a stage of the replay to the next. -/
theorem replaysStep {s : LoggedGraph} {state : Recovery} (hstage : Stage s.graph s.scrambled state)
    (orders : ℕ → IterOrder × IterOrder) (orders' : IterOrder × IterOrder) {op : GraphOp × UInt64}
    (hop : s.Guard op) : ReplaysStep orders' s (s.step orders op) state := by
  obtain ⟨op, timestamp⟩ := op
  -- Only a node deletion scrambles slots.
  have hsame : s.scrambled ++ [] = s.scrambled := List.append_nil _
  have hstage' : Stage s.graph (s.scrambled ++ []) state := hsame.symm ▸ hstage
  cases op with
  | createNode label =>
    exact .append fun r hr => hstage'.createNode _ hop.1 label hr
  | deleteNode id => exact .append fun r hr => hstage.deleteNode _ _ hr
  | createEdge fromNode toNode label =>
    simp only [LoggedGraph.step, GraphOp.perform, GraphOp.scrambles, List.append_nil]
    rcases hcreate : s.graph.createEdge fromNode toNode label with ⟨g, _ | id⟩
    · rw [Graph.eq_of_createEdge_error hcreate]
      exact .inl ⟨rfl, hstage⟩
    · refine .append fun r hr => ?_
      have hok : (s.graph.createEdge fromNode toNode label).2 = .ok id := by rw [hcreate]
      have h := hstage.createEdge orders' hop.1 hok hr
      rwa [hcreate] at h
  | deleteEdge id =>
    exact .append fun r hr => hstage'.deleteEdge _ (hsame.symm ▸ hop) hr
  | setNodeProperty id key value =>
    exact .append fun r hr => hstage'.setNodeProperty _ hr
  | setEdgeProperty id key value =>
    exact .append fun r hr => hstage'.setEdgeProperty _ (hsame.symm ▸ hop.1) hr

/-- Every guarded operation is replayed. -/
theorem Replays.step {orders' : ℕ → IterOrder × IterOrder} {s : LoggedGraph}
    (hs : s.Replays orders') (orders : ℕ → IterOrder × IterOrder) {op : GraphOp × UInt64}
    (hop : s.Guard op) : (s.step orders op).Replays orders' := by
  obtain ⟨state, happly, hstage⟩ := hs
  rcases replaysStep hstage orders (orders' s.log.length) hop with
    ⟨hlog, hnext⟩ | ⟨r, state', hlog, hrecord, hnext⟩
  · exact ⟨state, hlog ▸ happly, hnext⟩
  · refine ⟨state', ?_, hnext⟩
    rw [hlog, applyRecords_append, happly, Except.bind, Nat.zero_add, applyRecords, hrecord]
    rfl

end LoggedGraph

/-- **Recovery replays to the same graph.**  When every operation of a run is guarded, recovering the
log of the run into an empty graph succeeds and gives a graph isomorphic to the logged one, in
whatever orders the edge sets are iterated in the two runs. -/
theorem recover_isomorphic (orders orders' : ℕ → IterOrder × IterOrder)
    (ops : List (GraphOp × UInt64))
    (hguard : Along (LoggedGraph.step orders) LoggedGraph.Guard .start ops) :
    ∃ g' lsn, recover orders' (LoggedGraph.run orders ops).file .new = .ok (g', lsn) ∧
      Graph.Isomorphic (LoggedGraph.run orders ops).graph g' := by
  have hwritten : (LoggedGraph.run orders ops).LogWritten :=
    inv_foldl (fun _ _ hs hop => hs.step orders hop) LoggedGraph.logWritten_start hguard
  have hreplays : (LoggedGraph.run orders ops).Replays orders' :=
    inv_foldl (fun _ _ hs hop => hs.step orders hop) (LoggedGraph.replays_start orders') hguard
  obtain ⟨state, happly, ⟨π, hfollows⟩, -⟩ := hreplays
  refine ⟨state.1, ((LoggedGraph.run orders ops).log.getLast?.map (·.lsn)).getD 0, ?_,
    hfollows.isomorphic⟩
  rw [recover, hwritten.scanFile]
  simp only [happly]
  rfl

/-- A run in which a node goes with two of its edges, one of whose slots is used again; the edges
addressed by their ids are in other slots. -/
def sampleOps : List (GraphOp × UInt64) :=
  [(.createNode "P", 1), (.createNode "Q", 2), (.createEdge 1 1 "LOOP", 3),
    (.createEdge 0 1 "A", 4), (.createEdge 1 0 "B", 5), (.deleteNode 0, 6), (.createNode "R", 7),
    (.createEdge 0 1 "C", 8), (.setEdgeProperty 0 "w" (.int 1), 9),
    (.setNodeProperty 0 "x" (.bool true), 10), (.createEdge 0 9 "D", 11), (.deleteEdge 0, 12)]

theorem recover_sampleOps_isomorphic :
    ∃ g' lsn, recover (fun _ => (.listed, .listed))
        (LoggedGraph.run (fun _ => (.listed, .listed)) sampleOps).file .new = .ok (g', lsn) ∧
      Graph.Isomorphic (LoggedGraph.run (fun _ => (.listed, .listed)) sampleOps).graph g' := by
  refine recover_isomorphic _ _ sampleOps ?_
  decide +kernel

/-- The elements of the model's sets in the opposite order. -/
def IterOrder.reversed : IterOrder :=
  ⟨fun s => s.toList.reverse, fun _ => List.reverse_perm _⟩

/-- A node goes with two edges; two new edges take their slots, and one of them is deleted. -/
def reusedSlotOps : List (GraphOp × UInt64) :=
  [(.createNode "", 1), (.createNode "", 2), (.createEdge 0 1 "A", 3), (.createEdge 0 1 "B", 4),
    (.deleteNode 0, 5), (.createEdge 1 1 "X", 6), (.createEdge 1 1 "Y", 7), (.deleteEdge 0, 8)]

/-- The labels of the live edges. -/
def Graph.edgeLabels (g : Graph) : List String := g.edges.filterMap (·.map (·.label))

lemma Graph.label_mem_edgeLabels {g : Graph} {e : EdgeId} {c : Edge} (h : g.getEdge e = some c) :
    c.label ∈ g.edgeLabels := by
  refine List.mem_filterMap.mpr ⟨some c, ?_, rfl⟩
  rw [← h, Graph.getEdge, List.getD_eq_getElem _ _ (toNat_lt_of_getEdge h)]
  exact List.getElem_mem _

/-- With another iteration order in the recovered run, the other edge is deleted. -/
theorem recover_deletes_other_edge :
    ¬ ∀ (orders orders' : ℕ → IterOrder × IterOrder) (ops : List (GraphOp × UInt64)),
      ∃ g' lsn, recover orders' (LoggedGraph.run orders ops).file .new = .ok (g', lsn) ∧
        Graph.Isomorphic (LoggedGraph.run orders ops).graph g' := by
  intro h
  obtain ⟨g', lsn, hrecover, ν, ε, hiso⟩ :=
    h (fun _ => (.listed, .listed)) (fun _ => (.reversed, .listed)) reusedSlotOps
  have hlabels : ((recover (fun _ => (.reversed, .listed))
      (LoggedGraph.run (fun _ => (.listed, .listed)) reusedSlotOps).file .new).toOption.map
        (·.1.edgeLabels)) = some ["X"] := by decide +kernel
  have hkept : ((LoggedGraph.run (fun _ => (.listed, .listed)) reusedSlotOps).graph.getEdge 1).map
      (·.label) = some "Y" := by decide +kernel
  rw [hrecover] at hlabels
  obtain ⟨a, ha, hlabel⟩ := Option.map_eq_some_iff.mp hkept
  obtain ⟨b, hb, hlabel', -⟩ := hiso.edge 1 a ha
  have hmem := Graph.label_mem_edgeLabels hb
  have hX : g'.edgeLabels = ["X"] := Option.some.inj hlabels
  rw [hX, hlabel', hlabel] at hmem
  exact absurd hmem (by decide)

end Maharit
