import MaharitDb.Io.Csv

/-!
# Where the two CSV loaders agree

The bulk loader builds the graph of the importer if and only if there are no rows, or no label cell has a colon and the
configuration lets the loop run: the importer splits a label cell at its colons, and the bulk loader takes it as one
label.
-/

namespace Maharit

namespace Io

/-! ## Creating nodes one after the other -/

/-- What adding a node does to the slots. -/
structure AddsNode (g g' : Graph) (id : NodeId) (n : Node) : Prop where
  valid : g'.Valid
  dead : g.getNode id = none
  getNode : ∀ m, g'.getNode m = if m = id then some n else g.getNode m
  nodeFreeList : g'.nodeFreeList = g.nodeFreeList.tail
  nodes_length : g'.nodes.length = g.nodes.length + if g.nodeFreeList = [] then 1 else 0

/-- The id of the next node. -/
def nextNodeId (g : Graph) : NodeId := g.nodeFreeList.head?.getD (UInt64.ofNat g.nodes.length)

/-- The next id and the length after a creation do not depend on the labels. -/
lemma createNodeWithLabels_slots (g : Graph) (labels : List String) :
    (g.createNodeWithLabels labels).2 = nextNodeId g ∧
    (g.createNodeWithLabels labels).1.nodes.length = g.nodes.length + if g.nodeFreeList = [] then 1 else 0 := by
  unfold Graph.createNodeWithLabels nextNodeId
  rcases hfree : g.nodeFreeList with - | ⟨freed, rest⟩
  · dsimp only
    refine ⟨rfl, ?_⟩
    rw [(Graph.labelIndexAddNode_rest _ _).1, if_pos rfl]
    simp
  · dsimp only
    refine ⟨rfl, ?_⟩
    rw [(Graph.labelIndexAddNode_rest _ _).1, if_neg (List.cons_ne_nil freed rest)]
    simp

lemma addsNode {g : Graph} (hg : g.Valid) (hlen : g.nodes.length < 2 ^ 64) (labels : List String) (entries : Entries) :
    AddsNode g (setNodeProperties (g.createNodeWithLabels labels).1 (g.createNodeWithLabels labels).2 entries)
      (nextNodeId g) ⟨nextNodeId g, labels, toProperties entries⟩ := by
  obtain ⟨hid, hlength⟩ := createNodeWithLabels_slots g labels
  have hcreate := hg.createsNode hlen labels
  rw [hid] at hcreate ⊢
  rw [setNodeProperties, Graph.foldl_setNodeProperty]
  refine ⟨(hcreate.valid hg).modifyNode _ _, hcreate.dead, fun m => ?_, ?_, ?_⟩
  · rw [Graph.getNode_modifyNode, hcreate.getNode]
    split
    · rfl
    · rfl
  · exact hcreate.nodeFreeList
  · simpa [Graph.modifyNode] using hlength

/-- A node stays as it is while others are added. -/
lemma getNode_foldl_addNodeRecord {ns : List NodeRecord} {b : Building} (hvalid : b.1.Valid)
    (hlen : b.1.nodes.length + ns.length < 2 ^ 64) {id : NodeId} {n : Node} (hn : b.1.getNode id = some n) :
    (ns.foldl addNodeRecord b).1.getNode id = some n := by
  induction ns generalizing b with
  | nil => exact hn
  | cons r ns ih =>
    rw [List.length_cons] at hlen
    have hadds : AddsNode b.1 (addNodeRecord b r).1 _ _ := addsNode hvalid (by omega) r.labels r.entries
    rw [List.foldl_cons]
    refine ih hadds.valid ?_ ?_
    · have hlength := hadds.nodes_length
      split_ifs at hlength <;> omega
    · have hne : id ≠ nextNodeId b.1 := by
        rintro rfl
        rw [hadds.dead] at hn
        cases hn
      rw [hadds.getNode, if_neg hne]
      exact hn

/-- Two runs over the same number of records create the same ids, each with the labels of its own records. -/
lemma exists_created {ns ns' : List NodeRecord} (hcount : ns.length = ns'.length) (b b' : Building)
    (hvalid : b.1.Valid) (hvalid' : b'.1.Valid) (hfree : b.1.nodeFreeList = b'.1.nodeFreeList)
    (hnodes : b.1.nodes.length = b'.1.nodes.length) (hlen : b.1.nodes.length + ns.length < 2 ^ 64)
    {i : ℕ} {r r' : NodeRecord} (hr : ns[i]? = some r) (hr' : ns'[i]? = some r') :
    ∃ id n n', (ns.foldl addNodeRecord b).1.getNode id = some n ∧ n.labels = r.labels ∧
      (ns'.foldl addNodeRecord b').1.getNode id = some n' ∧ n'.labels = r'.labels := by
  induction ns generalizing ns' b b' i with
  | nil => simp at hr
  | cons s ns ih =>
    obtain ⟨s', ns', rfl⟩ : ∃ s' rest, ns' = s' :: rest := by
      refine List.exists_cons_of_length_pos ?_
      rw [← hcount]
      simp
    rw [List.length_cons, List.length_cons] at hcount
    rw [List.length_cons] at hlen
    have hadds : AddsNode b.1 (addNodeRecord b s).1 _ _ := addsNode hvalid (by omega) s.labels s.entries
    have hadds' : AddsNode b'.1 (addNodeRecord b' s').1 _ _ := addsNode hvalid' (by omega) s'.labels s'.entries
    have hlength := hadds.nodes_length
    have hlength' := hadds'.nodes_length
    rw [hfree] at hlength
    have hbound : (addNodeRecord b s).1.nodes.length + ns.length < 2 ^ 64 := by
      split_ifs at hlength <;> omega
    have hsame : (addNodeRecord b s).1.nodes.length = (addNodeRecord b' s').1.nodes.length := by
      rw [hlength, hlength', hnodes]
    rw [List.foldl_cons, List.foldl_cons]
    rcases i with - | i
    · -- the first records: their nodes are created now and stay
      obtain rfl : s = r := by simpa using hr
      obtain rfl : s' = r' := by simpa using hr'
      have hid : nextNodeId b'.1 = nextNodeId b.1 := by rw [nextNodeId, nextNodeId, hfree, hnodes]
      have hnew := hadds.getNode (nextNodeId b.1)
      have hnew' := hadds'.getNode (nextNodeId b.1)
      rw [if_pos rfl] at hnew
      rw [hid, if_pos rfl] at hnew'
      exact ⟨_, _, _, getNode_foldl_addNodeRecord hadds.valid hbound hnew, rfl,
        getNode_foldl_addNodeRecord hadds'.valid (by omega) hnew', rfl⟩
    · refine ih (by omega) _ _ hadds.valid hadds'.valid ?_ hsame hbound (by simpa using hr) (by simpa using hr')
      rw [hadds.nodeFreeList, hadds'.nodeFreeList, hfree]

/-! ## The runs of the loaders -/

/-- A row of the nodes as the importer reads it. -/
def csvRecord (headers : List String) (record : Record) : NodeRecord :=
  ⟨cell record 0, Backup.splitLabels (cell record 1), cellEntries CsvImporter.parseValue headers 2 record⟩

/-- A row of the nodes as the bulk loader reads it. -/
def bulkRecord (headers : List String) (record : Record) : NodeRecord :=
  ⟨cell record 0, BulkLoader.nodeLabels (cell record 1), cellEntries BulkLoader.parseValue headers 2 record⟩

/-- The importer succeeds when every row is read. -/
lemma foldlM_importNode {headers : List String} {records : List (Except String Record)} {b b' : Building}
    (h : records.foldlM (CsvImporter.importNode headers) b = .ok b') :
    ∃ rows : List Record, records = rows.map .ok ∧ b' = (rows.map (csvRecord headers)).foldl addNodeRecord b := by
  induction records generalizing b with
  | nil =>
    obtain rfl : b = b' := Except.ok.inj h
    exact ⟨[], rfl, rfl⟩
  | cons result records ih =>
    rcases result with e | record
    · cases h
    · obtain ⟨rows, rfl, rfl⟩ := ih (b := addNodeRecord b (csvRecord headers record)) h
      exact ⟨record :: rows, rfl, rfl⟩

variable {config : BulkConfig}

/-- A loop without errors goes through all rows. -/
lemma loop_ok {σ : Type} (hmax : config.maxErrors ≠ 0) (hbatch : config.batchSize ≠ 0)
    {row : ℕ → σ × BulkStats → Except String Record → Except IoError (σ × BulkStats)}
    {step : σ → Except String Record → Except IoError σ} {records : List (Except String Record)}
    (hrow : ∀ r ∈ records, ∀ idx s stats s', step s r = .ok s' → ∃ stats', row idx (s, stats) r = .ok (s', stats') ∧
      stats'.errors = stats.errors) {i : ℕ} {s s' : σ} {stats : BulkStats} (hstats : stats.errors = 0)
    (h : records.foldlM step s = .ok s') :
    ∃ stats', BulkLoader.loop config row i records (s, stats) = .ok (s', stats') := by
  induction records generalizing i s stats with
  | nil =>
    obtain rfl : s = s' := Except.ok.inj h
    exact ⟨stats, rfl⟩
  | cons r records ih =>
    rw [List.foldlM_cons] at h
    rcases hs : step s r with e | s₁
    · rw [hs] at h
      cases h
    · rw [hs] at h
      rw [List.forall_mem_cons] at hrow
      obtain ⟨stats₁, hfirst, herrors⟩ := hrow.1 i s stats s₁ hs
      obtain ⟨stats', hrest⟩ := ih hrow.2 (i := i + 1) (herrors.trans hstats) h
      refine ⟨stats', ?_⟩
      rw [BulkLoader.loop, if_neg (by rw [hstats]; omega), hfirst]
      dsimp only
      rw [if_neg hbatch]
      exact hrest

lemma importNodes_ok {g : Graph} {file : CsvFile} {b : Building} (h : CsvImporter.importNodes g file = .ok b) :
    ∃ headers, file.headers = .ok headers ∧ ¬ headers.length < 2 ∧
      file.records.foldlM (CsvImporter.importNode headers) (g, ∅) = .ok b := by
  unfold CsvImporter.importNodes at h
  rcases hheaders : file.headers with e | headers
  · rw [hheaders] at h
    cases h
  · rw [hheaders] at h
    by_cases hshort : headers.length < 2
    · simp [hshort, Except.mapError, bind, Except.bind, throw, throwThe, MonadExceptOf.throw] at h
    · refine ⟨headers, rfl, hshort, ?_⟩
      simpa [hshort, Except.mapError, bind, Except.bind, pure, Except.pure] using h

lemma importEdges_ok {g g' : Graph} {file : CsvFile} {idMap : HashMap String NodeId}
    (h : CsvImporter.importEdges g file idMap = .ok g') :
    ∃ headers, file.headers = .ok headers ∧ ¬ headers.length < 3 ∧
      file.records.foldlM (CsvImporter.importEdge headers idMap) g = .ok g' := by
  unfold CsvImporter.importEdges at h
  rcases hheaders : file.headers with e | headers
  · rw [hheaders] at h
    cases h
  · rw [hheaders] at h
    by_cases hshort : headers.length < 3
    · simp [hshort, Except.mapError, bind, Except.bind, throw, throwThe, MonadExceptOf.throw] at h
    · refine ⟨headers, rfl, hshort, ?_⟩
      simpa [hshort, Except.mapError, bind, Except.bind, pure, Except.pure] using h

/-- A row of the edges that the importer reads is read in the same way by the bulk loader. -/
lemma loadEdge_of_importEdge {headers : List String} {idMap : HashMap String NodeId} {g g' : Graph}
    {result : Except String Record} (h : CsvImporter.importEdge headers idMap g result = .ok g') (idx : ℕ)
    (stats : BulkStats) : ∃ stats', BulkLoader.loadEdge config headers idMap idx (g, stats) result = .ok (g', stats') ∧
      stats'.errors = stats.errors := by
  rcases result with e | record
  · cases h
  · unfold CsvImporter.importEdge findNode at h
    unfold BulkLoader.loadEdge
    rcases hfrom : idMap.lookup (cell record 0) with - | fromId
    · simp [hfrom, Except.mapError, bind, Except.bind] at h
    rcases hto : idMap.lookup (cell record 1) with - | toId
    · simp [hfrom, hto, Except.mapError, bind, Except.bind] at h
    rcases hadd : addEdge g fromId toId (cell record 2) (cellEntries CsvImporter.parseValue headers 3 record) with e | g₁
    · simp [hfrom, hto, hadd, Except.mapError, bind, Except.bind] at h
    · obtain rfl : g₁ = g' := by simpa [hfrom, hto, hadd, Except.mapError, bind, Except.bind] using h
      have hadd' : addEdge g fromId toId (cell record 2) (cellEntries BulkLoader.parseValue headers 3 record) =
          .ok g₁ := hadd
      refine ⟨{ stats with edgesImported := stats.edgesImported + 1 }, ?_, rfl⟩
      dsimp only
      rw [hfrom, hto]
      dsimp only
      rw [hadd']

/-- An edge leaves the nodes as they are. -/
lemma nodes_addEdge {g g' : Graph} {fromNode toNode : NodeId} {label : String} {entries : Entries}
    (h : addEdge g fromNode toNode label entries = .ok g') : g'.nodes = g.nodes := by
  unfold addEdge at h
  have hcreate := Graph.nodes_createEdge g fromNode toNode label
  rcases hresult : g.createEdge fromNode toNode label with ⟨g₁, e | id⟩
  · rw [hresult] at h
    cases h
  · rw [hresult] at h hcreate
    rw [← Except.ok.inj h, setEdgeProperties, Graph.foldl_setEdgeProperty]
    exact hcreate

/-- A row of the edges leaves the nodes as they are. -/
lemma nodes_loadEdge {headers : List String} {idMap : HashMap String NodeId} {idx : ℕ} {state state' : Graph × BulkStats}
    {result : Except String Record} (h : BulkLoader.loadEdge config headers idMap idx state result = .ok state') :
    state'.1.nodes = state.1.nodes := by
  unfold BulkLoader.loadEdge at h
  split at h
  · split at h
    · split at h
      · next hadd =>
        rw [← Except.ok.inj h]
        exact nodes_addEdge hadd
      · split_ifs at h
        rw [← Except.ok.inj h]
    · split_ifs at h
      rw [← Except.ok.inj h]
  · split_ifs at h
    rw [← Except.ok.inj h]

/-- What every row keeps, the loop keeps. -/
lemma loop_keeps {σ : Type} {row : ℕ → σ × BulkStats → Except String Record → Except IoError (σ × BulkStats)}
    {P : σ → Prop} (hrow : ∀ idx state r state', row idx state r = .ok state' → P state.1 → P state'.1)
    {records : List (Except String Record)} {i : ℕ} {state state' : σ × BulkStats}
    (h : BulkLoader.loop config row i records state = .ok state') (hstart : P state.1) : P state'.1 := by
  induction records generalizing i state with
  | nil => rwa [← Except.ok.inj h]
  | cons r records ih =>
    rw [BulkLoader.loop] at h
    by_cases hmax : config.maxErrors ≤ state.2.errors
    · rw [if_pos hmax] at h
      rwa [← Except.ok.inj h]
    · rw [if_neg hmax] at h
      rcases hr : row i state r with e | state₁
      · rw [hr] at h
        cases h
      · rw [hr] at h
        dsimp only at h
        by_cases hbatch : config.batchSize = 0
        · rw [if_pos hbatch] at h
          cases h
        · rw [if_neg hbatch] at h
          exact ih h (hrow i state r state₁ hr hstart)

/-- The bulk loader leaves the nodes as they are when it reads the edges. -/
lemma nodes_loadEdges {g g' : Graph} {file : CsvFile} {idMap : HashMap String NodeId} {stats : BulkStats}
    (h : BulkLoader.loadEdges config g file idMap = .ok (g', stats)) : g'.nodes = g.nodes := by
  unfold BulkLoader.loadEdges at h
  rcases hheaders : file.headers with e | headers
  · rw [hheaders] at h
    cases h
  · rw [hheaders] at h
    dsimp only at h
    split_ifs at h
    refine loop_keeps (P := fun f => f.nodes = g.nodes) (fun idx state r state' hr hstate => ?_) h rfl
    rw [nodes_loadEdge hr]
    exact hstate

/-! ## Agreement -/

/-- The importer on the two files. -/
def csvLoad (g : Graph) (nodes edges : CsvFile) : Except IoError Building := do
  let b ← CsvImporter.importNodes g nodes
  let g ← CsvImporter.importEdges b.1 edges b.2
  return (g, b.2)

/-- The bulk loader on the two files. -/
def bulkLoad (config : BulkConfig) (g : Graph) (nodes edges : CsvFile) : Except BulkFailure Building := do
  let (b, _) ← BulkLoader.loadNodes config g nodes
  let (g, _) ← BulkLoader.loadEdges config b.1 edges b.2
  return (g, b.2)

/-- The same nodes and edges and the same id map. -/
structure SameLoad (a b : Building) : Prop where
  nodeCount : a.1.nodeCount = b.1.nodeCount
  edgeCount : a.1.edgeCount = b.1.edgeCount
  node : ∀ id, a.1.getNode id = b.1.getNode id
  edge : ∀ id, a.1.getEdge id = b.1.getEdge id
  idMap : ∀ key, a.2.lookup key = b.2.lookup key

/-- The bulk loader builds what the importer built. -/
def Agrees (config : BulkConfig) (g : Graph) (nodes edges : CsvFile) (a : Building) : Prop :=
  ∃ b, bulkLoad config g nodes edges = .ok b ∧ SameLoad a b

/-- The node of the last row is in the id map. -/
lemma exists_lookup_foldl (ns : List NodeRecord) (hns : ns ≠ []) (b : Building) :
    ∃ key, ((ns.foldl addNodeRecord b).2.lookup key).isSome := by
  rcases List.eq_nil_or_concat ns with rfl | ⟨init, last, rfl⟩
  · exact absurd rfl hns
  · refine ⟨last.key, ?_⟩
    rw [List.concat_eq_append, List.foldl_append, List.foldl_cons, List.foldl_nil]
    change (AList.lookup last.key (AList.insert last.key _ _)).isSome
    rw [AList.lookup_insert]
    rfl

/-- Without nodes there are no edges. -/
lemma records_eq_nil {headers : List String} {records : List (Except String Record)} {g g' : Graph}
    (h : records.foldlM (CsvImporter.importEdge headers ∅) g = .ok g') : records = [] := by
  rcases records with - | ⟨r, records⟩
  · rfl
  · rcases r with e | record
    · cases h
    · simp [CsvImporter.importEdge, findNode, Except.mapError, bind, Except.bind] at h

lemma splitLabels_eq_nodeLabels_iff (s : String) : Backup.splitLabels s = BulkLoader.nodeLabels s ↔ ':' ∉ s.toList := by
  unfold Backup.splitLabels BulkLoader.nodeLabels
  by_cases hempty : s.isEmpty
  · rw [if_pos hempty, if_pos hempty, String.isEmpty_iff.mp hempty]
    simp
  · rw [if_neg hempty, if_neg hempty]
    constructor
    · intro hone
      obtain ⟨piece, hpieces, hpiece⟩ := List.map_eq_singleton_iff.mp hone
      have hnot : ':' ∉ piece := Backup.notMem_of_mem_splitOn (by rw [hpieces]; exact List.mem_cons_self)
      rwa [← hpiece, String.toList_ofList]
    · intro hcolon
      rw [NumberText.splitOn_of_not_mem hcolon, List.map_singleton, String.ofList_toList]

/-- The bulk loader on rows of nodes that are all read. -/
lemma loop_loadNode (hmax : config.maxErrors ≠ 0) (hbatch : config.batchSize ≠ 0) (headers : List String)
    (rows : List Record) (b : Building) : ∃ stats, BulkLoader.loop config (BulkLoader.loadNode config headers) 0
      (rows.map .ok) (b, .empty) = .ok ((rows.map (bulkRecord headers)).foldl addNodeRecord b, stats) := by
  let step : Building → Except String Record → Except IoError Building := fun b r =>
    (r.mapError IoError.csv).map fun record => addNodeRecord b (bulkRecord headers record)
  have hsteps : ∀ b, (rows.map Except.ok).foldlM step b =
      .ok ((rows.map (bulkRecord headers)).foldl addNodeRecord b) := by
    induction rows with
    | nil => exact fun b => rfl
    | cons record rows ih => exact fun b => ih (addNodeRecord b (bulkRecord headers record))
  refine loop_ok hmax hbatch (fun r hr idx s stats s' hs => ?_) rfl (hsteps b)
  obtain ⟨record, -, rfl⟩ := List.mem_map.mp hr
  obtain rfl : addNodeRecord s (bulkRecord headers record) = s' := Except.ok.inj hs
  exact ⟨{ stats with nodesImported := stats.nodesImported + 1 }, rfl, rfl⟩

/-- The importer leaves the nodes as they are when it reads the edges. -/
lemma nodes_foldlM_importEdge {headers : List String} {idMap : HashMap String NodeId}
    {records : List (Except String Record)} {g g' : Graph}
    (h : records.foldlM (CsvImporter.importEdge headers idMap) g = .ok g') : g'.nodes = g.nodes := by
  induction records generalizing g with
  | nil => rw [← Except.ok.inj h]
  | cons r records ih =>
    rw [List.foldlM_cons] at h
    rcases hr : CsvImporter.importEdge headers idMap g r with e | g₁
    · rw [hr] at h
      cases h
    · rw [hr] at h
      obtain ⟨_, hload, -⟩ := @loadEdge_of_importEdge ⟨1, false, 1⟩ _ _ _ _ _ hr 0 .empty
      rw [ih h]
      exact nodes_loadEdge hload

/-- The runs of the importer over the two files. -/
structure CsvRun (g : Graph) (nodes edges : CsvFile) (a : Building) (headers headers' : List String)
    (rows : List Record) (b : Building) : Prop where
  nodeHeaders : nodes.headers = .ok headers
  nodeWide : ¬ headers.length < 2
  edgeHeaders : edges.headers = .ok headers'
  edgeWide : ¬ headers'.length < 3
  records : nodes.records = rows.map .ok
  nodes_eq : b = (rows.map (csvRecord headers)).foldl addNodeRecord (g, ∅)
  edges_eq : edges.records.foldlM (CsvImporter.importEdge headers' b.2) b.1 = .ok a.1
  idMap_eq : a.2 = b.2

lemma exists_csvRun {g : Graph} {nodes edges : CsvFile} {a : Building} (h : csvLoad g nodes edges = .ok a) :
    ∃ headers headers' rows b, CsvRun g nodes edges a headers headers' rows b := by
  rcases hnodes : CsvImporter.importNodes g nodes with e | b
  · simp [csvLoad, hnodes, bind, Except.bind] at h
  rcases hedges : CsvImporter.importEdges b.1 edges b.2 with e | g'
  · simp [csvLoad, hnodes, hedges, bind, Except.bind] at h
  simp only [csvLoad, hnodes, hedges, bind, Except.bind, pure, Except.pure, Except.ok.injEq] at h
  obtain ⟨headers, hheaders, hwide, hfold⟩ := importNodes_ok hnodes
  obtain ⟨headers', hheaders', hwide', hfold'⟩ := importEdges_ok hedges
  obtain ⟨rows, hrows, hb⟩ := foldlM_importNode hfold
  subst h
  exact ⟨headers, headers', rows, b, hheaders, hwide, hheaders', hwide', hrows, hb, hfold', rfl⟩

section CsvRun

variable {g : Graph} {nodes edges : CsvFile} {a b : Building} {headers headers' : List String} {rows : List Record}

lemma CsvRun.loadNodes_eq (h : CsvRun g nodes edges a headers headers' rows b) :
    BulkLoader.loadNodes config g nodes =
      BulkLoader.loop config (BulkLoader.loadNode config headers) 0 (rows.map .ok) ((g, ∅), .empty) := by
  rw [BulkLoader.loadNodes, h.nodeHeaders]
  dsimp only
  rw [if_neg h.nodeWide, h.records]

lemma CsvRun.loadEdges_eq (h : CsvRun g nodes edges a headers headers' rows b) (f : Graph)
    (idMap : HashMap String NodeId) : BulkLoader.loadEdges config f edges idMap =
      BulkLoader.loop config (BulkLoader.loadEdge config headers' idMap) 0 edges.records (f, .empty) := by
  rw [BulkLoader.loadEdges, h.edgeHeaders]
  dsimp only
  rw [if_neg h.edgeWide]

/-- The bulk loader builds the graph of the importer when its loops run and it makes the same labels. -/
lemma CsvRun.agrees (h : CsvRun g nodes edges a headers headers' rows b)
    (hcondition : rows = [] ∨ (config.maxErrors ≠ 0 ∧ config.batchSize ≠ 0 ∧
      ∀ record ∈ rows, ':' ∉ (cell record 1).toList)) : Agrees config g nodes edges a := by
  have hb := h.nodes_eq
  have hedges := h.edges_eq
  obtain ⟨stats, hnodes⟩ : ∃ stats, BulkLoader.loadNodes config g nodes = .ok (b, stats) := by
    rw [h.loadNodes_eq, hb]
    rcases hcondition with rfl | ⟨hmax, hbatch, hcolon⟩
    · exact ⟨.empty, rfl⟩
    · have hsame : rows.map (csvRecord headers) = rows.map (bulkRecord headers) := by
        refine List.map_congr_left fun record hrecord => ?_
        have hlabels := (splitLabels_eq_nodeLabels_iff _).mpr (hcolon record hrecord)
        rw [csvRecord, hlabels]
        rfl
      rw [hsame]
      exact loop_loadNode hmax hbatch headers rows (g, ∅)
  obtain ⟨stats', hedges'⟩ : ∃ stats', BulkLoader.loadEdges config b.1 edges b.2 = .ok (a.1, stats') := by
    rw [h.loadEdges_eq]
    rcases hcondition with rfl | ⟨hmax, hbatch, -⟩
    · -- without nodes the importer has read no edge
      rw [hb] at hedges ⊢
      have hnil := records_eq_nil hedges
      rw [hnil] at hedges ⊢
      exact ⟨.empty, congrArg (fun f => Except.ok (f, BulkStats.empty)) (Except.ok.inj hedges)⟩
    · exact loop_ok hmax hbatch (fun r _ idx s stats s' hs => loadEdge_of_importEdge hs idx stats) rfl hedges
  refine ⟨a, ?_, ⟨rfl, rfl, fun _ => rfl, fun _ => rfl, fun _ => rfl⟩⟩
  simp only [bulkLoad, hnodes, hedges', bind, Except.bind, pure, Except.pure]
  rw [← h.idMap_eq]

/-- What the bulk loader must do to agree. -/
lemma CsvRun.of_agrees (h : CsvRun g nodes edges a headers headers' rows b) (hg : g.Valid)
    (hfits : g.nodes.length + rows.length < 2 ^ 64) (hne : rows ≠ []) (hagrees : Agrees config g nodes edges a) :
    config.maxErrors ≠ 0 ∧ config.batchSize ≠ 0 ∧ ∀ record ∈ rows, ':' ∉ (cell record 1).toList := by
  obtain ⟨c, hload, hsame⟩ := hagrees
  rcases hc' : BulkLoader.loadNodes config g nodes with e | ⟨c', stats⟩
  · simp [bulkLoad, hc', bind, Except.bind] at hload
  rcases hcEdges : BulkLoader.loadEdges config c'.1 edges c'.2 with e | ⟨f, stats'⟩
  · simp [bulkLoad, hc', hcEdges, bind, Except.bind] at hload
  simp only [bulkLoad, hc', hcEdges, bind, Except.bind, pure, Except.pure, Except.ok.injEq] at hload
  subst hload
  rw [h.loadNodes_eq] at hc'
  obtain ⟨row, rest, rfl⟩ := List.exists_cons_of_ne_nil hne
  have hmax : config.maxErrors ≠ 0 := by
    intro hzero
    -- the loop stops before the first row
    rw [List.map_cons, BulkLoader.loop, if_pos (by rw [hzero]; exact Nat.zero_le _)] at hc'
    obtain ⟨key, hkey⟩ := exists_lookup_foldl ((row :: rest).map (csvRecord headers)) (by simp) (g, ∅)
    have hlookup := hsame.idMap key
    rw [h.idMap_eq, h.nodes_eq, ← (Prod.mk.inj (Except.ok.inj hc')).1] at hlookup
    rw [hlookup] at hkey
    simp at hkey
  have hbatch : config.batchSize ≠ 0 := by
    intro hzero
    rw [List.map_cons, BulkLoader.loop, if_neg (by simpa [BulkStats.empty] using hmax), BulkLoader.loadNode] at hc'
    dsimp only at hc'
    rw [if_pos hzero] at hc'
    cases hc'
  refine ⟨hmax, hbatch, fun record hrecord => ?_⟩
  obtain ⟨_, hrun⟩ := loop_loadNode hmax hbatch headers (row :: rest) (g, ∅)
  rw [hrun] at hc'
  obtain rfl := (Prod.mk.inj (Except.ok.inj hc')).1
  obtain ⟨i, hi⟩ := List.mem_iff_getElem?.mp hrecord
  -- the node of the row has the labels of both loaders
  obtain ⟨id, n, n', hn, hlabels, hn', hlabels'⟩ := exists_created
    (show ((row :: rest).map (csvRecord headers)).length = ((row :: rest).map (bulkRecord headers)).length by
      rw [List.length_map, List.length_map])
    (g, ∅) (g, ∅) hg hg rfl rfl (by rw [List.length_map]; exact hfits)
    (by rw [List.getElem?_map, hi, Option.map_some]) (by rw [List.getElem?_map, hi, Option.map_some])
  have hboth := hsame.node id
  rw [Graph.getNode, nodes_foldlM_importEdge h.edges_eq, h.nodes_eq, Graph.getNode, nodes_loadEdges hcEdges] at hboth
  rw [Graph.getNode] at hn hn'
  rw [hn, hn', Option.some_inj] at hboth
  rw [← splitLabels_eq_nodeLabels_iff]
  have heq : (csvRecord headers record).labels = (bulkRecord headers record).labels := by
    rw [← hlabels, ← hlabels', hboth]
  exact heq

end CsvRun

/-- The bulk loader builds the graph of the importer if and only if there are no rows of nodes, or the loop runs over all
rows and no label cell has a colon. -/
theorem bulk_agrees_iff {g : Graph} {nodes edges : CsvFile} {a : Building} (hg : g.Valid)
    (hfits : g.nodes.length + nodes.records.length < 2 ^ 64) (himport : csvLoad g nodes edges = .ok a) :
    Agrees config g nodes edges a ↔ nodes.records = [] ∨ (config.maxErrors ≠ 0 ∧ config.batchSize ≠ 0 ∧
      ∀ record, .ok record ∈ nodes.records → ':' ∉ (cell record 1).toList) := by
  obtain ⟨headers, headers', rows, b, hrun⟩ := exists_csvRun himport
  have hrecords := hrun.records
  rw [hrecords, List.length_map] at hfits
  have hmem : ∀ record, .ok record ∈ nodes.records ↔ record ∈ rows := by
    intro record
    rw [hrecords]
    simp
  have hnil : nodes.records = [] ↔ rows = [] := by rw [hrecords, List.map_eq_nil_iff]
  simp only [hmem, hnil]
  constructor
  · intro hagrees
    rw [or_iff_not_imp_left]
    exact fun hne => hrun.of_agrees hg hfits hne hagrees
  · exact hrun.agrees

/-- A table with one person who knows himself. -/
def personTable (label : String) : CsvFile := ⟨.ok ["id", "label", "age"], [.ok ["1", label, "30"]]⟩

/-- The edge of the person. -/
def knowsTable : CsvFile := ⟨.ok ["from", "to", "type"], [.ok ["1", "1", "KNOWS"]]⟩

lemma exists_csvLoad (label : String) : ∃ a, csvLoad .new (personTable label) knowsTable = .ok a :=
  ⟨_, rfl⟩

theorem bulk_agrees_person : ∃ a, csvLoad .new (personTable "Person") knowsTable = .ok a ∧
    Agrees ⟨1000, false, 1000⟩ .new (personTable "Person") knowsTable a := by
  obtain ⟨a, ha⟩ := exists_csvLoad "Person"
  refine ⟨a, ha, (bulk_agrees_iff Graph.valid_new (by decide) ha).mpr (.inr ⟨by decide, by decide, ?_⟩)⟩
  intro record hrecord
  obtain rfl : record = ["1", "Person", "30"] := by simpa [personTable] using hrecord
  decide

/-- The importer makes two labels of the cell, and the bulk loader makes one. -/
theorem bulk_not_agrees : ∃ a, csvLoad .new (personTable "Person:Admin") knowsTable = .ok a ∧
    ¬ Agrees ⟨1000, false, 1000⟩ .new (personTable "Person:Admin") knowsTable a := by
  obtain ⟨a, ha⟩ := exists_csvLoad "Person:Admin"
  refine ⟨a, ha, fun hagrees => ?_⟩
  obtain ⟨headers, headers', rows, b, hrun⟩ := exists_csvRun ha
  obtain rfl : [["1", "Person:Admin", "30"]] = rows := by
    have hrecords : [["1", "Person:Admin", "30"]].map Except.ok = rows.map (Except.ok (ε := String)) := hrun.records
    exact List.map_injective_iff.mpr (fun _ _ h => Except.ok.inj h) hrecords
  have hcolon := (hrun.of_agrees Graph.valid_new (by decide) (by simp) hagrees).2.2 _ List.mem_cons_self
  exact hcolon (by decide)

end Io

end Maharit
