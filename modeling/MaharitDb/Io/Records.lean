import MaharitDb.Storage.BackupCopy

/-!
# Building a graph from records

The importers of `maharit-io` build a graph in one way: they create a node for each record of a node, keep its new id
under the id it has in the file, and create the edges between the nodes with the ids that they name.  A graph that is
built from records of all nodes and edges of another graph, in any order, is that graph up to the ids.
-/

namespace Maharit

namespace Io

/-- The errors of `maharit-io`. -/
inductive IoError where
  | csv (message : String)
  | json (message : String)
  | invalidFormat (message : String)
  | graph (e : GraphError)
  deriving DecidableEq, Repr

/-- Properties in the order in which they are set. -/
abbrev Entries := List (Sigma fun _ : String => PropertyValue)

/-- The properties of an element after they were set one after the other. -/
def toProperties (entries : Entries) : Properties := entries.foldl (fun m p => m.insert p.1 p.2) ∅

/-- `set_property` for each of the properties of a node. -/
def setNodeProperties (g : Graph) (id : NodeId) (entries : Entries) : Graph :=
  entries.foldl (fun g p => g.setNodeProperty id p.1 p.2) g

/-- `set_property` for each of the properties of an edge. -/
def setEdgeProperties (g : Graph) (id : EdgeId) (entries : Entries) : Graph :=
  entries.foldl (fun g p => g.setEdgeProperty id p.1 p.2) g

/-- The graph under construction, and the ids of the nodes of the file. -/
abbrev Building := Graph × HashMap String NodeId

/-- Create a node under the id that it has in the file. -/
def addNode (b : Building) (key : String) (labels : List String) (entries : Entries) : Building :=
  let (g, id) := b.1.createNodeWithLabels labels
  (setNodeProperties g id entries, b.2.insert key id)

/-- The node with an id of the file. -/
def findNode (idMap : HashMap String NodeId) (key : String) : Except IoError NodeId :=
  match idMap.lookup key with
  | some id => .ok id
  | none => .error (.invalidFormat ("Unknown node ID: " ++ key))

/-- Create an edge between two nodes. -/
def addEdge (g : Graph) (fromNode toNode : NodeId) (label : String) (entries : Entries) : Except GraphError Graph :=
  match g.createEdge fromNode toNode label with
  | (_, .error e) => .error e
  | (g, .ok id) => .ok (setEdgeProperties g id entries)

/-- What a file says about a node. -/
structure NodeRecord where
  key : String
  labels : List String
  entries : Entries
  deriving Inhabited

/-- What a file says about an edge. -/
structure EdgeRecord where
  fromKey : String
  toKey : String
  label : String
  entries : Entries
  deriving Inhabited

/-- Create a node of the file. -/
def addNodeRecord (b : Building) (n : NodeRecord) : Building := addNode b n.key n.labels n.entries

/-- Create an edge of the file. -/
def addEdgeRecord (idMap : HashMap String NodeId) (g : Graph) (e : EdgeRecord) : Except IoError Graph := do
  let fromNode ← findNode idMap e.fromKey
  let toNode ← findNode idMap e.toKey
  (addEdge g fromNode toNode e.label e.entries).mapError .graph

/-! ## The nodes -/

/-- The nodes of the records have been created. -/
structure BuiltNodes (ns : List NodeRecord) (b : Building) : Prop where
  valid : b.1.Valid
  nodes_length : b.1.nodes.length = ns.length
  nodeFreeList : b.1.nodeFreeList = []
  edges : b.1.edges = []
  edgeFreeList : b.1.edgeFreeList = []
  node : ∀ i n, ns[i]? = some n →
    b.1.getNode (UInt64.ofNat i) = some ⟨UInt64.ofNat i, n.labels, toProperties n.entries⟩
  idMap : ∀ i n, ns[i]? = some n → b.2.lookup n.key = some (UInt64.ofNat i)

lemma builtNodes_nil : BuiltNodes [] (.new, ∅) := ⟨Graph.valid_new, rfl, rfl, rfl, rfl, by simp, by simp⟩

lemma BuiltNodes.push {ns : List NodeRecord} {b : Building} (h : BuiltNodes ns b) {n : NodeRecord}
    (hnew : ∀ m ∈ ns, m.key ≠ n.key) (hlen : ns.length < 2 ^ 64) : BuiltNodes (ns ++ [n]) (addNodeRecord b n) := by
  have hlen' : b.1.nodes.length < 2 ^ 64 := h.nodes_length ▸ hlen
  obtain ⟨hid, -⟩ := Graph.nodes_createNodeWithLabels h.nodeFreeList n.labels
  have happend := h.valid.appendsNode_entries h.nodeFreeList hlen' n.labels n.entries
  have hgetNode := happend.getNode
  rw [h.nodes_length] at hid hgetNode
  refine ⟨happend.valid, ?_, happend.nodeFreeList, happend.edges.trans h.edges,
    happend.edgeFreeList.trans h.edgeFreeList, ?_, ?_⟩
  · rw [List.length_append, ← h.nodes_length]
    exact happend.nodes_length
  · intro i m hm
    have hnode := hgetNode (UInt64.ofNat i)
    rcases Backup.getElem?_push hm with ⟨hi, hm⟩ | ⟨rfl, rfl⟩
    · rw [if_neg (Backup.ofNat_ne (hi.trans hlen) hlen hi.ne)] at hnode
      exact hnode.trans (h.node i m hm)
    · rw [if_pos rfl] at hnode
      exact hnode
  · intro i m hm
    change (b.2.insert n.key (b.1.createNodeWithLabels n.labels).2).lookup m.key = _
    rw [HashMap.lookup_insert_ite, hid]
    rcases Backup.getElem?_push hm with ⟨hi, hm⟩ | ⟨rfl, rfl⟩
    · rw [if_neg (hnew m (List.mem_of_getElem? hm))]
      exact h.idMap i m hm
    · rw [if_pos rfl]

lemma BuiltNodes.foldl {done ns : List NodeRecord} {b : Building} (h : BuiltNodes done b)
    (hnodup : ((done ++ ns).map NodeRecord.key).Nodup) (hlen : (done ++ ns).length < 2 ^ 64) :
    BuiltNodes (done ++ ns) (ns.foldl addNodeRecord b) := by
  induction ns generalizing done b with
  | nil => simpa using h
  | cons n ns ih =>
    have hsplit : done ++ n :: ns = (done ++ [n]) ++ ns := by simp
    rw [hsplit] at hnodup hlen ⊢
    refine ih (h.push ?_ ?_) hnodup hlen
    · intro m hm heq
      rw [List.map_append, List.map_append, List.append_assoc] at hnodup
      have hdisjoint := (List.nodup_append.mp hnodup).2.2
      exact hdisjoint m.key (List.mem_map_of_mem hm) n.key (by simp) heq
    · refine lt_of_le_of_lt ?_ hlen
      simp

/-! ## The edges -/

/-- The edges of the records have been created. -/
structure BuiltEdges (b : Building) (es : List EdgeRecord) (g : Graph) : Prop where
  valid : g.Valid
  edges_length : g.edges.length = es.length
  edgeFreeList : g.edgeFreeList = []
  nodes : g.nodes = b.1.nodes
  nodeFreeList : g.nodeFreeList = b.1.nodeFreeList
  edge : ∀ j e, es[j]? = some e → ∃ fromNode toNode, b.2.lookup e.fromKey = some fromNode ∧
    b.2.lookup e.toKey = some toNode ∧
    g.getEdge (UInt64.ofNat j) = some ⟨UInt64.ofNat j, e.label, fromNode, toNode, toProperties e.entries⟩

/-- The ends of an edge are known and live. -/
def KnownEnds (b : Building) (e : EdgeRecord) : Prop :=
  (∃ i, b.2.lookup e.fromKey = some i ∧ (b.1.getNode i).isSome) ∧
    ∃ i, b.2.lookup e.toKey = some i ∧ (b.1.getNode i).isSome

lemma BuiltEdges.push {b : Building} {es : List EdgeRecord} {g : Graph} (h : BuiltEdges b es g) {e : EdgeRecord}
    (hends : KnownEnds b e) (hlen : es.length < 2 ^ 64) :
    ∃ g', addEdgeRecord b.2 g e = .ok g' ∧ BuiltEdges b (es ++ [e]) g' := by
  obtain ⟨⟨i, hi, hilive⟩, k, hk, hklive⟩ := hends
  have hnode : ∀ n, g.getNode n = b.1.getNode n := fun n => by rw [Graph.getNode, h.nodes, Graph.getNode]
  have hlen' : g.edges.length < 2 ^ 64 := h.edges_length ▸ hlen
  obtain ⟨hok, happend⟩ := h.valid.appendsEdge_entries h.edgeFreeList hlen' (hnode i ▸ hilive)
    (hnode k ▸ hklive) e.label e.entries
  refine ⟨_, ?_, ⟨happend.valid, ?_, happend.edgeFreeList, happend.nodes.trans h.nodes,
    happend.nodeFreeList.trans h.nodeFreeList, ?_⟩⟩
  · have hadd : addEdge g i k e.label e.entries = .ok (setEdgeProperties (g.createEdge i k e.label).1
        (UInt64.ofNat g.edges.length) e.entries) := by
      unfold addEdge
      rcases hcreate : g.createEdge i k e.label with ⟨g', x | id⟩
      · rw [hcreate] at hok
        cases hok
      · rw [hcreate] at hok
        obtain rfl : id = UInt64.ofNat g.edges.length := Except.ok.inj hok
        rfl
    have hfrom : findNode b.2 e.fromKey = .ok i := by rw [findNode, hi]
    have hto : findNode b.2 e.toKey = .ok k := by rw [findNode, hk]
    rw [addEdgeRecord, hfrom, hto]
    simp only [bind, Except.bind, hadd]
    rfl
  · rw [List.length_append, ← h.edges_length]
    exact happend.edges_length
  · intro j c hc
    have hedge := happend.getEdge (UInt64.ofNat j)
    rcases Backup.getElem?_push hc with ⟨hj, hc⟩ | ⟨rfl, rfl⟩
    · obtain ⟨fromNode, toNode, hfrom, hto, hd⟩ := h.edge j c hc
      have hj' : j ≠ g.edges.length := (h.edges_length ▸ hj).ne
      rw [if_neg (Backup.ofNat_ne (hj.trans hlen) hlen' hj')] at hedge
      exact ⟨fromNode, toNode, hfrom, hto, hedge.trans hd⟩
    · rw [if_pos (by rw [h.edges_length])] at hedge
      refine ⟨i, k, hi, hk, hedge.trans ?_⟩
      rw [h.edges_length]
      rfl

lemma BuiltEdges.foldlM {b : Building} {done es : List EdgeRecord} {g : Graph} (h : BuiltEdges b done g)
    (hends : ∀ e ∈ es, KnownEnds b e) (hlen : (done ++ es).length < 2 ^ 64) :
    ∃ g', es.foldlM (addEdgeRecord b.2) g = .ok g' ∧ BuiltEdges b (done ++ es) g' := by
  induction es generalizing done g with
  | nil => exact ⟨g, rfl, by simpa using h⟩
  | cons e es ih =>
    rw [List.forall_mem_cons] at hends
    have hsplit : done ++ e :: es = (done ++ [e]) ++ es := by simp
    have hdone : done.length < 2 ^ 64 := by
      refine lt_of_le_of_lt ?_ hlen
      simp
    rw [hsplit] at hlen ⊢
    obtain ⟨g₁, hfirst, hg₁⟩ := h.push hends.1 hdone
    obtain ⟨g', hrest, hg'⟩ := ih hg₁ hends.2 hlen
    refine ⟨g', ?_, hg'⟩
    rw [List.foldlM_cons, hfirst]
    exact hrest

/-! ## The graph -/

/-- The graph of the records: the nodes and the edges have their positions as ids. -/
structure Built (ns : List NodeRecord) (es : List EdgeRecord) (f : Graph) : Prop where
  nodes_length : f.nodes.length = ns.length
  edges_length : f.edges.length = es.length
  node : ∀ i n, ns[i]? = some n →
    f.getNode (UInt64.ofNat i) = some ⟨UInt64.ofNat i, n.labels, toProperties n.entries⟩
  edge : ∀ j e, es[j]? = some e → ∃ i k n m, ns[i]? = some n ∧ n.key = e.fromKey ∧ ns[k]? = some m ∧
    m.key = e.toKey ∧ f.getEdge (UInt64.ofNat j) =
      some ⟨UInt64.ofNat j, e.label, UInt64.ofNat i, UInt64.ofNat k, toProperties e.entries⟩

/-- Records with different keys whose edges name known nodes make a graph. -/
theorem exists_built {ns : List NodeRecord} {es : List EdgeRecord} (hnodup : (ns.map NodeRecord.key).Nodup)
    (hns : ns.length < 2 ^ 64) (hes : es.length < 2 ^ 64)
    (hends : ∀ e ∈ es, e.fromKey ∈ ns.map NodeRecord.key ∧ e.toKey ∈ ns.map NodeRecord.key) :
    ∃ f, es.foldlM (addEdgeRecord (ns.foldl addNodeRecord (.new, ∅)).2) (ns.foldl addNodeRecord (.new, ∅)).1 = .ok f ∧
      Built ns es f := by
  have hnodes : BuiltNodes ([] ++ ns) (ns.foldl addNodeRecord (.new, ∅)) :=
    builtNodes_nil.foldl (by simpa using hnodup) (by simpa using hns)
  rw [List.nil_append] at hnodes
  set b := ns.foldl addNodeRecord (.new, ∅) with hb
  have hfind : ∀ {key : String}, key ∈ ns.map NodeRecord.key → ∃ i n, ns[i]? = some n ∧ n.key = key ∧
      b.2.lookup key = some (UInt64.ofNat i) := by
    intro key hkey
    obtain ⟨n, hn, rfl⟩ := List.mem_map.mp hkey
    obtain ⟨i, hi⟩ := List.mem_iff_getElem?.mp hn
    exact ⟨i, n, hi, rfl, hnodes.idMap i n hi⟩
  have hknown : ∀ {key : String}, key ∈ ns.map NodeRecord.key →
      ∃ i, b.2.lookup key = some i ∧ (b.1.getNode i).isSome := by
    intro key hkey
    obtain ⟨i, n, hi, -, hlookup⟩ := hfind hkey
    exact ⟨_, hlookup, Option.isSome_of_eq_some (hnodes.node i n hi)⟩
  have hstart : BuiltEdges b [] b.1 :=
    ⟨hnodes.valid, by simp [hnodes.edges], hnodes.edgeFreeList, rfl, rfl, by simp⟩
  obtain ⟨f, hf, hedges⟩ := hstart.foldlM
    (fun e he => ⟨hknown (hends e he).1, hknown (hends e he).2⟩) (by simpa using hes)
  rw [List.nil_append] at hedges
  refine ⟨f, hf, by rw [hedges.nodes, hnodes.nodes_length], hedges.edges_length, fun i n hi => ?_, fun j e hj => ?_⟩
  · rw [Graph.getNode, hedges.nodes]
    exact hnodes.node i n hi
  · obtain ⟨fromNode, toNode, hfrom, hto, hedge⟩ := hedges.edge j e hj
    have hmem := hends e (List.mem_of_getElem? hj)
    obtain ⟨i, n, hi, hn, hlookup⟩ := hfind hmem.1
    obtain ⟨k, m, hk, hm, hlookup'⟩ := hfind hmem.2
    rw [hfrom, Option.some_inj] at hlookup
    rw [hto, Option.some_inj] at hlookup'
    rw [hlookup, hlookup'] at hedge
    exact ⟨i, k, n, m, hi, hn, hk, hm, hedge⟩

/-- Every node of the graph comes from a record. -/
lemma Built.exists_node {ns : List NodeRecord} {es : List EdgeRecord} {f : Graph} (h : Built ns es f) {k : NodeId}
    {b : Node} (hb : f.getNode k = some b) : ∃ n, ns[k.toNat]? = some n ∧ b = ⟨k, n.labels, toProperties n.entries⟩ := by
  have hlt : k.toNat < ns.length := by
    rw [← h.nodes_length]
    by_contra hge
    rw [Graph.getNode, List.getD_eq_default _ _ (not_lt.mp hge)] at hb
    cases hb
  refine ⟨_, List.getElem?_eq_getElem hlt, ?_⟩
  have hnode := h.node k.toNat _ (List.getElem?_eq_getElem hlt)
  rw [UInt64.ofNat_toNat, hb, Option.some_inj] at hnode
  exact hnode

lemma Built.exists_edge {ns : List NodeRecord} {es : List EdgeRecord} {f : Graph} (h : Built ns es f) {k : EdgeId}
    {c : Edge} (hc : f.getEdge k = some c) :
    ∃ e, es[k.toNat]? = some e ∧ c.label = e.label ∧ c.properties = toProperties e.entries := by
  have hlt : k.toNat < es.length := by
    rw [← h.edges_length]
    by_contra hge
    rw [Graph.getEdge, List.getD_eq_default _ _ (not_lt.mp hge)] at hc
    cases hc
  obtain ⟨i, j, n, m, -, -, -, -, hedge⟩ := h.edge k.toNat _ (List.getElem?_eq_getElem hlt)
  rw [UInt64.ofNat_toNat, hc, Option.some_inj] at hedge
  exact ⟨_, List.getElem?_eq_getElem hlt, by rw [hedge], by rw [hedge]⟩

/-! ## The graph of the records of a graph -/

/-- Records of a graph: its nodes and its edges, each in some order, with a key for each id. -/
structure RecordsOf (g : Graph) (key : NodeId → String) (nodeRecord : Node → NodeRecord)
    (edgeRecord : Edge → EdgeRecord) (nodes : List Node) (edges : List Edge) : Prop where
  nodes_perm : nodes.Perm (g.nodes.filterMap id)
  edges_perm : edges.Perm (g.edges.filterMap id)
  key_injective : Function.Injective key
  node_key : ∀ n ∈ nodes, (nodeRecord n).key = key n.id
  from_key : ∀ e ∈ edges, (edgeRecord e).fromKey = key e.fromNode
  to_key : ∀ e ∈ edges, (edgeRecord e).toKey = key e.toNode

section Copies

variable {g : Graph} {key : NodeId → String} {nodeRecord : Node → NodeRecord} {edgeRecord : Edge → EdgeRecord}
  {nodes : List Node} {edges : List Edge}

lemma RecordsOf.mem_nodes (h : RecordsOf g key nodeRecord edgeRecord nodes edges) (hg : g.Inv) (n : Node) :
    n ∈ nodes ↔ g.getNode n.id = some n := by
  rw [h.nodes_perm.mem_iff]
  exact Graph.mem_slots hg.fits.nodes_lt hg.node_id n

lemma RecordsOf.mem_edges (h : RecordsOf g key nodeRecord edgeRecord nodes edges) (hg : g.Inv) (e : Edge) :
    e ∈ edges ↔ g.getEdge e.id = some e := by
  rw [h.edges_perm.mem_iff]
  exact Graph.mem_slots hg.fits.edges_lt hg.valid.edge_id e

/-- The records of a graph make a graph. -/
theorem RecordsOf.exists_built (h : RecordsOf g key nodeRecord edgeRecord nodes edges) (hg : g.Inv) :
    ∃ f, (edges.map edgeRecord).foldlM (addEdgeRecord ((nodes.map nodeRecord).foldl addNodeRecord (.new, ∅)).2)
        ((nodes.map nodeRecord).foldl addNodeRecord (.new, ∅)).1 = .ok f ∧
      Built (nodes.map nodeRecord) (edges.map edgeRecord) f := by
  have hkeys : (nodes.map nodeRecord).map NodeRecord.key = (nodes.map Node.id).map key := by
    simp only [List.map_map]
    exact List.map_congr_left h.node_key
  have hids : (nodes.map Node.id).Nodup :=
    (h.nodes_perm.map Node.id).nodup_iff.mpr (Graph.nodup_slots hg.fits.nodes_lt hg.node_id)
  have hlive : ∀ {i : NodeId}, (g.getNode i).isSome → key i ∈ (nodes.map nodeRecord).map NodeRecord.key := by
    intro i hi
    obtain ⟨n, hn⟩ := Option.isSome_iff_exists.mp hi
    have hid := hg.node_id i n hn
    rw [hkeys]
    refine List.mem_map_of_mem (List.mem_map.mpr ⟨n, (h.mem_nodes hg n).mpr ?_, hid⟩)
    rw [hid]
    exact hn
  refine Io.exists_built ?_ ?_ ?_ ?_
  · rw [hkeys]
    exact hids.map h.key_injective
  · rw [List.length_map, h.nodes_perm.length_eq]
    exact (List.length_filterMap_le _ _).trans_lt hg.fits.nodes_lt
  · rw [List.length_map, h.edges_perm.length_eq]
    exact (List.length_filterMap_le _ _).trans_lt hg.fits.edges_lt
  · intro r hr
    obtain ⟨e, he, rfl⟩ := List.mem_map.mp hr
    obtain ⟨hfrom, hto⟩ := hg.valid.endpoints e.id e ((h.mem_edges hg e).mp he)
    rw [h.from_key e he, h.to_key e he]
    exact ⟨hlive hfrom, hlive hto⟩

/-- Positions in a list without repetitions number its elements. -/
lemma bijOn_idxOf {β : Type} {ids : List UInt64} {s : List (Option β)} (hnodup : ids.Nodup)
    (hlen : ids.length < 2 ^ 64) (hs : s.length = ids.length)
    (hlive : ∀ i < ids.length, (s.getD (UInt64.ofNat i).toNat none).isSome) :
    Set.BijOn (fun n : UInt64 => UInt64.ofNat (ids.idxOf n)) {n | n ∈ ids}
      {k | (s.getD k.toNat none).isSome} := by
  refine ⟨fun n hn => hlive _ (List.idxOf_lt_length_iff.mpr hn), fun n hn m hm heq => ?_, fun k hk => ?_⟩
  · have hn' := List.idxOf_lt_length_iff.mpr hn
    have hm' := List.idxOf_lt_length_iff.mpr hm
    by_contra hne
    refine Backup.ofNat_ne (hn'.trans hlen) (hm'.trans hlen) (fun hidx => hne ?_) heq
    exact (List.idxOf_inj hn).mp hidx
  · have hlt : k.toNat < ids.length := by
      rw [← hs]
      by_contra hge
      rw [Set.mem_ofPred_eq, List.getD_eq_default _ _ (not_lt.mp hge)] at hk
      cases hk
    refine ⟨ids[k.toNat], List.getElem_mem hlt, ?_⟩
    change UInt64.ofNat (ids.idxOf ids[k.toNat]) = k
    rw [hnodup.idxOf_getElem, UInt64.ofNat_toNat]

/-- The position of a node in the records. -/
def nodePosition (nodes : List Node) (n : NodeId) : NodeId := UInt64.ofNat ((nodes.map Node.id).idxOf n)

/-- The position of an edge in the records. -/
def edgePosition (edges : List Edge) (e : EdgeId) : EdgeId := UInt64.ofNat ((edges.map Edge.id).idxOf e)

/-- A record has the labels and the properties of its node. -/
structure NodeRecord.Keeps (r : NodeRecord) (n : Node) : Prop where
  labels : r.labels = n.labels
  properties : ∀ k, (toProperties r.entries).lookup k = n.getProperty k

/-- A record has the label and the properties of its edge. -/
structure EdgeRecord.Keeps (r : EdgeRecord) (e : Edge) : Prop where
  label : r.label = e.label
  properties : ∀ k, (toProperties r.entries).lookup k = e.getProperty k

/-- The element at the position of its key. -/
lemma getElem?_idxOf {α : Type} {l : List α} {f : α → UInt64} {a : α} (ha : a ∈ l)
    (hkey : ∀ b ∈ l, f b = f a → b = a) : l[(l.map f).idxOf (f a)]? = some a := by
  have hlt := List.idxOf_lt_length_iff.mpr (List.mem_map_of_mem (f := f) ha)
  have hlt' : (l.map f).idxOf (f a) < l.length := by rwa [List.length_map] at hlt
  have hat := List.getElem_idxOf hlt
  rw [List.getElem_map] at hat
  rw [List.getElem?_eq_getElem hlt', hkey _ (List.getElem_mem hlt') hat]

lemma RecordsOf.getElem?_node (h : RecordsOf g key nodeRecord edgeRecord nodes edges) (hg : g.Inv) {i : NodeId}
    {n : Node} (hn : g.getNode i = some n) : (nodes.map nodeRecord)[(nodes.map Node.id).idxOf i]? = some (nodeRecord n) := by
  obtain rfl := hg.node_id i n hn
  have hget := getElem?_idxOf (f := Node.id) ((h.mem_nodes hg n).mpr hn) fun m hm heq => by
    have hlive := (h.mem_nodes hg m).mp hm
    rw [heq, hn, Option.some_inj] at hlive
    exact hlive.symm
  rw [List.getElem?_map, hget, Option.map_some]

lemma RecordsOf.getElem?_edge (h : RecordsOf g key nodeRecord edgeRecord nodes edges) (hg : g.Inv) {i : EdgeId}
    {e : Edge} (he : g.getEdge i = some e) : (edges.map edgeRecord)[(edges.map Edge.id).idxOf i]? = some (edgeRecord e) := by
  obtain rfl := hg.valid.edge_id i e he
  have hget := getElem?_idxOf (f := Edge.id) ((h.mem_edges hg e).mpr he) fun c hc heq => by
    have hlive := (h.mem_edges hg c).mp hc
    rw [heq, he, Option.some_inj] at hlive
    exact hlive.symm
  rw [List.getElem?_map, hget, Option.map_some]

/-- A graph of records that keep the data of a graph is a copy of it. -/
theorem RecordsOf.copies (h : RecordsOf g key nodeRecord edgeRecord nodes edges) (hg : g.Inv) {f : Graph}
    (hf : Built (nodes.map nodeRecord) (edges.map edgeRecord) f)
    (hnode : ∀ i n, g.getNode i = some n → (nodeRecord n).Keeps n)
    (hedge : ∀ i e, g.getEdge i = some e → (edgeRecord e).Keeps e) :
    g.Copies f (nodePosition nodes) (edgePosition edges) := by
  have hnodeIds : ∀ i, i ∈ nodes.map Node.id ↔ (g.getNode i).isSome := by
    intro i
    rw [List.mem_map, Option.isSome_iff_exists]
    constructor
    · rintro ⟨n, hn, rfl⟩
      exact ⟨n, (h.mem_nodes hg n).mp hn⟩
    · rintro ⟨n, hn⟩
      have hid := hg.node_id i n hn
      refine ⟨n, (h.mem_nodes hg n).mpr ?_, hid⟩
      rw [hid]
      exact hn
  have hedgeIds : ∀ i, i ∈ edges.map Edge.id ↔ (g.getEdge i).isSome := by
    intro i
    rw [List.mem_map, Option.isSome_iff_exists]
    constructor
    · rintro ⟨e, he, rfl⟩
      exact ⟨e, (h.mem_edges hg e).mp he⟩
    · rintro ⟨e, he⟩
      have hid := hg.valid.edge_id i e he
      refine ⟨e, (h.mem_edges hg e).mpr ?_, hid⟩
      rw [hid]
      exact he
  have hnodesLen : (nodes.map Node.id).length < 2 ^ 64 := by
    rw [List.length_map, h.nodes_perm.length_eq]
    exact (List.length_filterMap_le _ _).trans_lt hg.fits.nodes_lt
  have hedgesLen : (edges.map Edge.id).length < 2 ^ 64 := by
    rw [List.length_map, h.edges_perm.length_eq]
    exact (List.length_filterMap_le _ _).trans_lt hg.fits.edges_lt
  have hnodesNodup : (nodes.map Node.id).Nodup :=
    (h.nodes_perm.map Node.id).nodup_iff.mpr (Graph.nodup_slots hg.fits.nodes_lt hg.node_id)
  have hedgesNodup : (edges.map Edge.id).Nodup :=
    (h.edges_perm.map Edge.id).nodup_iff.mpr (Graph.nodup_slots hg.fits.edges_lt hg.valid.edge_id)
  have hnodesBij := bijOn_idxOf hnodesNodup hnodesLen (s := f.nodes)
    (by rw [hf.nodes_length, List.length_map, List.length_map]) fun i hi => by
      have hi' : i < (nodes.map nodeRecord).length := by rwa [List.length_map] at hi ⊢
      exact Option.isSome_of_eq_some (hf.node i _ (List.getElem?_eq_getElem hi'))
  have hedgesBij := bijOn_idxOf hedgesNodup hedgesLen (s := f.edges)
    (by rw [hf.edges_length, List.length_map, List.length_map]) fun i hi => by
      have hi' : i < (edges.map edgeRecord).length := by rwa [List.length_map] at hi ⊢
      obtain ⟨_, _, _, _, -, -, -, -, hget⟩ := hf.edge i _ (List.getElem?_eq_getElem hi')
      exact Option.isSome_of_eq_some hget
  simp only [hnodeIds] at hnodesBij
  simp only [hedgeIds] at hedgesBij
  refine ⟨hnodesBij, hedgesBij, fun i n hn => ?_, fun i e he => ?_⟩
  · have hkeeps := hnode i n hn
    exact ⟨_, hf.node _ _ (h.getElem?_node hg hn), hkeeps.labels, hkeeps.properties⟩
  · have hkeeps := hedge i e he
    obtain ⟨k, l, r, r', hr, hfrom, hr', hto, hget⟩ := hf.edge _ _ (h.getElem?_edge hg he)
    -- the positions with the keys of the ends are those of the ends
    have hposition : ∀ {k : ℕ} {r : NodeRecord} {m : NodeId}, (nodes.map nodeRecord)[k]? = some r → r.key = key m →
        k = (nodes.map Node.id).idxOf m := by
      intro k r m hk hkey
      obtain ⟨n, hn, rfl⟩ : ∃ n, nodes[k]? = some n ∧ nodeRecord n = r := by
        rw [List.getElem?_map] at hk
        exact Option.map_eq_some_iff.mp hk
      rw [h.node_key n (List.mem_of_getElem? hn)] at hkey
      obtain ⟨hlt, hat⟩ := List.getElem?_eq_some_iff.mp hn
      have hlt' : k < (nodes.map Node.id).length := by rwa [List.length_map]
      have hidx := hnodesNodup.idxOf_getElem k hlt'
      rw [List.getElem_map, hat, h.key_injective hkey] at hidx
      exact hidx.symm
    have hmem : e ∈ edges := by
      rw [h.mem_edges hg, hg.valid.edge_id i e he]
      exact he
    rw [h.from_key e hmem] at hfrom
    rw [h.to_key e hmem] at hto
    rw [hposition hr hfrom, hposition hr' hto] at hget
    exact ⟨_, hget, ⟨hkeeps.label, hkeeps.properties⟩, rfl, rfl⟩

/-- A list that is related to another one, element by element, is its image. -/
lemma exists_map {α β : Type} [Inhabited β] {R : α → β → Prop} {l : List α} {l' : List β} (h : l.Forall₂ R l')
    (hnodup : l.Nodup) : ∃ f : α → β, l' = l.map f ∧ ∀ a ∈ l, R a (f a) := by
  classical
  induction h with
  | nil => exact ⟨fun _ => default, rfl, by simp⟩
  | @cons a b l l' hab _ ih =>
    rw [List.nodup_cons] at hnodup
    obtain ⟨f, rfl, hf⟩ := ih hnodup.2
    have hother : ∀ c ∈ l, Function.update f a b c = f c := by
      intro c hc
      refine Function.update_of_ne (fun heq => hnodup.1 ?_) b f
      rwa [← heq]
    refine ⟨Function.update f a b, ?_, ?_⟩
    · rw [List.map_cons, Function.update_self, List.map_congr_left hother]
    · rw [List.forall_mem_cons, Function.update_self]
      refine ⟨hab, fun c hc => ?_⟩
      rw [hother c hc]
      exact hf c hc

/-- Records that keep the data of the nodes and edges of a graph, in any order, make a copy of it. -/
theorem exists_copy (hg : g.Inv) (hkey : Function.Injective key) (hnodes : nodes.Perm (g.nodes.filterMap id))
    (hedges : edges.Perm (g.edges.filterMap id)) {ns : List NodeRecord} {es : List EdgeRecord}
    (hns : nodes.Forall₂ (fun n r => r.key = key n.id ∧ r.Keeps n) ns)
    (hes : edges.Forall₂ (fun e r => r.fromKey = key e.fromNode ∧ r.toKey = key e.toNode ∧ r.Keeps e) es) :
    ∃ f, es.foldlM (addEdgeRecord (ns.foldl addNodeRecord (.new, ∅)).2) (ns.foldl addNodeRecord (.new, ∅)).1 = .ok f ∧
      g.IsCopy f := by
  have hnodesNodup : nodes.Nodup :=
    hnodes.nodup_iff.mpr (Graph.nodup_slots hg.fits.nodes_lt hg.node_id).of_map
  have hedgesNodup : edges.Nodup :=
    hedges.nodup_iff.mpr (Graph.nodup_slots hg.fits.edges_lt hg.valid.edge_id).of_map
  obtain ⟨nodeRecord, rfl, hnodeRecord⟩ := exists_map hns hnodesNodup
  obtain ⟨edgeRecord, rfl, hedgeRecord⟩ := exists_map hes hedgesNodup
  have hrecords : RecordsOf g key nodeRecord edgeRecord nodes edges :=
    ⟨hnodes, hedges, hkey, fun n hn => (hnodeRecord n hn).1, fun e he => (hedgeRecord e he).1,
      fun e he => (hedgeRecord e he).2.1⟩
  obtain ⟨f, hf, hbuilt⟩ := hrecords.exists_built hg
  refine ⟨f, hf, _, _, hrecords.copies hg hbuilt (fun i n hn => (hnodeRecord n ?_).2)
    (fun i e he => (hedgeRecord e ?_).2.2)⟩
  · rw [hrecords.mem_nodes hg, hg.node_id i n hn]
    exact hn
  · rw [hrecords.mem_edges hg, hg.valid.edge_id i e he]
    exact he

end Copies

end Io

end Maharit
