import MaharitDb.Io.Json

/-!
# Exporting and importing JSON

A graph that is exported in one of the two layouts and imported again is the same up to the ids.  The reader of
`serde_json` is assumed to give back what its writer was given, with the properties of each element in any order.
-/

namespace Maharit

namespace Io

/-! ## What `serde_json` keeps -/

/-- The same node, with its properties in any order. -/
structure JsonNode.Same (a b : JsonNode) : Prop where
  id : a.id = b.id
  label : a.label = b.label
  properties : ∀ k, a.properties.lookup k = b.properties.lookup k

structure JsonEdge.Same (a b : JsonEdge) : Prop where
  fromId : a.fromId = b.fromId
  toId : a.toId = b.toId
  edgeType : a.edgeType = b.edgeType
  properties : ∀ k, a.properties.lookup k = b.properties.lookup k

structure JsonGraph.Same (a b : JsonGraph) : Prop where
  nodes : a.nodes.Forall₂ JsonNode.Same b.nodes
  edges : a.edges.Forall₂ JsonEdge.Same b.edges

structure AdjacencyEdge.Same (a b : AdjacencyEdge) : Prop where
  toId : a.toId = b.toId
  edgeType : a.edgeType = b.edgeType
  properties : ∀ k, a.properties.lookup k = b.properties.lookup k

structure AdjacencyNode.Same (a b : AdjacencyNode) : Prop where
  id : a.id = b.id
  label : a.label = b.label
  properties : ∀ k, a.properties.lookup k = b.properties.lookup k
  edges : a.edges.Forall₂ AdjacencyEdge.Same b.edges

structure AdjacencyGraph.Same (a b : AdjacencyGraph) : Prop where
  nodes : a.nodes.Forall₂ AdjacencyNode.Same b.nodes

/-- The reader inverts the writer on a document. -/
def SerdeJson.Inverts (serde : SerdeJson) (d : JsonGraph) : Prop :=
  ∃ d', serde.fromReader (serde.toWriterPretty d) = .ok d' ∧ d.Same d'

/-- The reader inverts the writer on a document of the other layout. -/
def SerdeJson.InvertsAdjacency (serde : SerdeJson) (d : AdjacencyGraph) : Prop :=
  ∃ d', serde.adjacencyFromReader (serde.adjacencyToWriterPretty d) = .ok d' ∧ d.Same d'

/-! ## Values and ids -/

/-- The values that JSON has itself. -/
def PlainValue : PropertyValue → Prop
  | .null | .bool _ | .int _ | .string _ => True
  | _ => False

lemma jsonToProperty_propertyToJson {v : PropertyValue} (h : PlainValue v) : jsonToProperty (propertyToJson v) = v := by
  cases v with
  | null => rfl
  | bool b => rfl
  | int n => rw [propertyToJson, jsonToProperty, JsonNumber.asI64_ofInt64]
  | string s => rfl
  | float x => exact h.elim
  | date d => exact h.elim
  | dateTime ms => exact h.elim
  | duration months days millis => exact h.elim

/-- The properties that are imported are those of the document. -/
lemma lookup_toProperties_jsonEntries (props : JsonProperties) (k : String) :
    (toProperties (jsonEntries props)).lookup k = (props.lookup k).map jsonToProperty := by
  rw [toProperties, jsonEntries, List.foldl_map]
  exact HashMap.lookup_collect jsonToProperty props k

/-- The properties of an element with plain values are kept. -/
lemma lookup_imported {props : Properties} (hplain : ∀ k v, props.lookup k = some v → PlainValue v)
    {props' : JsonProperties} (hsame : ∀ k, (HashMap.collect propertyToJson props).lookup k = props'.lookup k)
    (k : String) : (toProperties (jsonEntries props')).lookup k = props.lookup k := by
  rw [lookup_toProperties_jsonEntries, ← hsame, HashMap.lookup_collect, Option.map_map]
  rcases hk : props.lookup k with - | v
  · rfl
  · rw [Option.map_some, Function.comp_apply, jsonToProperty_propertyToJson (hplain k v hk)]

lemma idText_injective : Function.Injective idText := by
  intro a b h
  have hlist := congrArg String.toList h
  rw [idText, idText, DecimalText.toList_toString_nat, DecimalText.toList_toString_nat] at hlist
  have hnat := congrArg (Nat.ofDigitChars 10 · 0) hlist
  simp only [DecimalText.ofDigitChars_paddedDigits] at hnat
  exact UInt64.toNat_inj.mp hnat

/-- Labels that the format can hold: they are not empty and have no colon. -/
def PlainLabels (labels : List String) : Prop := ∀ l ∈ labels, l ≠ "" ∧ ':' ∉ l.toList

lemma PlainLabels.split {labels : List String} (h : PlainLabels labels) :
    Backup.splitLabels (Backup.joinLabels labels) = labels := by
  refine Backup.splitLabels_joinLabels ⟨fun l hl => (h l hl).2, ?_⟩
  rintro rfl
  exact (h "" List.mem_cons_self).1 rfl

/-- The labels and the values of a graph are those that JSON can hold. -/
structure JsonGraph.Holds (g : Graph) : Prop where
  labels : ∀ i n, g.getNode i = some n → PlainLabels n.labels
  node : ∀ i n, g.getNode i = some n → ∀ k v, n.getProperty k = some v → PlainValue v
  edge : ∀ i e, g.getEdge i = some e → ∀ k v, e.getProperty k = some v → PlainValue v

instance : DecidablePred PlainValue
  | .null | .bool _ | .int _ | .string _ => isTrue trivial
  | .float _ | .date _ | .dateTime _ | .duration _ _ _ => isFalse not_false

instance (labels : List String) : Decidable (PlainLabels labels) := inferInstanceAs (Decidable (∀ _ ∈ _, _))

/-- It is enough to look at the occupied slots. -/
lemma JsonGraph.holds_of_slots {g : Graph}
    (hnodes : ∀ n ∈ g.nodes.filterMap id, PlainLabels n.labels ∧ ∀ p ∈ n.properties.entries, PlainValue p.2)
    (hedges : ∀ e ∈ g.edges.filterMap id, ∀ p ∈ e.properties.entries, PlainValue p.2) : JsonGraph.Holds g := by
  refine ⟨fun i n hn => ?_, fun i n hn k v hv => ?_, fun i e he k v hv => ?_⟩
  · exact (hnodes n (Slots.mem_filterMap_id.mpr ⟨_, hn⟩)).1
  · exact (hnodes n (Slots.mem_filterMap_id.mpr ⟨_, hn⟩)).2 ⟨k, v⟩ (List.of_mem_dlookup hv)
  · exact hedges e (Slots.mem_filterMap_id.mpr ⟨_, he⟩) ⟨k, v⟩ (List.of_mem_dlookup hv)

/-! ## Nodes and edges -/

/-- The record of a node of a document. -/
def JsonNode.record (n : JsonNode) : NodeRecord := ⟨n.id, Backup.splitLabels n.label, jsonEntries n.properties⟩

def JsonEdge.record (e : JsonEdge) : EdgeRecord := ⟨e.fromId, e.toId, e.edgeType, jsonEntries e.properties⟩

def AdjacencyNode.record (n : AdjacencyNode) : NodeRecord :=
  ⟨n.id, Backup.splitLabels n.label, jsonEntries n.properties⟩

def AdjacencyEdge.record (fromId : String) (e : AdjacencyEdge) : EdgeRecord :=
  ⟨fromId, e.toId, e.edgeType, jsonEntries e.properties⟩

/-- Related elements, with the place of the first ones. -/
lemma forall₂_mem {α β : Type} {R : α → β → Prop} {l : List α} {l' : List β} (h : l.Forall₂ R l') :
    l.Forall₂ (fun a b => a ∈ l ∧ R a b) l' := (List.forall₂_and_left l l').mpr ⟨fun _ ha => ha, h⟩

section Records

variable {g : Graph}

lemma JsonGraph.Holds.mem_node (h : JsonGraph.Holds g) (hg : g.Inv) {n : Node} (hn : n ∈ g.nodes.filterMap id) :
    PlainLabels n.labels ∧ ∀ k v, n.getProperty k = some v → PlainValue v := by
  have hlive := (Graph.mem_slots hg.fits.nodes_lt hg.node_id n).mp hn
  exact ⟨h.labels _ n hlive, h.node _ n hlive⟩

lemma JsonGraph.Holds.mem_edge (h : JsonGraph.Holds g) (hg : g.Inv) {e : Edge} (he : e ∈ g.edges.filterMap id) :
    ∀ k v, e.getProperty k = some v → PlainValue v :=
  h.edge _ e ((Graph.mem_slots hg.fits.edges_lt hg.valid.edge_id e).mp he)

/-- The records of the nodes of a document that was read. -/
lemma records_nodes (h : JsonGraph.Holds g) (hg : g.Inv) {ns : List JsonNode}
    (hread : ((g.nodes.filterMap id).map jsonNode).Forall₂ JsonNode.Same ns) :
    (g.nodes.filterMap id).Forall₂ (fun n r => r.key = idText n.id ∧ r.Keeps n) (ns.map JsonNode.record) := by
  rw [List.forall₂_map_left_iff] at hread
  rw [List.forall₂_map_right_iff]
  refine (forall₂_mem hread).imp fun n r hnr => ?_
  obtain ⟨hn, hsame⟩ := hnr
  obtain ⟨hlabels, hplain⟩ := h.mem_node hg hn
  refine ⟨hsame.id.symm, ?_, lookup_imported hplain hsame.properties⟩
  rw [JsonNode.record, ← hsame.label]
  exact hlabels.split

lemma records_edges (h : JsonGraph.Holds g) (hg : g.Inv) {es : List JsonEdge}
    (hread : ((g.edges.filterMap id).map jsonEdge).Forall₂ JsonEdge.Same es) :
    (g.edges.filterMap id).Forall₂
      (fun e r => r.fromKey = idText e.fromNode ∧ r.toKey = idText e.toNode ∧ r.Keeps e)
      (es.map JsonEdge.record) := by
  rw [List.forall₂_map_left_iff] at hread
  rw [List.forall₂_map_right_iff]
  refine (forall₂_mem hread).imp fun e r her => ?_
  obtain ⟨he, hsame⟩ := her
  exact ⟨hsame.fromId.symm, hsame.toId.symm, hsame.edgeType.symm,
    lookup_imported (h.mem_edge hg he) hsame.properties⟩

/-- The nodes of the other layout. -/
lemma records_adjacencyNodes (h : JsonGraph.Holds g) (hg : g.Inv) {ns : List AdjacencyNode}
    (hread : ((g.nodes.filterMap id).map (adjacencyNode g)).Forall₂ AdjacencyNode.Same ns) :
    (g.nodes.filterMap id).Forall₂ (fun n r => r.key = idText n.id ∧ r.Keeps n) (ns.map AdjacencyNode.record) := by
  rw [List.forall₂_map_left_iff] at hread
  rw [List.forall₂_map_right_iff]
  refine (forall₂_mem hread).imp fun n r hnr => ?_
  obtain ⟨hn, hsame⟩ := hnr
  obtain ⟨hlabels, hplain⟩ := h.mem_node hg hn
  refine ⟨hsame.id.symm, ?_, lookup_imported hplain hsame.properties⟩
  rw [AdjacencyNode.record, ← hsame.label]
  exact hlabels.split

/-- The edges of the other layout, node after node. -/
lemma records_adjacencyEdges (h : JsonGraph.Holds g) (hg : g.Inv) (nodes : List Node) {ns : List AdjacencyNode}
    (hread : (nodes.map (adjacencyNode g)).Forall₂ AdjacencyNode.Same ns) :
    (nodes.flatMap fun n => (g.edges.filterMap id).filter fun e => e.fromNode = n.id).Forall₂
      (fun e r => r.fromKey = idText e.fromNode ∧ r.toKey = idText e.toNode ∧ r.Keeps e)
      (ns.flatMap fun n => n.edges.map (AdjacencyEdge.record n.id)) := by
  induction nodes generalizing ns with
  | nil =>
    rw [List.map_nil, List.forall₂_nil_left_iff] at hread
    rw [hread]
    exact .nil
  | cons n nodes ih =>
    rw [List.map_cons, List.forall₂_cons_left_iff] at hread
    obtain ⟨r, ns', hsame, hread', rfl⟩ := hread
    rw [List.flatMap_cons, List.flatMap_cons]
    refine List.rel_append ?_ (ih hread')
    have hedges := hsame.edges
    rw [adjacencyNode, List.forall₂_map_left_iff] at hedges
    rw [List.forall₂_map_right_iff]
    refine (forall₂_mem hedges).imp fun e c hec => ?_
    obtain ⟨he, hsame'⟩ := hec
    rw [List.mem_filter] at he
    have hfrom : e.fromNode = n.id := of_decide_eq_true he.2
    refine ⟨?_, hsame'.toId.symm, hsame'.edgeType.symm, lookup_imported (h.mem_edge hg he.1) hsame'.properties⟩
    rw [hfrom]
    exact hsame.id.symm

end Records

/-- The elements, gathered under the keys one after the other. -/
lemma perm_flatMap_filter {α : Type} {f : α → UInt64} {keys : List UInt64} (hnodup : keys.Nodup) (l : List α)
    (hmem : ∀ a ∈ l, f a ∈ keys) : (keys.flatMap fun k => l.filter fun a => f a = k).Perm l := by
  induction keys generalizing l with
  | nil =>
    have hnil : l = [] := List.eq_nil_iff_forall_not_mem.mpr fun a ha => List.not_mem_nil (hmem a ha)
    rw [hnil]
    exact .refl _
  | cons k keys ih =>
    rw [List.nodup_cons] at hnodup
    rw [List.flatMap_cons]
    have hrest : (keys.flatMap fun k' => l.filter fun a => f a = k') =
        keys.flatMap fun k' => (l.filter fun a => ¬ f a = k).filter fun a => f a = k' := by
      refine List.flatMap_congr fun k' hk' => ?_
      rw [List.filter_filter]
      refine List.filter_congr fun a _ => ?_
      have hne : k' ≠ k := fun heq => hnodup.1 (heq ▸ hk')
      by_cases ha : f a = k'
      · simp [ha, hne]
      · simp [ha]
    have hperm := ih hnodup.2 (l.filter fun a => ¬ f a = k) fun a ha => by
      rw [List.mem_filter] at ha
      have hne : f a ≠ k := of_decide_eq_true ha.2
      exact (List.mem_cons.mp (hmem a ha.1)).resolve_left hne
    rw [hrest]
    have happend := List.filter_append_perm (fun a => decide (f a = k)) l
    refine (List.Perm.append_left _ hperm).trans ?_
    simpa using happend

/-! ## The two round trips -/

lemma foldl_importNode (ns : List JsonNode) (b : Building) :
    ns.foldl importNode b = (ns.map JsonNode.record).foldl addNodeRecord b := by
  rw [List.foldl_map]
  rfl

lemma foldlM_importEdge (idMap : HashMap String NodeId) (es : List JsonEdge) (g : Graph) :
    es.foldlM (importEdge idMap) g = (es.map JsonEdge.record).foldlM (addEdgeRecord idMap) g := by
  rw [List.foldlM_map]
  rfl

lemma foldl_importAdjacencyNode (ns : List AdjacencyNode) (b : Building) :
    ns.foldl importAdjacencyNode b = (ns.map AdjacencyNode.record).foldl addNodeRecord b := by
  rw [List.foldl_map]
  rfl

/-- The edges of each node are the edges with its id. -/
lemma foldlM_importAdjacencyEdges {idMap : HashMap String NodeId} {ns : List AdjacencyNode}
    (hknown : ∀ n ∈ ns, (idMap.lookup n.id).isSome) (g : Graph) : ns.foldlM (importAdjacencyEdges idMap) g =
      (ns.flatMap fun n => n.edges.map (AdjacencyEdge.record n.id)).foldlM (addEdgeRecord idMap) g := by
  induction ns generalizing g with
  | nil => rfl
  | cons n ns ih =>
    rw [List.forall_mem_cons] at hknown
    obtain ⟨i, hi⟩ := Option.isSome_iff_exists.mp hknown.1
    have hfirst : importAdjacencyEdges idMap g n =
        (n.edges.map (AdjacencyEdge.record n.id)).foldlM (addEdgeRecord idMap) g := by
      have hstep : ∀ g (e : AdjacencyEdge), importAdjacencyEdge idMap i g e = addEdgeRecord idMap g (e.record n.id) := by
        intro g e
        have hfind : findNode idMap n.id = .ok i := by rw [findNode, hi]
        rw [importAdjacencyEdge, addEdgeRecord, AdjacencyEdge.record, hfind]
        rfl
      rw [List.foldlM_map, importAdjacencyEdges, hi]
      dsimp only
      congr 1
      funext g e
      exact hstep g e
    rw [List.foldlM_cons, List.flatMap_cons, List.foldlM_append, hfirst]
    congr 1
    funext g'
    exact ih hknown.2 g'

/-- Every node that was entered is found. -/
lemma isSome_lookup_foldl {ns : List NodeRecord} {b : Building} {key : String}
    (h : (b.2.lookup key).isSome ∨ ∃ n ∈ ns, n.key = key) : ((ns.foldl addNodeRecord b).2.lookup key).isSome := by
  induction ns generalizing b with
  | nil => simpa using h
  | cons n ns ih =>
    rw [List.foldl_cons]
    refine ih ?_
    have hlookup : (addNodeRecord b n).2.lookup key =
        if key = n.key then some (b.1.createNodeWithLabels n.labels).2 else b.2.lookup key :=
      HashMap.lookup_insert_ite b.2 n.key key _
    rw [hlookup]
    rcases h with hsome | ⟨m, hm, rfl⟩
    · left
      split
      · rfl
      · exact hsome
    · rcases List.mem_cons.mp hm with rfl | hm
      · left
        rw [if_pos rfl]
        rfl
      · exact Or.inr ⟨m, hm, rfl⟩

/-- A graph that is exported in one of the layouts and imported into an empty graph is the same up to the ids. -/
theorem json_round_trip (serde : SerdeJson) {g : Graph} (hg : g.Inv) (hholds : JsonGraph.Holds g)
    (hread : serde.Inverts (toJsonGraph g)) (hread' : serde.InvertsAdjacency (toAdjacencyGraph g)) :
    (∃ f stats, importJson serde .new (exportJson serde g) = .ok (f, stats) ∧ g.IsCopy f) ∧
      ∃ f stats, importAdjacency serde .new (exportAdjacency serde g) = .ok (f, stats) ∧ g.IsCopy f := by
  constructor
  · obtain ⟨d, hd, hsame⟩ := hread
    obtain ⟨f, hf, hcopy⟩ := exists_copy hg idText_injective (.refl _) (.refl _)
      (records_nodes hholds hg hsame.nodes) (records_edges hholds hg hsame.edges)
    refine ⟨f, ⟨d.nodes.length, d.edges.length⟩, ?_, hcopy⟩
    rw [importJson, exportJson, hd]
    simp only [Except.mapError, bind, Except.bind, foldl_importNode, foldlM_importEdge, hf]
    rfl
  · obtain ⟨d, hd, hsame⟩ := hread'
    have hids : ((g.nodes.filterMap id).map Node.id).Nodup := Graph.nodup_slots hg.fits.nodes_lt hg.node_id
    have hperm := perm_flatMap_filter (f := Edge.fromNode) hids (g.edges.filterMap id) fun e he => by
      have hlive := (Graph.mem_slots hg.fits.edges_lt hg.valid.edge_id e).mp he
      obtain ⟨n, hn⟩ := Option.isSome_iff_exists.mp (hg.valid.endpoints e.id e hlive).1
      have hid := hg.node_id _ n hn
      refine List.mem_map.mpr ⟨n, (Graph.mem_slots hg.fits.nodes_lt hg.node_id n).mpr ?_, hid⟩
      change g.getNode n.id = some n
      rw [hid]
      exact hn
    rw [List.flatMap_map] at hperm
    obtain ⟨f, hf, hcopy⟩ := exists_copy hg idText_injective (.refl _) hperm
      (records_adjacencyNodes hholds hg hsame.nodes) (records_adjacencyEdges hholds hg _ hsame.nodes)
    refine ⟨f, ⟨d.nodes.length, (d.nodes.map fun n => n.edges.length).sum⟩, ?_, hcopy⟩
    have hknown : ∀ n ∈ d.nodes,
        (((d.nodes.map AdjacencyNode.record).foldl addNodeRecord (.new, ∅)).2.lookup n.id).isSome := fun n hn =>
      isSome_lookup_foldl (Or.inr ⟨n.record, List.mem_map_of_mem hn, rfl⟩)
    rw [importAdjacency, exportAdjacency, hd]
    simp only [Except.mapError, bind, Except.bind, foldl_importAdjacencyNode, foldlM_importAdjacencyEdges hknown, hf]
    rfl

lemma JsonGraph.Same.refl (d : JsonGraph) : d.Same d :=
  ⟨List.forall₂_same.mpr fun _ _ => ⟨rfl, rfl, fun _ => rfl⟩,
    List.forall₂_same.mpr fun _ _ => ⟨rfl, rfl, rfl, fun _ => rfl⟩⟩

lemma AdjacencyGraph.Same.refl (d : AdjacencyGraph) : d.Same d :=
  ⟨List.forall₂_same.mpr fun _ _ => ⟨rfl, rfl, fun _ => rfl,
    List.forall₂_same.mpr fun _ _ => ⟨rfl, rfl, fun _ => rfl⟩⟩⟩

/-- A city with a loop. -/
def portGraph : Graph := (Backup.loopGraph ["City", "Port"]).setNodeProperty 0 "size" (.int 3)

/-- The city as a list of nodes and a list of edges. -/
def portText : String :=
  "\x7b\n  \"nodes\": [\n    \x7b\n      \"id\": \"0\",\n      \"label\": \"City:Port\",\n      \"properties\": \x7b\n" ++
  "        \"size\": 3\n      \x7d\n    \x7d\n  ],\n  \"edges\": [\n    \x7b\n      \"from\": \"0\",\n      \"to\": \"0\",\n" ++
  "      \"type\": \"LOOP\",\n      \"properties\": \x7b\x7d\n    \x7d\n  ]\n\x7d"

/-- The city with its outgoing edges. -/
def portAdjacencyText : String :=
  "\x7b\n  \"nodes\": [\n    \x7b\n      \"id\": \"0\",\n      \"label\": \"City:Port\",\n      \"properties\": \x7b\n" ++
  "        \"size\": 3\n      \x7d,\n      \"edges\": [\n        \x7b\n          \"to\": \"0\",\n" ++
  "          \"type\": \"LOOP\",\n          \"properties\": \x7b\x7d\n        \x7d\n      ]\n    \x7d\n  ]\n\x7d"

/-- `serde_json` on the documents of the city. -/
def portSerde : SerdeJson where
  toWriterPretty _ := portText
  fromReader text := if text = portText then .ok (toJsonGraph portGraph) else .error "unexpected text"
  adjacencyToWriterPretty _ := portAdjacencyText
  adjacencyFromReader text :=
    if text = portAdjacencyText then .ok (toAdjacencyGraph portGraph) else .error "unexpected text"

theorem json_round_trip_port :
    (∃ f stats, importJson portSerde .new (exportJson portSerde portGraph) = .ok (f, stats) ∧ portGraph.IsCopy f) ∧
      ∃ f stats, importAdjacency portSerde .new (exportAdjacency portSerde portGraph) = .ok (f, stats) ∧
        portGraph.IsCopy f := by
  have hinv : portGraph.Inv :=
    (Backup.inv_loopGraph (by decide +kernel) (by decide +kernel)).modifyNode 0 (fun _ => rfl) (fun _ => rfl)
  have hread : portSerde.Inverts (toJsonGraph portGraph) := ⟨toJsonGraph portGraph, by simp [portSerde], .refl _⟩
  have hread' : portSerde.InvertsAdjacency (toAdjacencyGraph portGraph) :=
    ⟨toAdjacencyGraph portGraph, by simp [portSerde], .refl _⟩
  exact json_round_trip portSerde hinv (JsonGraph.holds_of_slots (by decide +kernel) (by decide +kernel)) hread hread'

end Io

end Maharit
