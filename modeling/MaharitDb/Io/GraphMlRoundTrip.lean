import MaharitDb.Io.GraphMlColumns
import MaharitDb.Io.GraphMlReading
import MaharitDb.Io.JsonRoundTrip

/-!
# Exporting and importing GraphML

What the importer makes of an exported document is the graph of one record for each node and edge.  It is the graph up to
the ids if and only if the labels and the values of each element are such as the importer reads.
-/

namespace Maharit

namespace Io

open TrimmedText

namespace GraphMl

/-! ## The keys of a document -/

/-- The definition of the column of a property. -/
def columnDef (forType : KeyFor) (mark : String) (k : String × String) : KeyDef :=
  ⟨mark ++ k.1, k.1, forType, .fromStr k.2⟩

def keyDefs (nodeKeys edgeKeys : KeyList) : List KeyDef :=
  [⟨"label", "label", .node, .string⟩, ⟨"labelE", "label", .edge, .string⟩] ++ nodeKeys.map (columnDef .node "n_") ++
    edgeKeys.map (columnDef .edge "e_")

def insertKey (keys : HashMap String KeyDef) (d : KeyDef) : HashMap String KeyDef := keys.insert d.id d

lemma run_nodeKey (g : Graph) (s : ImportState) (id name type : String) :
    Block.run (g, s) (.tag (writeKey id name "node" type)) =
      (g, { s with keys := insertKey s.keys ⟨id, name, .node, .fromStr type⟩ }) := rfl

lemma run_edgeKey (g : Graph) (s : ImportState) (id name type : String) :
    Block.run (g, s) (.tag (writeKey id name "edge" type)) =
      (g, { s with keys := insertKey s.keys ⟨id, name, .edge, .fromStr type⟩ }) := rfl

lemma run_keyBlocks (nodeKeys edgeKeys : KeyList) (g : Graph) (s : ImportState) :
    (keyBlocks nodeKeys edgeKeys).foldl Block.run (g, s) =
      (g, { s with keys := (keyDefs nodeKeys edgeKeys).foldl insertKey s.keys }) := by
  have hnodes : ∀ (keys : KeyList) (s : ImportState),
      (keys.map fun k => Block.tag (writeKey ("n_" ++ k.1) k.1 "node" k.2)).foldl Block.run (g, s) =
        (g, { s with keys := (keys.map (columnDef .node "n_")).foldl insertKey s.keys }) := by
    intro keys
    induction keys with
    | nil => exact fun s => rfl
    | cons k keys ih =>
      intro s
      rw [List.map_cons, List.map_cons, List.foldl_cons, List.foldl_cons, run_nodeKey, ih]
      rfl
  have hedges : ∀ (keys : KeyList) (s : ImportState),
      (keys.map fun k => Block.tag (writeKey ("e_" ++ k.1) k.1 "edge" k.2)).foldl Block.run (g, s) =
        (g, { s with keys := (keys.map (columnDef .edge "e_")).foldl insertKey s.keys }) := by
    intro keys
    induction keys with
    | nil => exact fun s => rfl
    | cons k keys ih =>
      intro s
      rw [List.map_cons, List.map_cons, List.foldl_cons, List.foldl_cons, run_edgeKey, ih]
      rfl
  rw [keyBlocks, keyDefs, List.foldl_append, List.foldl_append, List.foldl_append, List.foldl_append, List.foldl_cons,
    run_nodeKey, List.foldl_cons, run_edgeKey, List.foldl_nil, hnodes, hedges]
  rfl

/-- Each definition is found under its id. -/
lemma lookup_foldl_insertKey {defs : List KeyDef} (hnodup : (defs.map KeyDef.id).Nodup) {d : KeyDef} (hd : d ∈ defs)
    (keys : HashMap String KeyDef) : (defs.foldl insertKey keys).lookup d.id = some d := by
  have hother : ∀ (defs : List KeyDef) (keys : HashMap String KeyDef) (id : String), id ∉ defs.map KeyDef.id →
      (defs.foldl insertKey keys).lookup id = keys.lookup id := by
    intro defs
    induction defs with
    | nil => exact fun keys id _ => rfl
    | cons a defs ih =>
      intro keys id hid
      rw [List.map_cons, List.mem_cons, not_or] at hid
      rw [List.foldl_cons, ih _ _ hid.2]
      exact AList.lookup_insert_ne hid.1
  induction defs generalizing keys with
  | nil => cases hd
  | cons a defs ih =>
    rw [List.map_cons, List.nodup_cons] at hnodup
    rw [List.foldl_cons]
    rcases List.mem_cons.mp hd with rfl | hd
    · rw [hother _ _ _ hnodup.1]
      exact AList.lookup_insert keys
    · exact ih hnodup.2 hd _

lemma append_left_injective (mark : String) : Function.Injective fun s : String => mark ++ s := by
  intro a b h
  have hlist := congrArg String.toList h
  rw [String.toList_append, String.toList_append, List.append_cancel_left_eq] at hlist
  exact String.toList_inj.mp hlist

lemma nodup_keyDefs {nodeKeys edgeKeys : KeyList} (hnodes : (nodeKeys.map Prod.fst).Nodup)
    (hedges : (edgeKeys.map Prod.fst).Nodup) : ((keyDefs nodeKeys edgeKeys).map KeyDef.id).Nodup := by
  have hids : ∀ (forType : KeyFor) (mark : String) (keys : KeyList),
      (keys.map (columnDef forType mark)).map KeyDef.id = (keys.map Prod.fst).map fun s => mark ++ s := by
    intro forType mark keys
    rw [List.map_map, List.map_map]
    rfl
  have hmark : ∀ {mark a s : String}, mark ++ s = a → mark.toList <+: a.toList := by
    rintro mark a s rfl
    rw [String.toList_append]
    exact List.prefix_append _ _
  rw [keyDefs, List.map_append, List.map_append, hids, hids, List.nodup_append, List.nodup_append]
  refine ⟨⟨by decide, hnodes.map (append_left_injective _), ?_⟩, hedges.map (append_left_injective _), ?_⟩
  · rintro a ha b hb rfl
    obtain ⟨s, -, hs⟩ := List.mem_map.mp hb
    have hfirst : a = "label" ∨ a = "labelE" := by simpa using ha
    have hpre := hmark hs
    rcases hfirst with rfl | rfl
    · exact absurd hpre (by decide)
    · exact absurd hpre (by decide)
  · rintro a ha b hb rfl
    obtain ⟨s, -, hs⟩ := List.mem_map.mp hb
    rcases List.mem_append.mp ha with hlabel | hnode
    · have hfirst : a = "label" ∨ a = "labelE" := by simpa using hlabel
      have hpre := hmark hs
      rcases hfirst with rfl | rfl
      · exact absurd hpre (by decide)
      · exact absurd hpre (by decide)
    · obtain ⟨t, -, ht⟩ := List.mem_map.mp hnode
      have hlist := congrArg String.toList (hs.trans ht.symm)
      rw [String.toList_append, String.toList_append] at hlist
      have hhead : some 'e' = some 'n' := congrArg List.head? hlist
      exact absurd hhead (by decide)

/-- The keys of the document of a graph. -/
structure DocumentKeys (g : Graph) (keys : HashMap String KeyDef) : Prop where
  label : ∃ d, keys.lookup "label" = some d ∧ d.name = "label"
  labelE : ∃ d, keys.lookup "labelE" = some d ∧ d.name = "label"
  node : ∀ name, (firstType (nodeProperties g) name).isSome →
    ∃ d, keys.lookup ("n_" ++ name) = some d ∧ d.name = name ∧ d.attrType = columnType (nodeProperties g) name
  edge : ∀ name, (firstType (edgeProperties g) name).isSome →
    ∃ d, keys.lookup ("e_" ++ name) = some d ∧ d.name = name ∧ d.attrType = columnType (edgeProperties g) name

lemma Lists.nodup {types : HashMap String String} {keys : KeyList} (h : Lists types keys) :
    (keys.map Prod.fst).Nodup := by
  rw [(h.map Prod.fst).nodup_iff, List.map_map]
  exact types.nodupKeys

lemma Lists.mem {types : HashMap String String} {keys : KeyList} (h : Lists types keys) {name type : String}
    (hlookup : types.lookup name = some type) : (name, type) ∈ keys := by
  rw [h.mem_iff, List.mem_map]
  exact ⟨⟨name, type⟩, List.of_mem_dlookup hlookup, rfl⟩

lemma documentKeys {g : Graph} {nodeKeys edgeKeys : KeyList} (hnodes : Lists (nodeTypes g) nodeKeys)
    (hedges : Lists (edgeTypes g) edgeKeys) : DocumentKeys g ((keyDefs nodeKeys edgeKeys).foldl insertKey ∅) := by
  have hfind := fun d hd => lookup_foldl_insertKey (d := d) (nodup_keyDefs hnodes.nodup hedges.nodup) hd ∅
  refine ⟨⟨_, hfind ⟨"label", "label", .node, .string⟩ (by simp [keyDefs]), rfl⟩,
    ⟨_, hfind ⟨"labelE", "label", .edge, .string⟩ (by simp [keyDefs]), rfl⟩, fun name hname => ?_, fun name hname => ?_⟩
  · obtain ⟨type, htype⟩ := Option.isSome_iff_exists.mp hname
    have hmem := hnodes.mem ((lookup_nodeTypes g name).trans htype)
    have hlookup := hfind (columnDef .node "n_" (name, type))
      (List.mem_append_left _ (List.mem_append_right _ (List.mem_map_of_mem hmem)))
    exact ⟨_, hlookup, rfl, by rw [columnType, htype]; rfl⟩
  · obtain ⟨type, htype⟩ := Option.isSome_iff_exists.mp hname
    have hmem := hedges.mem ((lookup_edgeTypes g name).trans htype)
    have hlookup := hfind (columnDef .edge "e_" (name, type)) (List.mem_append_right _ (List.mem_map_of_mem hmem))
    exact ⟨_, hlookup, rfl, by rw [columnType, htype]; rfl⟩

/-! ## What the data of an element say -/

/-- A data item: a label or a property. -/
def readDatum (keys : HashMap String KeyDef) (acc : Properties × Option String) (datum : String × String) :
    Properties × Option String :=
  let keyDef := keys.lookup datum.1
  let name := (keyDef.map KeyDef.name).getD datum.1
  let text := trimText datum.2
  if IsLabelName name then (acc.1, some text) else (acc.1.insert name (parseValue text keyDef), acc.2)

section Data

variable (txt : FloatText)

/-- The data of the properties of an element. -/
def propertyData (mark : String) (entries : Entries) : List (String × String) :=
  entries.map fun p => (mark ++ p.1, propertyToString txt p.2)

/-- What the importer collects of a node. -/
def nodeData (keys : HashMap String KeyDef) (n : Node) : Properties × Option String :=
  (("label", Backup.joinLabels n.labels) :: propertyData txt "n_" n.properties.entries).foldl (readDatum keys) (∅, none)

def edgeData (keys : HashMap String KeyDef) (e : Edge) : Properties × Option String :=
  (("labelE", e.label) :: propertyData txt "e_" e.properties.entries).foldl (readDatum keys) (∅, none)

/-- The record of a node of a document. -/
def nodeRecord (keys : HashMap String KeyDef) (n : Node) : NodeRecord :=
  ⟨idText n.id, splitAtColons ((nodeData txt keys n).2.getD "Node"), (nodeData txt keys n).1.entries⟩

def edgeRecord (keys : HashMap String KeyDef) (e : Edge) : EdgeRecord :=
  ⟨idText e.fromNode, idText e.toNode, (edgeData txt keys e).2.getD "EDGE", (edgeData txt keys e).1.entries⟩

end Data

/-! ## The elements of a document -/

/-- The state between two tags of an element. -/
structure Reading (defs : HashMap String KeyDef) (ids : HashMap String NodeId) (node : Option String)
    (ends : Option (String × String)) (acc : Properties × Option String) (s : ImportState) : Prop where
  keys : s.keys = defs
  idMap : s.idMap = ids
  nodeId : s.nodeId = node
  edge : s.edge = ends
  properties : s.properties = acc.1
  label : s.label = acc.2

section Elements

variable {defs : HashMap String KeyDef} {ids : HashMap String NodeId} {nodeKey : Option String}
  {ends : Option (String × String)} {acc : Properties × Option String} {s : ImportState}

lemma Reading.data (h : Reading defs ids nodeKey ends acc s) (hinside : ¬ (nodeKey = none ∧ ends = none)) (g : Graph)
    (datum : String × String) : ∃ s', Block.run (g, s) (.data datum.1 datum.2) = (g, s') ∧
      Reading defs ids nodeKey ends (readDatum defs acc datum) s' := by
  refine ⟨_, rfl, ?_⟩
  obtain ⟨hkeys, hids, hnode, hends, hproperties, hlabel⟩ := h
  subst hkeys hids hnode hends
  unfold ImportState.finishData readDatum
  dsimp only
  rw [if_neg hinside]
  split
  · exact ⟨rfl, rfl, rfl, rfl, hproperties, rfl⟩
  · refine ⟨rfl, rfl, rfl, rfl, ?_, hlabel⟩
    rw [← hproperties]

lemma Reading.foldl (h : Reading defs ids nodeKey ends acc s) (hinside : ¬ (nodeKey = none ∧ ends = none)) (g : Graph)
    (data : List (String × String)) : ∃ s', (data.map fun d => Block.data d.1 d.2).foldl Block.run (g, s) = (g, s') ∧
      Reading defs ids nodeKey ends (data.foldl (readDatum defs) acc) s' := by
  induction data generalizing acc s with
  | nil => exact ⟨s, rfl, h⟩
  | cons datum data ih =>
    obtain ⟨s₁, hfirst, hreading⟩ := h.data hinside g datum
    obtain ⟨s', hrest, hdone⟩ := ih hreading
    refine ⟨s', ?_, hdone⟩
    rw [List.map_cons, List.foldl_cons, hfirst, hrest]

/-- The state between two elements. -/
structure Between (defs : HashMap String KeyDef) (ids : HashMap String NodeId) (s : ImportState) : Prop where
  keys : s.keys = defs
  idMap : s.idMap = ids
  nodeId : s.nodeId = none
  edge : s.edge = none

variable (txt : FloatText)

lemma propertyBlocks_eq (mark : String) (properties : Properties) : propertyBlocks txt mark properties =
    (propertyData txt mark properties.entries).map fun d => Block.data d.1 d.2 := by
  rw [propertyData, List.map_map]
  rfl

/-- A node of the document is created from its record. -/
lemma Between.node {b : Building} (h : Between defs b.2 s) (n : Node) :
    ∃ s', (nodeBlocks txt n).foldl Block.run (b.1, s) = ((addNodeRecord b (nodeRecord txt defs n)).1, s') ∧
      Between defs (addNodeRecord b (nodeRecord txt defs n)).2 s' := by
  have hstart : Reading defs b.2 (some (idText n.id)) none (∅, none) (s.start "node" [("id", idText n.id)]) :=
    ⟨h.keys, h.idMap, rfl, h.edge, rfl, rfl⟩
  obtain ⟨s₁, hrun, hreading⟩ := hstart.foldl (by simp) b.1
    (("label", Backup.joinLabels n.labels) :: propertyData txt "n_" n.properties.entries)
  rw [List.map_cons, ← propertyBlocks_eq] at hrun
  refine ⟨(s₁.endNode b.1).2, ?_, ?_⟩
  · rw [nodeBlocks, List.foldl_cons, ← List.cons_append, List.foldl_append]
    refine (congrArg (fun state => [Block.tag (.endTag "node")].foldl Block.run state) hrun).trans ?_
    change s₁.endNode b.1 = _
    refine Prod.ext ?_ rfl
    rw [ImportState.endNode, hreading.nodeId, hreading.properties, hreading.label, hreading.idMap]
    rfl
  · rw [ImportState.endNode, hreading.nodeId, hreading.properties, hreading.label, hreading.idMap]
    exact ⟨hreading.keys, rfl, rfl, hreading.edge⟩

/-- An edge of the document is created from its record. -/
lemma Between.edge_run {g g' : Graph} (h : Between defs ids s) (e : Edge × ℕ)
    (hadd : addEdgeRecord ids g (edgeRecord txt defs e.1) = .ok g') :
    ∃ s', (edgeBlocks txt e).foldl Block.run (g, s) = (g', s') ∧ Between defs ids s' := by
  have hstart : Reading defs ids none (some (idText e.1.fromNode, idText e.1.toNode)) (∅, none)
      (s.start "edge" [("id", "e" ++ toString e.2), ("source", idText e.1.fromNode), ("target", idText e.1.toNode)]) :=
    ⟨h.keys, h.idMap, h.nodeId, rfl, rfl, rfl⟩
  obtain ⟨s₁, hrun, hreading⟩ := hstart.foldl (by simp) g
    (("labelE", e.1.label) :: propertyData txt "e_" e.1.properties.entries)
  rw [List.map_cons, ← propertyBlocks_eq] at hrun
  -- the ends are known, so the edge is created
  obtain ⟨fromId, toId, hfrom, hto, hedge⟩ : ∃ fromId toId, ids.lookup (idText e.1.fromNode) = some fromId ∧
      ids.lookup (idText e.1.toNode) = some toId ∧
      addEdge g fromId toId ((edgeData txt defs e.1).2.getD "EDGE") (edgeData txt defs e.1).1.entries = .ok g' := by
    unfold addEdgeRecord findNode edgeRecord at hadd
    dsimp only at hadd
    rcases hfrom : ids.lookup (idText e.1.fromNode) with - | fromId
    · simp [hfrom, bind, Except.bind] at hadd
    rcases hto : ids.lookup (idText e.1.toNode) with - | toId
    · simp [hfrom, hto, bind, Except.bind] at hadd
    refine ⟨fromId, toId, rfl, rfl, ?_⟩
    simp only [hfrom, hto, bind, Except.bind] at hadd
    rcases hedge : addEdge g fromId toId ((edgeData txt defs e.1).2.getD "EDGE") (edgeData txt defs e.1).1.entries with
      x | g₁
    · rw [hedge] at hadd
      cases hadd
    · rw [hedge] at hadd
      rw [show g₁ = g' from Except.ok.inj hadd]
  have hend : s₁.endEdge g =
      (g', { s₁ with edge := none, label := none, properties := ∅, edgesImported := s₁.edgesImported + 1 }) := by
    have hadd' : addEdge g fromId toId (s₁.label.getD "EDGE") s₁.properties.entries = .ok g' := by
      rw [hreading.label, hreading.properties]
      exact hedge
    unfold ImportState.endEdge
    rw [hreading.edge]
    dsimp only
    rw [hreading.idMap, hfrom, hto]
    dsimp only
    rw [hadd']
  refine ⟨{ s₁ with edge := none, label := none, properties := ∅, edgesImported := s₁.edgesImported + 1 }, ?_, ?_⟩
  · rw [edgeBlocks, List.foldl_cons, ← List.cons_append, List.foldl_append]
    refine (congrArg (fun state => [Block.tag (.endTag "edge")].foldl Block.run state) hrun).trans ?_
    exact hend
  · exact ⟨hreading.keys, hreading.idMap, hreading.nodeId, rfl⟩

lemma Between.nodes {b : Building} (h : Between defs b.2 s) (nodes : List Node) :
    ∃ s', (nodes.flatMap (nodeBlocks txt)).foldl Block.run (b.1, s) =
        (((nodes.map (nodeRecord txt defs)).foldl addNodeRecord b).1, s') ∧
      Between defs ((nodes.map (nodeRecord txt defs)).foldl addNodeRecord b).2 s' := by
  induction nodes generalizing b s with
  | nil => exact ⟨s, rfl, h⟩
  | cons n nodes ih =>
    obtain ⟨s₁, hfirst, hbetween⟩ := h.node txt n
    obtain ⟨s', hrest, hdone⟩ := ih hbetween
    refine ⟨s', ?_, hdone⟩
    rw [List.flatMap_cons, List.foldl_append, hfirst, hrest]
    rfl

lemma Between.edges {g f : Graph} (h : Between defs ids s) (edges : List (Edge × ℕ))
    (hf : (edges.map fun e => edgeRecord txt defs e.1).foldlM (addEdgeRecord ids) g = .ok f) :
    ∃ s', (edges.flatMap (edgeBlocks txt)).foldl Block.run (g, s) = (f, s') ∧ Between defs ids s' := by
  induction edges generalizing g s with
  | nil =>
    obtain rfl : g = f := Except.ok.inj hf
    exact ⟨s, rfl, h⟩
  | cons e edges ih =>
    rw [List.map_cons, List.foldlM_cons] at hf
    rcases hadd : addEdgeRecord ids g (edgeRecord txt defs e.1) with x | g₁
    · rw [hadd] at hf
      cases hf
    · rw [hadd] at hf
      obtain ⟨s₁, hfirst, hbetween⟩ := h.edge_run txt e hadd
      obtain ⟨s', hrest, hdone⟩ := ih hbetween hf
      refine ⟨s', ?_, hdone⟩
      rw [List.flatMap_cons, List.foldl_append, hfirst, hrest]

end Elements

/-! ## What is kept -/

/-- The keys of the data of an element. -/
def ElementKeys (defs : HashMap String KeyDef) (mark : String) (column : String → AttrType) (properties : Properties) :
    Prop :=
  ∀ name v, properties.lookup name = some v →
    ∃ d, defs.lookup (mark ++ name) = some d ∧ d.name = name ∧ d.attrType = column name

/-- Labels that are read as they are written: there is one, none has a colon, and there is no white space around them. -/
structure LabelsKept (labels : List String) : Prop where
  ne_nil : labels ≠ []
  colon : ∀ l ∈ labels, ':' ∉ l.toList
  trimmed : trimText (Backup.joinLabels labels) = Backup.joinLabels labels

/-- Properties that are read as they are written: none has the name of a label, and each value fits its column. -/
def ValuesKept (column : String → AttrType) (get : String → Option PropertyValue) : Prop :=
  ∀ name v, get name = some v → ¬ IsLabelName name ∧ Fits (column name) v

section Data

variable {txt : FloatText} {defs : HashMap String KeyDef} {mark : String} {column : String → AttrType}

variable (txt) in
/-- The properties and the label that the data of the properties make. -/
lemma foldl_readDatum {entries : Entries} (hnodup : entries.NodupKeys)
    (hdefs : ∀ p ∈ entries, ∃ d, defs.lookup (mark ++ p.1) = some d ∧ d.name = p.1 ∧ d.attrType = column p.1)
    (acc : Properties × Option String) :
    (∀ name, ((propertyData txt mark entries).foldl (readDatum defs) acc).1.lookup name =
      (if IsLabelName name then none else (entries.dlookup name).map (readAs txt (column name))).or
        (acc.1.lookup name)) ∧
    (((propertyData txt mark entries).foldl (readDatum defs) acc).2 = acc.2 ∨
      ∃ s, ((propertyData txt mark entries).foldl (readDatum defs) acc).2 = some (trimText s)) ∧
    ((∀ p ∈ entries, ¬ IsLabelName p.1) → ((propertyData txt mark entries).foldl (readDatum defs) acc).2 = acc.2) := by
  induction entries generalizing acc with
  | nil => exact ⟨fun name => by simp [propertyData], Or.inl rfl, fun _ => rfl⟩
  | cons p entries ih =>
    rw [List.nodupKeys_cons] at hnodup
    rw [List.forall_mem_cons] at hdefs
    obtain ⟨d, hd, hname, htype⟩ := hdefs.1
    have hfirst : readDatum defs acc (mark ++ p.1, propertyToString txt p.2) =
        if IsLabelName p.1 then (acc.1, some (trimText (propertyToString txt p.2)))
        else (acc.1.insert p.1 (readAs txt (column p.1) p.2), acc.2) := by
      rw [readDatum]
      dsimp only
      rw [hd, Option.map_some, Option.getD_some, hname, parseValue, htype]
      rfl
    have hcons : (propertyData txt mark (p :: entries)).foldl (readDatum defs) acc =
        (propertyData txt mark entries).foldl (readDatum defs)
          (readDatum defs acc (mark ++ p.1, propertyToString txt p.2)) := rfl
    rw [hcons, hfirst]
    have hnone : entries.dlookup p.1 = none := List.dlookup_eq_none.mpr hnodup.1
    by_cases hlabel : IsLabelName p.1
    · rw [if_pos hlabel]
      obtain ⟨hlookup, hany, -⟩ := ih hnodup.2 hdefs.2 (acc.1, some (trimText (propertyToString txt p.2)))
      refine ⟨fun name => ?_, ?_, fun hall => absurd hlabel (hall p List.mem_cons_self)⟩
      · rw [hlookup]
        by_cases hsame : name = p.1
        · rw [hsame, if_pos hlabel, if_pos hlabel]
        · rw [List.dlookup_cons_ne entries p hsame]
      · rcases hany with hkeep | hother
        · exact Or.inr ⟨_, hkeep⟩
        · exact Or.inr hother
    · rw [if_neg hlabel]
      obtain ⟨hlookup, hany, hkeep⟩ := ih hnodup.2 hdefs.2 (acc.1.insert p.1 (readAs txt (column p.1) p.2), acc.2)
      refine ⟨fun name => ?_, hany, fun hall => hkeep fun q hq => hall q (List.mem_cons_of_mem p hq)⟩
      rw [hlookup]
      by_cases hsame : name = p.1
      · rw [hsame, if_neg hlabel, if_neg hlabel, hnone, AList.lookup_insert]
        obtain ⟨key, v⟩ := p
        rw [List.dlookup_cons_eq]
        rfl
      · rw [AList.lookup_insert_ne hsame, List.dlookup_cons_ne entries p hsame]

lemma lookup_toProperties_entries (m : Properties) (name : String) :
    (toProperties m.entries).lookup name = m.lookup name := by
  have hcollect := HashMap.lookup_collect id m name
  rw [Option.map_id, id_eq] at hcollect
  exact hcollect

variable (txt) in
/-- What is read from the data of an element with one label. -/
lemma readData {properties : Properties} (hdefs : ElementKeys defs mark column properties) {labelKey : String}
    (hlabel : ∃ d, defs.lookup labelKey = some d ∧ d.name = "label") (label : String)
    {read : Properties × Option String}
    (hread : read = ((labelKey, label) :: propertyData txt mark properties.entries).foldl (readDatum defs) (∅, none)) :
    (∀ name, read.1.lookup name =
      if IsLabelName name then none else (properties.lookup name).map (readAs txt (column name))) ∧
    (∃ s, read.2 = some (trimText s)) ∧
    ((∀ name v, properties.lookup name = some v → ¬ IsLabelName name) → read.2 = some (trimText label)) := by
  obtain ⟨d, hd, hname⟩ := hlabel
  have hfirst : readDatum defs (∅, none) (labelKey, label) = (∅, some (trimText label)) := by
    have hlabelName : IsLabelName "label" := Or.inl rfl
    rw [readDatum]
    dsimp only
    rw [hd, Option.map_some, Option.getD_some, hname, if_pos hlabelName]
  have hentries : ∀ p ∈ properties.entries, properties.lookup p.1 = some p.2 := fun p hp =>
    (List.mem_dlookup_iff properties.nodupKeys).mpr hp
  obtain ⟨hlookup, hany, hkeep⟩ := foldl_readDatum txt properties.nodupKeys
    (fun p hp => hdefs p.1 p.2 (hentries p hp)) (∅, some (trimText label))
  rw [List.foldl_cons, hfirst] at hread
  subst hread
  refine ⟨fun name => ?_, ?_, fun hall => hkeep fun p hp => hall p.1 p.2 (hentries p hp)⟩
  · rw [hlookup, AList.lookup_empty, Option.or_none]
    rfl
  · rcases hany with hsame | hother
    · exact ⟨label, hsame⟩
    · exact hother

/-- The values that are read fit their columns. -/
lemma valuesKept_read (hcolumn : ∀ name, PlainColumn (column name)) {properties : Properties} {m : Properties}
    (hm : ∀ name, m.lookup name =
      if IsLabelName name then none else (properties.lookup name).map (readAs txt (column name))) :
    ValuesKept column fun name => (toProperties m.entries).lookup name := by
  intro name v hv
  dsimp only at hv
  rw [lookup_toProperties_entries, hm] at hv
  by_cases hlabel : IsLabelName name
  · rw [if_pos hlabel] at hv
    cases hv
  · rw [if_neg hlabel] at hv
    obtain ⟨w, -, rfl⟩ := Option.map_eq_some_iff.mp hv
    exact ⟨hlabel, fits_readAs (hcolumn name) txt w⟩

/-- Values that fit their columns are read as they were. -/
lemma ValuesKept.lookup {properties : Properties} (h : ValuesKept column fun name => properties.lookup name)
    {m : Properties} (hm : ∀ name, m.lookup name =
      if IsLabelName name then none else (properties.lookup name).map (readAs txt (column name))) (name : String) :
    (toProperties m.entries).lookup name = properties.lookup name := by
  rw [lookup_toProperties_entries, hm]
  rcases hv : properties.lookup name with - | v
  · rw [Option.map_none, ite_self]
  · obtain ⟨hlabel, hfits⟩ := h name v hv
    rw [if_neg hlabel, Option.map_some, readAs_of_fits hfits]

end Data

/-- The pieces between the colons of a text without white space around it. -/
lemma labelsKept_split (s : String) : LabelsKept (splitAtColons (trimText s)) := by
  have hjoin : Backup.joinLabels (splitAtColons (trimText s)) = trimText s := by
    refine String.toList_inj.mp ?_
    rw [Backup.toList_joinLabels, splitAtColons, List.map_map]
    have hlists : (String.toList ∘ String.ofList) = id := funext fun cs => String.toList_ofList
    rw [hlists, List.map_id, List.intercalate_splitOn]
  refine ⟨?_, ?_, ?_⟩
  · rw [splitAtColons, ne_eq, List.map_eq_nil_iff]
    exact List.splitOn_ne_nil _ _
  · intro l hl
    obtain ⟨piece, hpiece, rfl⟩ := List.mem_map.mp hl
    rw [String.toList_ofList]
    exact Backup.notMem_of_mem_splitOn hpiece
  · rw [hjoin, trimText_trimText]

lemma LabelsKept.split {labels : List String} (h : LabelsKept labels) :
    splitAtColons (Backup.joinLabels labels) = labels := by
  have hcolon : ∀ cs ∈ labels.map String.toList, ':' ∉ cs := by
    intro cs hcs
    obtain ⟨l, hl, rfl⟩ := List.mem_map.mp hcs
    exact h.colon l hl
  have hsplit := List.splitOn_intercalate ':' hcolon (by simpa using h.ne_nil)
  rw [← Backup.toList_joinLabels] at hsplit
  rw [splitAtColons, hsplit, List.map_map]
  have hlists : (String.ofList ∘ String.toList) = id := funext fun l => String.ofList_toList
  rw [hlists, List.map_id]

/-- A graph whose labels and values are read as they are written. -/
structure Kept (g : Graph) : Prop where
  labels : ∀ i n, g.getNode i = some n → LabelsKept n.labels
  node : ∀ i n, g.getNode i = some n → ValuesKept (columnType (nodeProperties g)) n.getProperty
  label : ∀ i e, g.getEdge i = some e → trimText e.label = e.label
  edge : ∀ i e, g.getEdge i = some e → ValuesKept (columnType (edgeProperties g)) e.getProperty

/-- The values of a graph are truth values, integers and strings. -/
structure PlainGraph (g : Graph) : Prop where
  node : ∀ i n, g.getNode i = some n → ∀ name v, n.getProperty name = some v → PlainValue v
  edge : ∀ i e, g.getEdge i = some e → ∀ name v, e.getProperty name = some v → PlainValue v

section Graphs

variable {txt : FloatText} {g : Graph} {defs : HashMap String KeyDef}

/-! ## The imported graph -/

lemma recordsOf (txt : FloatText) (g : Graph) (defs : HashMap String KeyDef) :
    RecordsOf g idText (nodeRecord txt defs) (edgeRecord txt defs) (g.nodes.filterMap id) (g.edges.filterMap id) :=
  ⟨.refl _, .refl _, idText_injective, fun _ _ => rfl, fun _ _ => rfl, fun _ _ => rfl⟩

/-- The imported graph is built from the records of the nodes and the edges. -/
theorem exists_import {xml : QuickXml} (hg : g.Inv) {written read : List XmlEvent} (hwritten : Exports txt g written)
    (hread : Rereads xml false written read) : ∃ defs f stats, DocumentKeys g defs ∧
      importGraphMl xml .new (read.map .ok) = .ok (f, stats) ∧
      Built ((g.nodes.filterMap id).map (nodeRecord txt defs)) ((g.edges.filterMap id).map (edgeRecord txt defs)) f := by
  obtain ⟨nodeKeys, edgeKeys, hnodeKeys, hedgeKeys, rfl⟩ := hwritten
  have hdefs := documentKeys hnodeKeys hedgeKeys
  obtain ⟨f, hf, hbuilt⟩ := (recordsOf txt g ((keyDefs nodeKeys edgeKeys).foldl insertKey ∅)).exists_built hg
  -- the importer goes through the blocks
  rw [← events_exportBlocks] at hread
  have hrun : read.foldlM (importEvent xml) (Graph.new, ImportState.new) =
      .ok ((exportBlocks txt nodeKeys edgeKeys g).foldl Block.run (.new, .new)) :=
    foldlM_reread (plain_exportBlocks txt nodeKeys edgeKeys g) hread rfl
  have hstart : Between ((keyDefs nodeKeys edgeKeys).foldl insertKey ∅) ∅
      { ImportState.new with keys := (keyDefs nodeKeys edgeKeys).foldl insertKey ∅ } := ⟨rfl, rfl, rfl, rfl⟩
  obtain ⟨s₁, hnodes, hbetween⟩ := Between.nodes txt (b := (.new, ∅)) hstart (g.nodes.filterMap id)
  have hzip : ∀ edges : List Edge, (edges.zipIdx.map fun e : Edge × ℕ =>
      edgeRecord txt ((keyDefs nodeKeys edgeKeys).foldl insertKey ∅) e.1) =
        edges.map (edgeRecord txt ((keyDefs nodeKeys edgeKeys).foldl insertKey ∅)) := by
    intro edges
    conv_rhs => rw [← List.zipIdx_map_fst 0 edges, List.map_map]
    rfl
  obtain ⟨s₂, hedges, -⟩ := hbetween.edges txt (f := f) (g.edges.filterMap id).zipIdx (by rw [hzip]; exact hf)
  have hblocks : (exportBlocks txt nodeKeys edgeKeys g).foldl Block.run (.new, .new) = (f, s₂) := by
    rw [exportBlocks]
    simp only [List.foldl_append]
    have hopen : openBlocks.foldl Block.run (Graph.new, ImportState.new) = (.new, .new) := rfl
    have hgraph : ∀ state, graphBlocks.foldl Block.run state = state := fun _ => rfl
    have hclose : ∀ state, closeBlocks.foldl Block.run state = state := fun _ => rfl
    rw [hopen, run_keyBlocks, hgraph, hclose]
    refine (congrArg (fun state => ((g.edges.filterMap id).zipIdx.flatMap (edgeBlocks txt)).foldl Block.run state)
      hnodes).trans ?_
    exact hedges
  refine ⟨_, f, ⟨s₂.nodesImported, s₂.edgesImported⟩, hdefs, ?_, hbuilt⟩
  have hmap : (read.map Except.ok).foldlM (importNext xml) (Graph.new, ImportState.new) =
      read.foldlM (importEvent xml) (.new, .new) := by
    rw [List.foldlM_map]
    rfl
  rw [importGraphMl, hmap, hrun, hblocks]
  rfl

/-! ## When it is the same graph -/

lemma DocumentKeys.nodeKeys (h : DocumentKeys g defs) {n : Node} (hn : n ∈ g.nodes.filterMap id) :
    ElementKeys defs "n_" (columnType (nodeProperties g)) n.properties := by
  intro name v hv
  obtain ⟨type, htype⟩ := exists_firstType (List.mem_map_of_mem (f := Node.properties) hn) hv
  exact h.node name (Option.isSome_of_eq_some htype)

lemma DocumentKeys.edgeKeys (h : DocumentKeys g defs) {e : Edge} (he : e ∈ g.edges.filterMap id) :
    ElementKeys defs "e_" (columnType (edgeProperties g)) e.properties := by
  intro name v hv
  obtain ⟨type, htype⟩ := exists_firstType (List.mem_map_of_mem (f := Edge.properties) he) hv
  exact h.edge name (Option.isSome_of_eq_some htype)

/-- What the record of a node says. -/
lemma DocumentKeys.nodeRecord_keeps (h : DocumentKeys g defs) {n : Node} (hn : n ∈ g.nodes.filterMap id)
    (hlabels : LabelsKept n.labels) (hvalues : ValuesKept (columnType (nodeProperties g)) n.getProperty) :
    (nodeRecord txt defs n).Keeps n := by
  obtain ⟨hlookup, -, hlabel⟩ := readData txt (h.nodeKeys hn) h.label (Backup.joinLabels n.labels) rfl
  refine ⟨?_, hvalues.lookup hlookup⟩
  have hread := hlabel fun name v hv => (hvalues name v hv).1
  rw [nodeRecord]
  dsimp only
  rw [nodeData, hread, Option.getD_some, hlabels.trimmed, hlabels.split]

lemma DocumentKeys.edgeRecord_keeps (h : DocumentKeys g defs) {e : Edge} (he : e ∈ g.edges.filterMap id)
    (htrimmed : trimText e.label = e.label) (hvalues : ValuesKept (columnType (edgeProperties g)) e.getProperty) :
    (edgeRecord txt defs e).Keeps e := by
  obtain ⟨hlookup, -, hlabel⟩ := readData txt (h.edgeKeys he) h.labelE e.label rfl
  refine ⟨?_, hvalues.lookup hlookup⟩
  have hread := hlabel fun name v hv => (hvalues name v hv).1
  rw [edgeRecord]
  dsimp only
  rw [edgeData, hread, Option.getD_some, htrimmed]

lemma PlainGraph.nodeColumn (h : PlainGraph g) (hg : g.Inv) (name : String) : PlainColumn (columnType (nodeProperties g) name) := by
  refine plainColumn (fun properties hmem => ?_) name
  obtain ⟨n, hn, rfl⟩ := List.mem_map.mp hmem
  exact h.node n.id n ((Graph.mem_slots hg.fits.nodes_lt hg.node_id n).mp hn)

lemma PlainGraph.edgeColumn (h : PlainGraph g) (hg : g.Inv) (name : String) : PlainColumn (columnType (edgeProperties g) name) := by
  refine plainColumn (fun properties hmem => ?_) name
  obtain ⟨e, he, rfl⟩ := List.mem_map.mp hmem
  exact h.edge e.id e ((Graph.mem_slots hg.fits.edges_lt hg.valid.edge_id e).mp he)

/-- A graph that is the same as the imported one has the labels and the values that are read. -/
lemma kept_of_isCopy (hg : g.Inv) (hplain : PlainGraph g) (hdefs : DocumentKeys g defs) {f : Graph}
    (hbuilt : Built ((g.nodes.filterMap id).map (nodeRecord txt defs)) ((g.edges.filterMap id).map (edgeRecord txt defs)) f)
    (hcopy : g.IsCopy f) : Kept g := by
  obtain ⟨ν, ε, hcopies⟩ := hcopy
  have hnode : ∀ i n, g.getNode i = some n →
      LabelsKept n.labels ∧ ValuesKept (columnType (nodeProperties g)) n.getProperty := by
    intro i n hn
    obtain ⟨b, hb, hsame⟩ := hcopies.node i n hn
    obtain ⟨r, hr, rfl⟩ := hbuilt.exists_node hb
    obtain ⟨m, hm, rfl⟩ := List.mem_map.mp (List.mem_of_getElem? hr)
    obtain ⟨hlookup, ⟨s, hs⟩, -⟩ := readData txt (hdefs.nodeKeys hm) hdefs.label (Backup.joinLabels m.labels) rfl
    have hlabels : LabelsKept (nodeRecord txt defs m).labels := by
      rw [nodeRecord]
      dsimp only
      rw [nodeData, hs]
      exact labelsKept_split s
    have hvalues := valuesKept_read (hplain.nodeColumn hg) hlookup
    refine ⟨hsame.labels ▸ hlabels, fun name v hv => hvalues name v ?_⟩
    exact (hsame.properties name).trans hv
  have hedge : ∀ i e, g.getEdge i = some e →
      trimText e.label = e.label ∧ ValuesKept (columnType (edgeProperties g)) e.getProperty := by
    intro i e he
    obtain ⟨c, hc, hsame, -, -⟩ := hcopies.edge i e he
    obtain ⟨r, hr, hlabel, hproperties⟩ := hbuilt.exists_edge hc
    obtain ⟨m, hm, rfl⟩ := List.mem_map.mp (List.mem_of_getElem? hr)
    obtain ⟨hlookup, ⟨s, hs⟩, -⟩ := readData txt (hdefs.edgeKeys hm) hdefs.labelE m.label rfl
    have htrimmed : (edgeRecord txt defs m).label = trimText s := by
      rw [edgeRecord]
      dsimp only
      rw [edgeData, hs, Option.getD_some]
    have hvalues := valuesKept_read (hplain.edgeColumn hg) hlookup
    refine ⟨?_, fun name v hv => hvalues name v ?_⟩
    · rw [← hsame.label, hlabel, htrimmed, trimText_trimText]
    · refine Eq.trans ?_ ((hsame.properties name).trans hv)
      rw [Edge.getProperty, hproperties]
      rfl
  exact ⟨fun i n hn => (hnode i n hn).1, fun i n hn => (hnode i n hn).2, fun i e he => (hedge i e he).1,
    fun i e he => (hedge i e he).2⟩

/-- A graph whose labels and values are read as they are written is the same after the import. -/
lemma isCopy_of_kept (hg : g.Inv) (hkept : Kept g) (hdefs : DocumentKeys g defs) {f : Graph}
    (hbuilt : Built ((g.nodes.filterMap id).map (nodeRecord txt defs)) ((g.edges.filterMap id).map (edgeRecord txt defs)) f) :
    g.IsCopy f := by
  refine ⟨_, _, (recordsOf txt g defs).copies hg hbuilt (fun i n hn => ?_) fun i e he => ?_⟩
  · exact hdefs.nodeRecord_keeps (Slots.mem_filterMap_id.mpr ⟨_, hn⟩) (hkept.labels i n hn) (hkept.node i n hn)
  · exact hdefs.edgeRecord_keeps (Slots.mem_filterMap_id.mpr ⟨_, he⟩) (hkept.label i e he) (hkept.edge i e he)

end Graphs

/-- An exported graph of truth values, integers and strings is the same after it was imported into an empty graph if and
only if its labels and its values are read as they are written. -/
theorem graphMl_round_trip_iff {xml : QuickXml} {txt : FloatText} {g : Graph} (hg : g.Inv) (hplain : PlainGraph g)
    {written read : List XmlEvent} (hwritten : Exports txt g written) (hread : Rereads xml false written read) :
    (∃ f stats, importGraphMl xml .new (read.map .ok) = .ok (f, stats) ∧ g.IsCopy f) ↔ Kept g := by
  obtain ⟨defs, f, stats, hdefs, himport, hbuilt⟩ := exists_import hg hwritten hread
  constructor
  · rintro ⟨f', stats', himport', hcopy⟩
    have hsame := Except.ok.inj (himport.symm.trans himport')
    obtain rfl : f = f' := congrArg Prod.fst hsame
    exact kept_of_isCopy hg hplain hdefs hbuilt hcopy
  · intro hkept
    exact ⟨f, stats, himport, isCopy_of_kept hg hkept hdefs hbuilt⟩

/-! ## Two documents -/

/-- The events that `export` writes. -/
def IsWritten : XmlEvent → Prop
  | .start _ _ | .empty _ _ | .endTag _ | .text _ | .other => True
  | .cData _ | .generalRef _ => False

instance : DecidablePred IsWritten
  | .start _ _ | .empty _ _ | .endTag _ | .text _ | .other => isTrue trivial
  | .cData _ | .generalRef _ => isFalse not_false

/-- The white space in front of a tag. -/
def indentation (lineBreak : Bool) (depth : ℕ) : List XmlEvent :=
  if lineBreak then [.text (String.ofList ('\n' :: List.replicate (2 * depth) ' '))] else []

/-- A document without references in its texts, written with an indentation of two and read again. -/
def reread : Bool → ℕ → List XmlEvent → List XmlEvent
  | _, _, [] => []
  | _, depth, .text s :: events => (if s = "" then [] else [.text s]) ++ reread false depth events
  | lineBreak, depth, .start name attributes :: events =>
    indentation lineBreak depth ++ .start name attributes :: reread true (depth + 1) events
  | lineBreak, depth, .endTag name :: events =>
    indentation lineBreak (depth - 1) ++ .endTag name :: reread true (depth - 1) events
  | lineBreak, depth, e :: events => indentation lineBreak depth ++ e :: reread true depth events

lemma rereads_reread (xml : QuickXml) {events : List XmlEvent} (h : ∀ e ∈ events, IsWritten e) {lineBreak : Bool}
    {afterText : Bool} (hbreak : lineBreak = true → afterText = false) (depth : ℕ) :
    Rereads xml afterText events (reread lineBreak depth events) := by
  have htag : ∀ {e : XmlEvent} {lineBreak afterText : Bool} {written read : List XmlEvent} (depth : ℕ), e.IsTag →
      (lineBreak = true → afterText = false) → Rereads xml false written read →
      Rereads xml afterText (e :: written) (indentation lineBreak depth ++ e :: read) := by
    intro e lineBreak afterText written read depth he hbreak hrest
    rcases lineBreak with - | -
    · exact .tag he hrest
    · rw [hbreak rfl]
      refine .indent he (fun c hc => ?_) hrest
      rw [String.toList_ofList, List.mem_cons] at hc
      rcases hc with rfl | hc
      · decide
      · rw [List.eq_of_mem_replicate hc]
        decide
  induction events generalizing lineBreak afterText depth with
  | nil => exact .nil afterText
  | cons e events ih =>
    rw [List.forall_mem_cons] at h
    rcases e with ⟨name, attributes⟩ | ⟨name, attributes⟩ | name | s | s | r | _
    · exact htag depth trivial hbreak (ih h.2 (fun _ => rfl) (depth + 1))
    · exact htag depth trivial hbreak (ih h.2 (fun _ => rfl) depth)
    · exact htag (depth - 1) trivial hbreak (ih h.2 (fun _ => rfl) (depth - 1))
    · have hrest : Rereads xml true events (reread false depth events) := ih h.2 (fun hfalse => by cases hfalse) depth
      rw [reread]
      by_cases hs : s = ""
      · rw [if_pos hs]
        exact .text .nil hs.symm hrest
      · rw [if_neg hs]
        exact .text (.cons (.text s) .nil) (by simp) hrest
    · exact h.1.elim
    · exact h.1.elim
    · exact htag depth trivial hbreak (ih h.2 (fun _ => rfl) depth)

/-- `quick_xml` on the predefined entities. -/
def predefinedXml : QuickXml where
  resolveCharRef _ := .ok none
  resolvePredefinedEntity r :=
    match r with
    | "lt" => some "<"
    | "gt" => some ">"
    | "amp" => some "&"
    | "apos" => some "'"
    | "quot" => some "\""
    | _ => none

/-- The texts of floats in a document without floats. -/
def noFloats : FloatText := ⟨fun _ => "", fun _ => ""⟩

instance (labels : List String) : Decidable (LabelsKept labels) :=
  decidable_of_iff (labels ≠ [] ∧ (∀ l ∈ labels, ':' ∉ l.toList) ∧
      trimText (Backup.joinLabels labels) = Backup.joinLabels labels)
    ⟨fun h => ⟨h.1, h.2.1, h.2.2⟩, fun h => ⟨h.ne_nil, h.colon, h.trimmed⟩⟩

/-- It is enough to look at the occupied slots. -/
lemma kept_of_slots {g : Graph} (hnodes : ∀ n ∈ g.nodes.filterMap id, LabelsKept n.labels ∧
      ∀ p ∈ n.properties.entries, ¬ IsLabelName p.1 ∧ Fits (columnType (nodeProperties g) p.1) p.2)
    (hedges : ∀ e ∈ g.edges.filterMap id, trimText e.label = e.label ∧
      ∀ p ∈ e.properties.entries, ¬ IsLabelName p.1 ∧ Fits (columnType (edgeProperties g) p.1) p.2) : Kept g := by
  refine ⟨fun i n hn => ?_, fun i n hn name v hv => ?_, fun i e he => ?_, fun i e he name v hv => ?_⟩
  · exact (hnodes n (Slots.mem_filterMap_id.mpr ⟨_, hn⟩)).1
  · exact (hnodes n (Slots.mem_filterMap_id.mpr ⟨_, hn⟩)).2 ⟨name, v⟩ (List.of_mem_dlookup hv)
  · exact (hedges e (Slots.mem_filterMap_id.mpr ⟨_, he⟩)).1
  · exact (hedges e (Slots.mem_filterMap_id.mpr ⟨_, he⟩)).2 ⟨name, v⟩ (List.of_mem_dlookup hv)

lemma plainGraph_of_slots {g : Graph} (hnodes : ∀ n ∈ g.nodes.filterMap id, ∀ p ∈ n.properties.entries, PlainValue p.2)
    (hedges : ∀ e ∈ g.edges.filterMap id, ∀ p ∈ e.properties.entries, PlainValue p.2) : PlainGraph g := by
  refine ⟨fun i n hn name v hv => ?_, fun i e he name v hv => ?_⟩
  · exact hnodes n (Slots.mem_filterMap_id.mpr ⟨_, hn⟩) ⟨name, v⟩ (List.of_mem_dlookup hv)
  · exact hedges e (Slots.mem_filterMap_id.mpr ⟨_, he⟩) ⟨name, v⟩ (List.of_mem_dlookup hv)

/-- The document of the city. -/
def portDocument : List XmlEvent := exportEvents noFloats [("size", "long")] [] portGraph

theorem graphMl_round_trip_port : ∃ f stats,
    importGraphMl predefinedXml .new ((reread false 0 portDocument).map .ok) = .ok (f, stats) ∧
      portGraph.IsCopy f := by
  have hinv : portGraph.Inv :=
    (Backup.inv_loopGraph (by decide +kernel) (by decide +kernel)).modifyNode 0 (fun _ => rfl) (fun _ => rfl)
  have hplain : PlainGraph portGraph := plainGraph_of_slots (by decide +kernel) (by decide +kernel)
  have hwritten : Exports noFloats portGraph portDocument :=
    ⟨[("size", "long")], [], by unfold Lists; decide +kernel, by unfold Lists; decide +kernel, rfl⟩
  have hread : Rereads predefinedXml false portDocument (reread false 0 portDocument) :=
    rereads_reread predefinedXml (by decide +kernel) (fun hfalse => by cases hfalse) 0
  exact (graphMl_round_trip_iff hinv hplain hwritten hread).mpr
    (kept_of_slots (by decide +kernel) (by decide +kernel))

/-- The document of a node without labels. -/
def bareDocument : List XmlEvent := exportEvents noFloats [] [] (Backup.loopGraph [])

/-- A node without labels is read with one empty label. -/
theorem graphMl_bare_lost : Exports noFloats (Backup.loopGraph []) bareDocument ∧
    Rereads predefinedXml false bareDocument (reread false 0 bareDocument) ∧
    ¬ ∃ f stats, importGraphMl predefinedXml .new ((reread false 0 bareDocument).map .ok) = .ok (f, stats) ∧
      (Backup.loopGraph []).IsCopy f := by
  have hinv : (Backup.loopGraph []).Inv := Backup.inv_loopGraph (by decide +kernel) (by decide +kernel)
  have hplain : PlainGraph (Backup.loopGraph []) := plainGraph_of_slots (by decide +kernel) (by decide +kernel)
  have hwritten : Exports noFloats (Backup.loopGraph []) bareDocument :=
    ⟨[], [], by unfold Lists; decide +kernel, by unfold Lists; decide +kernel, rfl⟩
  have hread : Rereads predefinedXml false bareDocument (reread false 0 bareDocument) :=
    rereads_reread predefinedXml (by decide +kernel) (fun hfalse => by cases hfalse) 0
  refine ⟨hwritten, hread, ?_⟩
  rintro ⟨f', stats', himport', hcopy⟩
  obtain ⟨defs, f, stats, hdefs, himport, hbuilt⟩ := exists_import hinv hwritten hread
  have hsame := Except.ok.inj (himport.symm.trans himport')
  obtain rfl : f = f' := congrArg Prod.fst hsame
  have hkept := kept_of_isCopy hinv hplain hdefs hbuilt hcopy
  exact (hkept.labels 0 ⟨0, [], ∅⟩ rfl).ne_nil rfl

end GraphMl

end Io

end Maharit
