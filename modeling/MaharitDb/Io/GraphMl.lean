import MaharitDb.Io.CellValue
import MaharitDb.Io.Json
import MaharitDb.Lib.TrimmedText

/-!
# Graphs as GraphML

`maharit-io/src/graphml_io.rs`: the exporter writes a document event by event, and the importer goes through the events
that are read.  How events become a text and how a text becomes events is left to `quick_xml`.
-/

namespace Maharit

namespace Io

open TrimmedText

/-! ## Events -/

/-- The attributes of a tag, with their values. -/
abbrev XmlAttributes := List (String × String)

/-- `quick_xml::events::Event`; a text is its content without escapes. -/
inductive XmlEvent where
  | start (name : String) (attributes : XmlAttributes)
  | empty (name : String) (attributes : XmlAttributes)
  | endTag (name : String)
  | text (content : String)
  | cData (content : String)
  | generalRef (name : String)
  | other
  deriving DecidableEq, Repr

/-- What `quick_xml` makes of references. -/
structure QuickXml where
  resolveCharRef : String → Except String (Option Char)
  resolvePredefinedEntity : String → Option String

/-- The text of a reference. -/
def QuickXml.resolve (xml : QuickXml) (r : String) : Except IoError String :=
  match xml.resolveCharRef r with
  | .ok (some ch) => .ok (String.singleton ch)
  | .ok none =>
    match xml.resolvePredefinedEntity r with
    | some resolved => .ok resolved
    | none => .error (.invalidFormat ("unknown XML entity: &" ++ r ++ ";"))
  | .error e => .error (.invalidFormat ("invalid XML character reference: " ++ e))

/-! ## Keys -/

inductive KeyFor where
  | node
  | edge
  | all
  deriving DecidableEq, Repr

inductive AttrType where
  | string
  | int
  | long
  | float
  | double
  | boolean
  deriving DecidableEq, Repr

/-- `AttrType::from_str`. -/
def AttrType.fromStr : String → AttrType
  | "int" => .int
  | "long" => .long
  | "float" => .float
  | "double" => .double
  | "boolean" => .boolean
  | _ => .string

structure KeyDef where
  id : String
  name : String
  forType : KeyFor
  attrType : AttrType
  deriving DecidableEq, Repr

/-- `get_attr`. -/
def getAttr (attributes : XmlAttributes) (name : String) : Option String := attributes.lookup name

/-- `parse_key`. -/
def parseKey (attributes : XmlAttributes) : Option KeyDef := do
  let id ← getAttr attributes "id"
  let name := (getAttr attributes "attr.name").getD id
  let forType :=
    match (getAttr attributes "for").getD "all" with
    | "node" => KeyFor.node
    | "edge" => .edge
    | _ => .all
  return ⟨id, name, forType, .fromStr ((getAttr attributes "attr.type").getD "string")⟩

namespace GraphMl

/-- A text as a value of a type. -/
def parseAs (text : String) : AttrType → PropertyValue
  | .int | .long =>
    match parseI64 text with
    | some n => .int n
    | none => .string text
  | .float | .double =>
    match parseF64 text with
    | some x => .float x
    | none => .string text
  | .boolean => .bool (text = "true" || text = "1")
  | .string => .string text

/-- `parse_value`. -/
def parseValue (text : String) : Option KeyDef → PropertyValue
  | some key => parseAs text key.attrType
  | none =>
    match parseI64 text with
    | some n => .int n
    | none =>
      match parseF64 text with
      | some x => .float x
      | none => if text = "true" ∨ text = "false" then .bool (text = "true") else .string text

end GraphMl

/-! ## Import -/

/-- `ImportState`. -/
structure ImportState where
  keys : HashMap String KeyDef
  idMap : HashMap String NodeId
  nodesImported : ℕ
  edgesImported : ℕ
  /-- The id of the node that is being read. -/
  nodeId : Option String
  /-- The ends of the edge that is being read. -/
  edge : Option (String × String)
  /-- The key of the data that is being read. -/
  dataKey : Option String
  dataText : String
  properties : Properties
  label : Option String

/-- The pieces of a text between its colons, `split(':')`. -/
def splitAtColons (s : String) : List String := (s.toList.splitOn ':').map String.ofList

/-- A name that stands for the label. -/
def IsLabelName (name : String) : Prop := name = "label" ∨ name = "labelV" ∨ name = "labelE"

instance : DecidablePred IsLabelName := fun _ => inferInstanceAs (Decidable (_ ∨ _ ∨ _))

namespace ImportState

/-- `ImportState::default`. -/
def new : ImportState := ⟨∅, ∅, 0, 0, none, none, none, "", ∅, none⟩

/-- `start`. -/
def start (s : ImportState) (name : String) (attributes : XmlAttributes) : ImportState :=
  match name with
  | "key" =>
    match parseKey attributes with
    | some keyDef => { s with keys := s.keys.insert keyDef.id keyDef }
    | none => s
  | "node" => { s with nodeId := getAttr attributes "id", properties := ∅, label := none }
  | "edge" =>
    let edge :=
      match getAttr attributes "source", getAttr attributes "target" with
      | some source, some target => some (source, target)
      | _, _ => none
    { s with edge := edge, properties := ∅, label := none }
  | "data" => { s with dataKey := getAttr attributes "key", dataText := "" }
  | _ => s

/-- `push_text`. -/
def pushText (s : ImportState) (text : String) : ImportState :=
  if s.dataKey.isSome then { s with dataText := s.dataText ++ text } else s

/-- `finish_data`. -/
def finishData (s : ImportState) : ImportState :=
  match s.dataKey with
  | none => s
  | some keyId =>
    let s := { s with dataKey := none }
    if s.nodeId = none ∧ s.edge = none then s
    else
      let text := trimText s.dataText
      let keyDef := s.keys.lookup keyId
      let name := (keyDef.map KeyDef.name).getD keyId
      if IsLabelName name then { s with label := some text }
      else { s with properties := s.properties.insert name (GraphMl.parseValue text keyDef) }

/-- The end of a node: it is created with its labels and its properties. -/
def endNode (g : Graph) (s : ImportState) : Graph × ImportState :=
  match s.nodeId with
  | none => (g, s)
  | some nodeId =>
    let labels := splitAtColons (s.label.getD "Node")
    let (g, idMap) := addNode (g, s.idMap) nodeId labels s.properties.entries
    (g, { s with nodeId := none, label := none, idMap := idMap, properties := ∅, nodesImported := s.nodesImported + 1 })

/-- The end of an edge: it is created if its ends are known. -/
def endEdge (g : Graph) (s : ImportState) : Graph × ImportState :=
  match s.edge with
  | none => (g, s)
  | some (source, target) =>
    let s := { s with edge := none }
    match s.idMap.lookup source, s.idMap.lookup target with
    | some fromId, some toId =>
      let label := s.label.getD "EDGE"
      let s := { s with label := none }
      match addEdge g fromId toId label s.properties.entries with
      | .ok g => (g, { s with properties := ∅, edgesImported := s.edgesImported + 1 })
      | .error _ => (g, s)
    | _, _ => (g, s)

/-- `end`. -/
def finish (g : Graph) (s : ImportState) (name : String) : Graph × ImportState :=
  match name with
  | "data" => (g, s.finishData)
  | "node" => s.endNode g
  | "edge" => s.endEdge g
  | _ => (g, s)

end ImportState

/-- What the importer does with an event. -/
def importEvent (xml : QuickXml) (state : Graph × ImportState) : XmlEvent → Except IoError (Graph × ImportState)
  | .start name attributes => .ok (state.1, state.2.start name attributes)
  | .empty name attributes => .ok ((state.2.start name attributes).finish state.1 name)
  | .endTag name => .ok (state.2.finish state.1 name)
  | .text content => .ok (state.1, state.2.pushText content)
  | .cData content => .ok (state.1, state.2.pushText content)
  | .generalRef r => do
    let resolved ← xml.resolve r
    return (state.1, state.2.pushText resolved)
  | .other => .ok state

/-- What the importer does with a result of the reader. -/
def importNext (xml : QuickXml) (state : Graph × ImportState) (event : Except String XmlEvent) :
    Except IoError (Graph × ImportState) := do
  let event ← event.mapError fun e => IoError.invalidFormat ("XML parse error: " ++ e)
  importEvent xml state event

/-- `import`, over the results of `read_event_into`. -/
def importGraphMl (xml : QuickXml) (g : Graph) (events : List (Except String XmlEvent)) :
    Except IoError (Graph × ImportStats) := do
  let (g, s) ← events.foldlM (importNext xml) (g, .new)
  return (g, ⟨s.nodesImported, s.edgesImported⟩)

/-! ## Export -/

/-- The types of the properties with a name, in the order of an iteration. -/
abbrev KeyList := List (String × String)

namespace GraphMl

/-- `property_type`. -/
def propertyType : PropertyValue → String
  | .null => "string"
  | .bool _ => "boolean"
  | .int _ => "long"
  | .float _ => "double"
  | .string _ => "string"
  | .date _ | .dateTime _ | .duration _ _ _ => "string"

/-- `property_to_string`. -/
def propertyToString (txt : FloatText) : PropertyValue → String
  | .null => ""
  | .bool b => toString b
  | .int n => toString n.toInt
  | .float x => x.toDisplay txt
  | .string s => s
  | .date days => (PropertyValue.date days).toDisplay txt
  | .dateTime ms => (PropertyValue.dateTime ms).toDisplay txt
  | .duration months days millis => (PropertyValue.duration months days millis).toDisplay txt

/-- `entry(key).or_insert_with` for each of the properties of an element. -/
def collectTypes (types : HashMap String String) (properties : Properties) : HashMap String String :=
  properties.entries.foldl (fun types p =>
    if p.1 ∈ types then types else types.insert p.1 (propertyType p.2)) types

/-- The first half of `collect_keys`. -/
def nodeTypes (g : Graph) : HashMap String String :=
  (g.nodes.filterMap id).foldl (fun types n => collectTypes types n.properties) ∅

/-- The second half of `collect_keys`. -/
def edgeTypes (g : Graph) : HashMap String String :=
  (g.edges.filterMap id).foldl (fun types e => collectTypes types e.properties) ∅

/-- `write_key`. -/
def writeKey (id name forType attrType : String) : XmlEvent :=
  .empty "key" [("id", id), ("for", forType), ("attr.name", name), ("attr.type", attrType)]

/-- `write_data`. -/
def writeData (key value : String) : List XmlEvent := [.start "data" [("key", key)], .text value, .endTag "data"]

/-- The properties of an element. -/
def writeProperties (txt : FloatText) (mark : String) (properties : Properties) : List XmlEvent :=
  properties.entries.flatMap fun p => writeData (mark ++ p.1) (propertyToString txt p.2)

def writeNode (txt : FloatText) (n : Node) : List XmlEvent :=
  .start "node" [("id", idText n.id)] :: writeData "label" (Backup.joinLabels n.labels) ++
    writeProperties txt "n_" n.properties ++ [.endTag "node"]

def writeEdge (txt : FloatText) (idx : ℕ) (e : Edge) : List XmlEvent :=
  .start "edge" [("id", "e" ++ toString idx), ("source", idText e.fromNode), ("target", idText e.toNode)] ::
    writeData "labelE" e.label ++ writeProperties txt "e_" e.properties ++ [.endTag "edge"]

/-- `export`, with the keys in the order in which they are collected. -/
def exportEvents (txt : FloatText) (nodeKeys edgeKeys : KeyList) (g : Graph) : List XmlEvent :=
  [.other, .start "graphml" [("xmlns", "http://graphml.graphdrawing.org/xmlns"),
    ("xmlns:xsi", "http://www.w3.org/2001/XMLSchema-instance"),
    ("xsi:schemaLocation", "http://graphml.graphdrawing.org/xmlns " ++
      "http://graphml.graphdrawing.org/xmlns/1.0/graphml.xsd")],
    writeKey "label" "label" "node" "string", writeKey "labelE" "label" "edge" "string"] ++
  nodeKeys.map (fun k => writeKey ("n_" ++ k.1) k.1 "node" k.2) ++
  edgeKeys.map (fun k => writeKey ("e_" ++ k.1) k.1 "edge" k.2) ++
  [.start "graph" [("id", "G"), ("edgedefault", "directed")]] ++
  (g.nodes.filterMap id).flatMap (writeNode txt) ++
  (g.edges.filterMap id).zipIdx.flatMap (fun e => writeEdge txt e.2 e.1) ++
  [.endTag "graph", .endTag "graphml"]

/-- The entries of a map in some order. -/
def Lists (types : HashMap String String) (keys : KeyList) : Prop :=
  keys.Perm (types.entries.map fun p => (p.1, p.2))

/-- The events that `export` can write: a map gives its entries in any order. -/
def Exports (txt : FloatText) (g : Graph) (events : List XmlEvent) : Prop :=
  ∃ nodeKeys edgeKeys, Lists (nodeTypes g) nodeKeys ∧ Lists (edgeTypes g) edgeKeys ∧
    events = exportEvents txt nodeKeys edgeKeys g

end GraphMl

end Io

end Maharit
