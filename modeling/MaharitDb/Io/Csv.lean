import MaharitDb.Io.CellValue
import MaharitDb.Io.Records

/-!
# The two CSV loaders

`CsvImporter` of `maharit-io/src/csv_io.rs` and `BulkLoader` of `maharit-io/src/bulk_io.rs`.  The `csv` crate gives both
the same headers and the same records, of which any may be an error.
-/

namespace Maharit

namespace Io

/-- The cells of a row. -/
abbrev Record := List String

/-- What `csv::Reader` reads in a file. -/
structure CsvFile where
  headers : Except String (List String)
  records : List (Except String Record)

/-- `record.get(i).unwrap_or("")`. -/
def cell (record : Record) (i : ℕ) : String := record[i]?.getD ""

/-- The properties in the cells of a row from a column on; an empty cell is no property. -/
def cellEntries (parse : String → PropertyValue) (headers : List String) (first : ℕ) (record : Record) : Entries :=
  (headers.zipIdx.drop first).filterMap fun h =>
    match record[h.2]? with
    | some value => if value.isEmpty then none else some ⟨h.1, parse value⟩
    | none => none

/-! ## The importer -/

namespace CsvImporter

/-- `parse_value`. -/
def parseValue (s : String) : PropertyValue := parseCell s

/-- A row of the nodes. -/
def importNode (headers : List String) (b : Building) (result : Except String Record) : Except IoError Building := do
  let record ← result.mapError .csv
  return addNode b (cell record 0) (Backup.splitLabels (cell record 1)) (cellEntries parseValue headers 2 record)

/-- `import_nodes`: the graph, and the id map of the statistics. -/
def importNodes (g : Graph) (file : CsvFile) : Except IoError Building := do
  let headers ← file.headers.mapError .csv
  if headers.length < 2 then
    throw (.invalidFormat "Node CSV must have at least 'id' and 'label' columns")
  file.records.foldlM (importNode headers) (g, ∅)

/-- A row of the edges. -/
def importEdge (headers : List String) (idMap : HashMap String NodeId) (g : Graph) (result : Except String Record) :
    Except IoError Graph := do
  let record ← result.mapError .csv
  let fromId ← findNode idMap (cell record 0)
  let toId ← findNode idMap (cell record 1)
  (addEdge g fromId toId (cell record 2) (cellEntries parseValue headers 3 record)).mapError .graph

/-- `import_edges`. -/
def importEdges (g : Graph) (file : CsvFile) (idMap : HashMap String NodeId) : Except IoError Graph := do
  let headers ← file.headers.mapError .csv
  if headers.length < 3 then
    throw (.invalidFormat "Edge CSV must have at least 'from', 'to', and 'type' columns")
  file.records.foldlM (importEdge headers idMap) g

end CsvImporter

/-! ## The bulk loader -/

/-- `BulkConfig`. -/
structure BulkConfig where
  batchSize : ℕ
  skipErrors : Bool
  maxErrors : ℕ

/-- `BulkStats`. -/
structure BulkStats where
  nodesImported : ℕ
  edgesImported : ℕ
  errors : ℕ
  errorMessages : List String

namespace BulkStats

/-- `BulkStats::default`. -/
def empty : BulkStats := ⟨0, 0, 0, []⟩

/-- `add_error`. -/
def addError (stats : BulkStats) (message : String) : BulkStats :=
  { stats with
    errors := stats.errors + 1
    errorMessages := if stats.errorMessages.length < 100 then stats.errorMessages ++ [message] else stats.errorMessages }

end BulkStats

/-- The text of an error of the graph. -/
def showGraphError : GraphError → String
  | .nodeNotFound id => "node not found: " ++ toString id.toNat
  | .edgeNotFound id => "edge not found: " ++ toString id.toNat

/-- A loader returns an error, or it panics. -/
inductive BulkFailure where
  | error (e : IoError)
  | panic

namespace BulkLoader

/-- `parse_value`. -/
def parseValue (s : String) : PropertyValue := parseCell s

/-- The labels of `create_node`: the empty label stands for no label. -/
def nodeLabels (label : String) : List String := if label.isEmpty then [] else [label]

/-- The loop over the rows: it stops after too many errors, and `% batch_size` panics for the batch size 0. -/
def loop {σ : Type} (config : BulkConfig) (row : ℕ → σ × BulkStats → Except String Record → Except IoError (σ × BulkStats)) :
    ℕ → List (Except String Record) → σ × BulkStats → Except BulkFailure (σ × BulkStats)
  | _, [], state => .ok state
  | idx, result :: rest, state =>
    if config.maxErrors ≤ state.2.errors then .ok state
    else
      match row idx state result with
      | .error e => .error (.error e)
      | .ok state => if config.batchSize = 0 then .error .panic else loop config row (idx + 1) rest state

/-- A row of the nodes. -/
def loadNode (config : BulkConfig) (headers : List String) (idx : ℕ) (state : Building × BulkStats)
    (result : Except String Record) : Except IoError (Building × BulkStats) :=
  match result with
  | .ok record =>
    .ok (addNode state.1 (cell record 0) (nodeLabels (cell record 1)) (cellEntries parseValue headers 2 record),
      { state.2 with nodesImported := state.2.nodesImported + 1 })
  | .error e =>
    if config.skipErrors then .ok (state.1, state.2.addError ("Row " ++ toString (idx + 1) ++ ": " ++ e))
    else .error (.csv e)

/-- `load_nodes`. -/
def loadNodes (config : BulkConfig) (g : Graph) (file : CsvFile) : Except BulkFailure (Building × BulkStats) :=
  match file.headers with
  | .error e => .error (.error (.csv e))
  | .ok headers =>
    if headers.length < 2 then .error (.error (.invalidFormat "Node CSV must have at least 'id' and 'label' columns"))
    else loop config (loadNode config headers) 0 file.records ((g, ∅), .empty)

/-- A row of the edges. -/
def loadEdge (config : BulkConfig) (headers : List String)
    (idMap : HashMap String NodeId) (idx : ℕ) (state : Graph × BulkStats) (result : Except String Record) :
    Except IoError (Graph × BulkStats) :=
  match result with
  | .ok record =>
    match idMap.lookup (cell record 0), idMap.lookup (cell record 1) with
    | some fromId, some toId =>
      match addEdge state.1 fromId toId (cell record 2) (cellEntries parseValue headers 3 record) with
      | .ok g => .ok (g, { state.2 with edgesImported := state.2.edgesImported + 1 })
      | .error e =>
        if config.skipErrors then
          .ok (state.1, state.2.addError ("Row " ++ toString (idx + 1) ++ ": " ++ showGraphError e))
        else .error (.graph e)
    | _, _ =>
      if config.skipErrors then
        .ok (state.1, state.2.addError ("Row " ++ toString (idx + 1) ++ ": Unknown node ID (from=" ++ cell record 0 ++
          ", to=" ++ cell record 1 ++ ")"))
      else .error (.invalidFormat ("Unknown node ID: from=" ++ cell record 0 ++ ", to=" ++ cell record 1))
  | .error e =>
    if config.skipErrors then .ok (state.1, state.2.addError ("Row " ++ toString (idx + 1) ++ ": " ++ e))
    else .error (.csv e)

/-- `load_edges`. -/
def loadEdges (config : BulkConfig) (g : Graph) (file : CsvFile)
    (idMap : HashMap String NodeId) : Except BulkFailure (Graph × BulkStats) :=
  match file.headers with
  | .error e => .error (.error (.csv e))
  | .ok headers =>
    if headers.length < 3 then
      .error (.error (.invalidFormat "Edge CSV must have at least 'from', 'to', and 'type' columns"))
    else loop config (loadEdge config headers idMap) 0 file.records (g, .empty)

end BulkLoader

end Io

end Maharit
