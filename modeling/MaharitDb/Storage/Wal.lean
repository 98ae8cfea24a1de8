import MaharitDb.Core.Graph
import MaharitDb.Storage.WalRecord

/-!
# The write-ahead log

The log file and its handle (`maharit-storage/src/wal.rs`): opening, appending through a buffered
writer, syncing, cleaning up behind a checkpoint, and the three ways of reading the log back.

A handle writes at its own position in the file.  `open` and `cleanup` leave that position at the
start of the file.
-/

namespace Maharit

open WalCodec

/-! ## The buffered writer -/

/-- A `BufWriter` over a file: the file content, the position of the handle and the bytes not yet
written. -/
structure FileWriter where
  file : Bytes
  pos : ℕ
  buffer : Bytes

namespace FileWriter

/-- The capacity of a `BufWriter`. -/
def capacity : ℕ := 8192

/-- A writer positioned at the start of a file. -/
def atStart (file : Bytes) : FileWriter := ⟨file, 0, []⟩

/-- Write at the position of the handle. -/
def writeThrough (w : FileWriter) (data : Bytes) : FileWriter :=
  { w with file := Bytes.overwrite w.file w.pos data, pos := w.pos + data.length }

/-- Write the buffer out. -/
def flush (w : FileWriter) : FileWriter := { w.writeThrough w.buffer with buffer := [] }

/-- `write_all`: data that fits is buffered; else the buffer is written out first, and data that
does not fit into the buffer at all is written directly. -/
def writeAll (w : FileWriter) (data : Bytes) : FileWriter :=
  let spare := capacity - w.buffer.length
  if data.length < spare then { w with buffer := w.buffer ++ data }
  else
    let w := if spare < data.length then w.flush else w
    if capacity ≤ data.length then w.writeThrough data
    else { w with buffer := w.buffer ++ data }

/-- `write_record`. -/
def writeRecord (w : FileWriter) (r : LogRecord) : FileWriter := (recordChunks r).foldl writeAll w

end FileWriter

/-! ## Reading the log -/

/-- The loop over `read_record`: the records read, and the error that ended it unless it was the end
of the log or of the file. -/
def scan : ℕ → Bytes → List LogRecord × Option WalError
  | 0, _ => ([], none)
  | fuel + 1, bs =>
      match readRecord bs with
      | .ok (some r, rest) =>
          let (records, error) := scan fuel rest
          (r :: records, error)
      | .ok (none, _) => ([], none)
      | .error .unexpectedEof => ([], none)
      | .error e => ([], some e)

/-- The loop over a whole file; `scan_eq_scanFile` shows that it never stops for want of fuel. -/
def scanFile (file : Bytes) : List LogRecord × Option WalError := scan (file.length + 1) file

/-- Every record takes some bytes, so that more fuel than bytes changes nothing. -/
theorem scan_eq_scanFile {file : Bytes} {fuel : ℕ} (hfuel : file.length < fuel) :
    scan fuel file = scanFile file := by
  have hagree : ∀ (fuel fuel' : ℕ) (bs : Bytes), bs.length < fuel → bs.length < fuel' →
      scan fuel bs = scan fuel' bs := by
    intro fuel
    induction fuel with
    | zero => exact fun _ _ h => absurd h (Nat.not_lt_zero _)
    | succ fuel ih =>
      intro fuel' bs hfuel hfuel'
      obtain ⟨fuel', rfl⟩ := Nat.exists_eq_succ_of_ne_zero (Nat.ne_of_gt (Nat.zero_lt_of_lt hfuel'))
      simp only [scan]
      rcases hread : readRecord bs with e | ⟨_ | r, rest⟩
      · cases e <;> rfl
      · rfl
      · have hlt := length_lt_of_readRecord hread
        simp only [ih fuel' rest (by omega) (by omega)]
  exact hagree fuel (file.length + 1) file hfuel (Nat.lt_succ_self _)

/-- The sequence number of the last checkpoint record. -/
def lastCheckpointLsn (records : List LogRecord) : Option Lsn :=
  ((records.filter (·.recordType = .checkpoint)).getLast?).map (·.lsn)

/-- `find_last_lsn`. -/
def findLastLsn (file : Bytes) : Lsn := ((scanFile file).1.getLast?.map (·.lsn)).getD 0

/-- `read_all_records`. -/
def readAllRecords (file : Bytes) : Except WalError (List LogRecord × Option Lsn) :=
  match scanFile file with
  | (records, none) => .ok (records, lastCheckpointLsn records)
  | (_, some e) => .error e

/-- `read_all_for_incremental`. -/
def readAllForIncremental (file : Bytes) (afterTimestamp : UInt64) :
    List LogRecord × Option Lsn :=
  let records := (scanFile file).1
  (records.filter (afterTimestamp < ·.timestamp), lastCheckpointLsn records)

/-- The state of a recovery: the graph and the map from logged to actual node ids. -/
abbrev Recovery := Graph × HashMap UInt64 UInt64

/-- `apply_record`.  The orders are those in which a node deletion iterates over its edge sets. -/
def applyRecord (outOrder inOrder : IterOrder) (state : Recovery) (r : LogRecord) :
    Except WalError Recovery :=
  let (graph, idMap) := state
  match r.payload with
  | .createNode nodeId label =>
      let (graph, newId) := graph.createNode label
      .ok (graph, idMap.insert nodeId newId)
  | .deleteNode nodeId =>
      match idMap.lookup nodeId with
      | some actualId => .ok ((graph.deleteNode outOrder inOrder actualId).1, idMap)
      | none => .ok (graph, idMap)
  | .createEdge _ fromNode toNode label =>
      let actualFrom := (idMap.lookup fromNode).getD fromNode
      let actualTo := (idMap.lookup toNode).getD toNode
      match graph.createEdge actualFrom actualTo label with
      | (graph, .ok _) => .ok (graph, idMap)
      | (_, .error e) => .error (.graph e)
  | .deleteEdge edgeId => .ok ((graph.deleteEdge edgeId).1, idMap)
  | .setNodeProperty nodeId key value =>
      let actualId := (idMap.lookup nodeId).getD nodeId
      .ok (graph.setNodeProperty actualId key value, idMap)
  | .setEdgeProperty edgeId key value => .ok (graph.setEdgeProperty edgeId key value, idMap)
  | .checkpoint _ => .ok (graph, idMap)

/-- Apply records one after the other; the `i`-th one iterates over edge sets in the `i`-th pair of
orders. -/
def applyRecords (orders : ℕ → IterOrder × IterOrder) :
    ℕ → List LogRecord → Recovery → Except WalError Recovery
  | _, [], state => .ok state
  | i, r :: records, state =>
      (applyRecord (orders i).1 (orders i).2 state r).bind (applyRecords orders (i + 1) records)

/-- `recover`: the recovered graph and the last sequence number. -/
def recover (orders : ℕ → IterOrder × IterOrder) (file : Bytes) (graph : Graph) :
    Except WalError (Graph × Lsn) :=
  let (records, error) := scanFile file
  (applyRecords orders 0 records (graph, ∅)).bind fun state =>
    match error with
    | none => .ok (state.1, (records.getLast?.map (·.lsn)).getD 0)
    | some e => .error e

/-! ## The handle -/

/-- An open log. -/
structure Wal where
  writer : FileWriter
  currentLsn : Lsn

namespace Wal

/-- Open the log; the file is created when it does not exist. -/
def openFile (file : Bytes) : Wal := ⟨.atStart file, findLastLsn file⟩

/-- `append_at`; `append` takes the time stamp from the clock. -/
def appendAt (w : Wal) (recordType : RecordType) (payload : RecordPayload) (timestamp : UInt64) :
    Wal × Lsn :=
  let lsn := w.currentLsn + 1
  (⟨w.writer.writeRecord ⟨lsn, timestamp, recordType, payload⟩, lsn⟩, lsn)

/-- Append a checkpoint record. -/
def checkpoint (w : Wal) (timestamp : UInt64) : Wal × Lsn :=
  w.appendAt .checkpoint (.checkpoint w.currentLsn) timestamp

/-- Flush the buffer to the file. -/
def sync (w : Wal) : Wal := { w with writer := w.writer.flush }

/-- Remove the records up to the last checkpoint: the others are written to a new file, which takes
the place of the log and is opened at its start.  Returns the number of removed records. -/
def cleanup (w : Wal) : Wal × Except WalError ℕ :=
  let w := w.sync
  match readAllRecords w.writer.file with
  | .error e => (w, .error e)
  | .ok (_, none) => (w, .ok 0)
  | .ok (records, some checkpointLsn) =>
      let recordsBefore := (records.takeWhile (·.lsn ≤ checkpointLsn)).length
      if recordsBefore = 0 then (w, .ok 0)
      else
        let recordsToKeep := records.filter (checkpointLsn < ·.lsn)
        let tmp := (recordsToKeep.foldl FileWriter.writeRecord (.atStart [])).flush
        ({ w with writer := .atStart tmp.file }, .ok recordsBefore)

end Wal

end Maharit
