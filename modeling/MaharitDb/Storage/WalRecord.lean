import MaharitDb.Lib.ByteCodec
import MaharitDb.Core.GraphBackend

/-!
# Records of the write-ahead log

The binary format of the write-ahead log (`maharit-storage/src/wal.rs`): a record is its sequence
number, its time stamp, a type byte, the fields of its payload and a checksum, with numbers in
little-endian order and strings preceded by their length in four bytes.

`reads_encodeRecord` says that a well-formed record is read back, and `readRecord_cut` that a record
of which the end is missing is not taken for another one.  Well-formed means two things the writer
does not check: the record type passed to `append` is the one of the payload, and no string has 2^32
bytes or more, whose length the writer would cut to 32 bits.
-/

namespace Maharit

/-- A log sequence number. -/
abbrev Lsn := UInt64

/-- The errors of the log.  `unexpectedEof` is the input error a reader meets at the end of the
file; other input errors do not occur in the model. -/
inductive WalError where
  | unexpectedEof
  | corruptedLog (message : String)
  | checksumMismatch
  | graph (error : GraphError)
  deriving DecidableEq, Repr

/-- The kinds of log records. -/
inductive RecordType where
  | createNode
  | deleteNode
  | createEdge
  | deleteEdge
  | setNodeProperty
  | setEdgeProperty
  | checkpoint
  deriving DecidableEq, Repr

namespace RecordType

/-- The type byte. -/
def toByte : RecordType → UInt8
  | createNode => 1
  | deleteNode => 2
  | createEdge => 3
  | deleteEdge => 4
  | setNodeProperty => 5
  | setEdgeProperty => 6
  | checkpoint => 7

/-- `RecordType::try_from`. -/
def ofByte (b : UInt8) : Except WalError RecordType :=
  if b = 1 then .ok createNode
  else if b = 2 then .ok deleteNode
  else if b = 3 then .ok createEdge
  else if b = 4 then .ok deleteEdge
  else if b = 5 then .ok setNodeProperty
  else if b = 6 then .ok setEdgeProperty
  else if b = 7 then .ok checkpoint
  else .error (.corruptedLog ("unknown record type: " ++ toString b.toNat))

theorem ofByte_toByte (t : RecordType) : ofByte t.toByte = .ok t := by
  cases t <;> rfl

end RecordType

/-- The payload of a log record. -/
inductive RecordPayload where
  | createNode (nodeId : UInt64) (label : String)
  | deleteNode (nodeId : UInt64)
  | createEdge (edgeId fromNode toNode : UInt64) (label : String)
  | deleteEdge (edgeId : UInt64)
  | setNodeProperty (nodeId : UInt64) (key : String) (value : PropertyValue)
  | setEdgeProperty (edgeId : UInt64) (key : String) (value : PropertyValue)
  | checkpoint (lastLsn : Lsn)
  deriving DecidableEq, Repr

/-- The record type of a payload. -/
def RecordPayload.recordType : RecordPayload → RecordType
  | createNode _ _ => .createNode
  | deleteNode _ => .deleteNode
  | createEdge _ _ _ _ => .createEdge
  | deleteEdge _ => .deleteEdge
  | setNodeProperty _ _ _ => .setNodeProperty
  | setEdgeProperty _ _ _ => .setEdgeProperty
  | checkpoint _ => .checkpoint

/-- A log record. -/
structure LogRecord where
  lsn : Lsn
  timestamp : UInt64
  recordType : RecordType
  payload : RecordPayload
  deriving DecidableEq, Repr

/-! ## Writing -/

namespace WalCodec

/-- `to_le_bytes` of a 64-bit word. -/
def u64Bytes (n : UInt64) : Bytes := Bytes.ofNat 8 n.toNat

/-- `to_le_bytes` of a 32-bit word. -/
def u32Bytes (n : UInt32) : Bytes := Bytes.ofNat 4 n.toNat

/-- The UTF-8 bytes of a string. -/
def utf8 (s : String) : Bytes := s.toUTF8.data.toList

/-- The writes of `write_string`; the length is cut to 32 bits. -/
def stringChunks (s : String) : List Bytes := [u32Bytes (UInt32.ofNat (utf8 s).length), utf8 s]

/-- The writes of `write_property`. -/
def propertyChunks : PropertyValue → List Bytes
  | .null => [[0]]
  | .bool b => [[1], [if b then 1 else 0]]
  | .int n => [[2], u64Bytes n.toUInt64]
  | .float x => [[3], u64Bytes x.bits]
  | .string s => [4] :: stringChunks s
  | .date d => [[5], u32Bytes d.toUInt32]
  | .dateTime ms => [[6], u64Bytes ms.toUInt64]
  | .duration months days millis =>
      [[7], u32Bytes months.toUInt32, u32Bytes days.toUInt32, u64Bytes millis.toUInt64]

/-- The writes of a payload. -/
def payloadChunks : RecordPayload → List Bytes
  | .createNode nodeId label => u64Bytes nodeId :: stringChunks label
  | .deleteNode nodeId => [u64Bytes nodeId]
  | .createEdge edgeId fromNode toNode label =>
      u64Bytes edgeId :: u64Bytes fromNode :: u64Bytes toNode :: stringChunks label
  | .deleteEdge edgeId => [u64Bytes edgeId]
  | .setNodeProperty nodeId key value =>
      u64Bytes nodeId :: (stringChunks key ++ propertyChunks value)
  | .setEdgeProperty edgeId key value =>
      u64Bytes edgeId :: (stringChunks key ++ propertyChunks value)
  | .checkpoint lastLsn => [u64Bytes lastLsn]

/-- The writes of `write_record` and of `write_record_to`, one entry for each `write_all`. -/
def recordChunks (r : LogRecord) : List Bytes :=
  u64Bytes r.lsn :: u64Bytes r.timestamp :: [r.recordType.toByte] ::
    (payloadChunks r.payload ++ [u64Bytes (r.lsn ^^^ r.timestamp)])

/-- The bytes of a record. -/
def encodeRecord (r : LogRecord) : Bytes := (recordChunks r).flatten

/-! ## Reading -/

/-- `read_exact`. -/
def readExact (k : ℕ) : Reader WalError Bytes := Reader.exact .unexpectedEof k

/-- Read a 64-bit word. -/
def readU64 : Reader WalError UInt64 := (fun bs => UInt64.ofNat bs.toNat) <$> readExact 8

/-- Read a 32-bit word. -/
def readU32 : Reader WalError UInt32 := (fun bs => UInt32.ofNat bs.toNat) <$> readExact 4

/-- Read a single byte. -/
def readU8 : Reader WalError UInt8 := (fun bs => bs.headD 0) <$> readExact 1

/-- `read_string`. -/
def readString : Reader WalError String := do
  let len ← readU32
  let bytes ← readExact len.toNat
  match String.fromUTF8? ⟨bytes.toArray⟩ with
  | some s => pure s
  | none => throw (.corruptedLog "invalid UTF-8")

/-- `read_property`. -/
def readProperty : Reader WalError PropertyValue := do
  let t ← readU8
  if t = 0 then pure .null
  else if t = 1 then do
    let b ← readU8
    pure (.bool (b != 0))
  else if t = 2 then do
    let n ← readU64
    pure (.int n.toInt64)
  else if t = 3 then do
    let n ← readU64
    pure (.float ⟨n⟩)
  else if t = 4 then do
    let s ← readString
    pure (.string s)
  else if t = 5 then do
    let d ← readU32
    pure (.date d.toInt32)
  else if t = 6 then do
    let ms ← readU64
    pure (.dateTime ms.toInt64)
  else if t = 7 then do
    let months ← readU32
    let days ← readU32
    let millis ← readU64
    pure (.duration months.toInt32 days.toInt32 millis.toInt64)
  else throw (.corruptedLog ("unknown property type: " ++ toString t.toNat))

/-- The payload of a record of the given type. -/
def readPayload : RecordType → Reader WalError RecordPayload
  | .createNode => do
      let nodeId ← readU64
      let label ← readString
      pure (.createNode nodeId label)
  | .deleteNode => do
      let nodeId ← readU64
      pure (.deleteNode nodeId)
  | .createEdge => do
      let edgeId ← readU64
      let fromNode ← readU64
      let toNode ← readU64
      let label ← readString
      pure (.createEdge edgeId fromNode toNode label)
  | .deleteEdge => do
      let edgeId ← readU64
      pure (.deleteEdge edgeId)
  | .setNodeProperty => do
      let nodeId ← readU64
      let key ← readString
      let value ← readProperty
      pure (.setNodeProperty nodeId key value)
  | .setEdgeProperty => do
      let edgeId ← readU64
      let key ← readString
      let value ← readProperty
      pure (.setEdgeProperty edgeId key value)
  | .checkpoint => do
      let lastLsn ← readU64
      pure (.checkpoint lastLsn)

/-- What follows the sequence number of a record. -/
def readRecordBody (lsn : Lsn) : Reader WalError LogRecord := do
  let timestamp ← readU64
  let typeByte ← readU8
  let recordType ← (RecordType.ofByte typeByte : Except WalError RecordType)
  let payload ← readPayload recordType
  let stored ← readU64
  if stored ≠ lsn ^^^ timestamp then throw .checksumMismatch
  pure ⟨lsn, timestamp, recordType, payload⟩

/-- `read_record`: a stream that ends before or inside the sequence number is the end of the log. -/
def readRecord : Reader WalError (Option LogRecord) := fun bs =>
  if bs.length < 8 then .ok (none, bs) else (some <$> (readU64 >>= readRecordBody)) bs

/-! ## Round trips -/

open Reader

lemma frames_readU64 (n : UInt64) : Frames .unexpectedEof readU64 (u64Bytes n) n := by
  have h := (frames_exact WalError.unexpectedEof (Bytes.length_ofNat 8 n.toNat)).map
    fun bs => UInt64.ofNat (Bytes.toNat bs)
  have hback : UInt64.ofNat (Bytes.toNat (Bytes.ofNat 8 n.toNat)) = n := by
    rw [Bytes.toNat_ofNat_of_lt n.toNat_lt, UInt64.ofNat_toNat]
  rw [hback] at h
  exact h

lemma frames_readU32 (n : UInt32) : Frames .unexpectedEof readU32 (u32Bytes n) n := by
  have h := (frames_exact WalError.unexpectedEof (Bytes.length_ofNat 4 n.toNat)).map
    fun bs => UInt32.ofNat (Bytes.toNat bs)
  have hback : UInt32.ofNat (Bytes.toNat (Bytes.ofNat 4 n.toNat)) = n := by
    rw [Bytes.toNat_ofNat_of_lt n.toNat_lt, UInt32.ofNat_toNat]
  rw [hback] at h
  exact h

lemma frames_readU8 (b : UInt8) : Frames .unexpectedEof readU8 [b] b := by
  have h : Frames .unexpectedEof (readExact 1) [b] [b] := frames_exact _ rfl
  exact h.map fun bs => List.headD bs 0

/-- The UTF-8 bytes of a string determine it. -/
lemma fromUTF8_utf8 (s : String) : String.fromUTF8? ⟨(utf8 s).toArray⟩ = some s := by
  have hbytes : (⟨(utf8 s).toArray⟩ : ByteArray) = s.toByteArray := by simp [utf8]
  rw [hbytes, String.fromUTF8?, dif_pos s.isValidUTF8]
  rfl

/-- Bytes that are a string are its bytes. -/
lemma utf8_of_fromUTF8 {raw : Bytes} {s : String} (h : String.fromUTF8? ⟨raw.toArray⟩ = some s) :
    utf8 s = raw := by
  unfold String.fromUTF8? at h
  split at h
  · obtain rfl := Option.some.inj h
    rfl
  · cases h

/-- A string whose length fits into 32 bits. -/
def ShortString (s : String) : Prop := (utf8 s).length < 2 ^ 32

instance (s : String) : Decidable (ShortString s) := inferInstanceAs (Decidable (_ < _))

lemma frames_readString {s : String} (hs : ShortString s) :
    Frames .unexpectedEof readString (stringChunks s).flatten s := by
  have hlen : (UInt32.ofNat (utf8 s).length).toNat = (utf8 s).length := by
    rw [UInt32.toNat_ofNat']
    exact Nat.mod_eq_of_lt hs
  have hbytes : Frames .unexpectedEof (readExact (UInt32.ofNat (utf8 s).length).toNat) (utf8 s) (utf8 s) :=
    frames_exact _ hlen.symm
  simp only [stringChunks, List.flatten_cons, List.flatten_nil]
  refine (frames_readU32 _).bind (hbytes.bind ?_)
  rw [fromUTF8_utf8]
  exact Frames.pure _ s

/-- The strings of a value fit into 32 bits. -/
def ShortValue : PropertyValue → Prop
  | .string s => ShortString s
  | _ => True

instance : ∀ v, Decidable (ShortValue v)
  | .string s => inferInstanceAs (Decidable (ShortString s))
  | .null | .bool _ | .int _ | .float _ | .date _ | .dateTime _ | .duration _ _ _ =>
      .isTrue trivial

lemma frames_readProperty {v : PropertyValue} (hv : ShortValue v) :
    Frames .unexpectedEof readProperty (propertyChunks v).flatten v := by
  unfold readProperty
  cases v with
  | null => exact (frames_readU8 0).bind (Frames.pure _ _)
  | bool b =>
    refine (frames_readU8 1).bind ?_
    have h := (frames_readU8 (if b then 1 else 0)).bind_pure fun b => PropertyValue.bool (b != 0)
    cases b <;> exact h
  | int n =>
    refine (frames_readU8 2).bind ?_
    have h := (frames_readU64 n.toUInt64).bind_pure fun n => PropertyValue.int n.toInt64
    simpa using h
  | float x =>
    refine (frames_readU8 3).bind ?_
    have h := (frames_readU64 x.bits).bind_pure fun n => PropertyValue.float ⟨n⟩
    simpa using h
  | string s =>
    exact (frames_readU8 4).bind ((frames_readString hv).bind_pure _)
  | date d =>
    refine (frames_readU8 5).bind ?_
    have h := (frames_readU32 d.toUInt32).bind_pure fun n => PropertyValue.date n.toInt32
    simpa using h
  | dateTime ms =>
    refine (frames_readU8 6).bind ?_
    have h := (frames_readU64 ms.toUInt64).bind_pure fun n => PropertyValue.dateTime n.toInt64
    simpa using h
  | duration months days millis =>
    refine (frames_readU8 7).bind ((frames_readU32 _).bind ((frames_readU32 _).bind ?_))
    have h := (frames_readU64 millis.toUInt64).bind_pure fun n =>
      PropertyValue.duration months days n.toInt64
    simpa using h

/-- The strings of a payload fit into 32 bits. -/
def ShortPayload : RecordPayload → Prop
  | .createNode _ label | .createEdge _ _ _ label => ShortString label
  | .setNodeProperty _ key value | .setEdgeProperty _ key value =>
      ShortString key ∧ ShortValue value
  | .deleteNode _ | .deleteEdge _ | .checkpoint _ => True

instance : ∀ p, Decidable (ShortPayload p)
  | .createNode _ label | .createEdge _ _ _ label => inferInstanceAs (Decidable (ShortString label))
  | .setNodeProperty _ _ _ | .setEdgeProperty _ _ _ => inferInstanceAs (Decidable (_ ∧ _))
  | .deleteNode _ | .deleteEdge _ | .checkpoint _ => .isTrue trivial

lemma frames_readPayload {p : RecordPayload} (hp : ShortPayload p) :
    Frames .unexpectedEof (readPayload p.recordType) (payloadChunks p).flatten p := by
  cases p with
  | createNode nodeId label =>
    exact (frames_readU64 nodeId).bind ((frames_readString hp).bind_pure _)
  | deleteNode nodeId =>
    exact (frames_readU64 nodeId).bind (Frames.pure _ _)
  | createEdge edgeId fromNode toNode label =>
    exact (frames_readU64 edgeId).bind ((frames_readU64 fromNode).bind
      ((frames_readU64 toNode).bind ((frames_readString hp).bind_pure _)))
  | deleteEdge edgeId =>
    exact (frames_readU64 edgeId).bind (Frames.pure _ _)
  | setNodeProperty nodeId key value =>
    rw [payloadChunks, List.flatten_cons, List.flatten_append]
    exact (frames_readU64 nodeId).bind ((frames_readString hp.1).bind
      ((frames_readProperty hp.2).bind_pure _))
  | setEdgeProperty edgeId key value =>
    rw [payloadChunks, List.flatten_cons, List.flatten_append]
    exact (frames_readU64 edgeId).bind ((frames_readString hp.1).bind
      ((frames_readProperty hp.2).bind_pure _))
  | checkpoint lastLsn =>
    exact (frames_readU64 lastLsn).bind (Frames.pure _ _)

/-- A record whose type is the one of its payload and whose strings fit into 32 bits. -/
structure WellFormed (r : LogRecord) : Prop where
  recordType : r.recordType = r.payload.recordType
  short : ShortPayload r.payload

/-- The bytes of a record from its sequence number on. -/
lemma frames_recordBytes {r : LogRecord} (hr : WellFormed r) :
    Frames .unexpectedEof (some <$> (readU64 >>= readRecordBody)) (encodeRecord r) (some r) := by
  obtain ⟨lsn, timestamp, recordType, payload⟩ := r
  obtain ⟨htype, hshort⟩ := hr
  simp only at htype hshort
  subst htype
  have hpayload := frames_readPayload hshort
  have hsum : Frames .unexpectedEof (do
      let stored ← readU64
      if stored ≠ lsn ^^^ timestamp then throw .checksumMismatch
      pure (⟨lsn, timestamp, payload.recordType, payload⟩ : LogRecord))
      (u64Bytes (lsn ^^^ timestamp)) ⟨lsn, timestamp, payload.recordType, payload⟩ := by
    have h := (frames_readU64 (lsn ^^^ timestamp)).bind (f := fun stored => do
      if stored ≠ lsn ^^^ timestamp then throw .checksumMismatch
      pure (⟨lsn, timestamp, payload.recordType, payload⟩ : LogRecord))
      (y := ⟨lsn, timestamp, payload.recordType, payload⟩) (by
        simp only [ne_eq, not_true_eq_false, if_false]
        exact Frames.pure _ _)
    rwa [List.append_nil] at h
  have hbody : Frames .unexpectedEof (readRecordBody lsn) (u64Bytes timestamp ++
      ([payload.recordType.toByte] ++
        ((payloadChunks payload).flatten ++ u64Bytes (lsn ^^^ timestamp))))
      ⟨lsn, timestamp, payload.recordType, payload⟩ := by
    refine (frames_readU64 timestamp).bind ((frames_readU8 _).bind ?_)
    rw [RecordType.ofByte_toByte]
    exact (Frames.pure _ payload.recordType).bind (hpayload.bind hsum)
  have hall := ((frames_readU64 lsn).bind hbody).map some
  have hbytes : encodeRecord ⟨lsn, timestamp, payload.recordType, payload⟩ =
      u64Bytes lsn ++ (u64Bytes timestamp ++ ([payload.recordType.toByte] ++
        ((payloadChunks payload).flatten ++ u64Bytes (lsn ^^^ timestamp)))) := by
    simp [encodeRecord, recordChunks]
  rw [hbytes]
  exact hall

/-- A record takes at least the bytes of its sequence number. -/
lemma length_encodeRecord (r : LogRecord) : 8 ≤ (encodeRecord r).length := by
  rw [encodeRecord, recordChunks, List.flatten_cons, List.length_append]
  simp [u64Bytes]

/-- A well-formed record is read back. -/
theorem reads_encodeRecord {r : LogRecord} (hr : WellFormed r) :
    Reads readRecord (encodeRecord r) (some r) := by
  intro rest
  have hlong : ¬ (encodeRecord r ++ rest).length < 8 := by
    have hlen := length_encodeRecord r
    rw [List.length_append]
    omega
  rw [readRecord, if_neg hlong]
  exact (frames_recordBytes hr).reads rest

/-- Reading a record of which the end is missing meets the end of the log or of the file. -/
theorem readRecord_cut {r : LogRecord} (hr : WellFormed r) {p q : Bytes}
    (hpq : encodeRecord r = p ++ q) (hq : q ≠ []) :
    readRecord p = .ok (none, p) ∨ readRecord p = .error .unexpectedEof := by
  unfold readRecord
  by_cases hshort : p.length < 8
  · exact Or.inl (if_pos hshort)
  · rw [if_neg hshort]
    exact Or.inr ((frames_recordBytes hr).cut p q hpq hq)

/-! ## Progress -/

lemma shrinks_readU64 : Shrinks readU64 := (shrinks_exact _ _).map _

lemma shrinks_readU32 : Shrinks readU32 := (shrinks_exact _ _).map _

lemma shrinks_readU8 : Shrinks readU8 := (shrinks_exact _ _).map _

lemma shrinks_readString : Shrinks readString := by
  refine shrinks_readU32.bind fun len => (shrinks_exact _ _).bind fun bytes => ?_
  split
  · exact .pure _
  · exact .throw _

lemma shrinks_readProperty : Shrinks readProperty := by
  refine shrinks_readU8.bind fun t => ?_
  split_ifs
  · exact .pure _
  · exact shrinks_readU8.bind fun _ => .pure _
  · exact shrinks_readU64.bind fun _ => .pure _
  · exact shrinks_readU64.bind fun _ => .pure _
  · exact shrinks_readString.bind fun _ => .pure _
  · exact shrinks_readU32.bind fun _ => .pure _
  · exact shrinks_readU64.bind fun _ => .pure _
  · exact shrinks_readU32.bind fun _ => shrinks_readU32.bind fun _ =>
      shrinks_readU64.bind fun _ => .pure _
  · exact .throw _

lemma shrinks_readPayload (t : RecordType) : Shrinks (readPayload t) := by
  cases t with
  | createNode => exact shrinks_readU64.bind fun _ => shrinks_readString.bind fun _ => .pure _
  | deleteNode => exact shrinks_readU64.bind fun _ => .pure _
  | createEdge =>
    exact shrinks_readU64.bind fun _ => shrinks_readU64.bind fun _ => shrinks_readU64.bind
      fun _ => shrinks_readString.bind fun _ => .pure _
  | deleteEdge => exact shrinks_readU64.bind fun _ => .pure _
  | setNodeProperty =>
    exact shrinks_readU64.bind fun _ => shrinks_readString.bind fun _ =>
      shrinks_readProperty.bind fun _ => .pure _
  | setEdgeProperty =>
    exact shrinks_readU64.bind fun _ => shrinks_readString.bind fun _ =>
      shrinks_readProperty.bind fun _ => .pure _
  | checkpoint => exact shrinks_readU64.bind fun _ => .pure _

lemma shrinks_readRecordBody (lsn : Lsn) : Shrinks (readRecordBody lsn) := by
  refine shrinks_readU64.bind fun timestamp => shrinks_readU8.bind fun typeByte =>
    (Shrinks.lift _).bind fun recordType => (shrinks_readPayload recordType).bind fun payload =>
      shrinks_readU64.bind fun stored => ?_
  split
  · exact (Shrinks.throw _).bind fun _ => .pure _
  · exact .pure _

/-- A record that is read takes at least eight bytes. -/
lemma length_lt_of_readRecord {bs rest : Bytes} {r : LogRecord}
    (h : readRecord bs = .ok (some r, rest)) : rest.length < bs.length := by
  unfold readRecord at h
  split at h
  · cases h
  · rename_i hlong
    have hshrink : Shrinks (some <$> readRecordBody (UInt64.ofNat (Bytes.toNat (bs.take 8)))) :=
      (shrinks_readRecordBody _).map some
    have hread : (some <$> (readU64 >>= readRecordBody)) bs =
        (some <$> readRecordBody (UInt64.ofNat (Bytes.toNat (bs.take 8)))) (bs.drop 8) := by
      have hexact : readExact 8 bs = .ok (bs.take 8, bs.drop 8) := if_pos (not_lt.mp hlong)
      change (((readExact 8 bs).bind _).bind _).bind _ = _
      rw [hexact]
      rfl
    rw [hread] at h
    have hle := hshrink _ _ _ h
    rw [List.length_drop] at hle
    omega

end WalCodec

end Maharit
