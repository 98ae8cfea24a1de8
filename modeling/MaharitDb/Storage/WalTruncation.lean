import MaharitDb.Storage.WalDurability

/-!
# A log that was cut off

A crash leaves a prefix of the log file, which may end anywhere inside a record.  Reading it back
gives the records that are whole and nothing else (`scan_take`).

The log has two writers with the same code, one for the log itself and one for the file that replaces
it after a cleanup.  The second is written out here and shown to make the same writes.
-/

namespace Maharit

open WalCodec

namespace WalCodec

/-- The writes of `write_record_to`, one entry for each `write_all`. -/
def recordToChunks (r : LogRecord) : List Bytes :=
  [u64Bytes r.lsn, u64Bytes r.timestamp, [r.recordType.toByte]] ++
    (match r.payload with
      | .createNode nodeId label => [u64Bytes nodeId] ++ stringChunks label
      | .deleteNode nodeId => [u64Bytes nodeId]
      | .createEdge edgeId fromNode toNode label =>
          [u64Bytes edgeId, u64Bytes fromNode, u64Bytes toNode] ++ stringChunks label
      | .deleteEdge edgeId => [u64Bytes edgeId]
      | .setNodeProperty nodeId key value =>
          [u64Bytes nodeId] ++ stringChunks key ++ propertyChunks value
      | .setEdgeProperty edgeId key value =>
          [u64Bytes edgeId] ++ stringChunks key ++ propertyChunks value
      | .checkpoint lastLsn => [u64Bytes lastLsn]) ++
    [u64Bytes (r.lsn ^^^ r.timestamp)]

lemma recordToChunks_eq (r : LogRecord) : recordToChunks r = recordChunks r := by
  obtain ⟨lsn, timestamp, recordType, payload⟩ := r
  cases payload <;> simp [recordToChunks, recordChunks, payloadChunks]

end WalCodec

/-- `write_record_to` on a buffered writer. -/
def FileWriter.writeRecordTo (w : FileWriter) (r : LogRecord) : FileWriter :=
  (recordToChunks r).foldl FileWriter.writeAll w

lemma encodeLog_cons (r : LogRecord) (records : List LogRecord) :
    encodeLog (r :: records) = encodeRecord r ++ encodeLog records := by
  simp [encodeLog]

/-- `j` records are wholly contained in the first `k` bytes of a log. -/
structure WholeRecords (records : List LogRecord) (k j : ℕ) : Prop where
  le : j ≤ records.length
  iff : ∀ i ≤ records.length, i ≤ j ↔ (encodeLog (records.take i)).length ≤ k

/-- A log that ends inside its first record holds no whole one. -/
lemma wholeRecords_zero {r : LogRecord} {k : ℕ} (hk : k < (encodeRecord r).length)
    (records : List LogRecord) : WholeRecords (r :: records) k 0 := by
  refine ⟨Nat.zero_le _, fun i hi => ?_⟩
  cases i with
  | zero => simp [encodeLog]
  | succ i =>
    rw [List.take_succ_cons, encodeLog_cons, List.length_append]
    omega

lemma WholeRecords.cons {r : LogRecord} {records : List LogRecord} {k j : ℕ}
    (hk : (encodeRecord r).length ≤ k) (h : WholeRecords records (k - (encodeRecord r).length) j) :
    WholeRecords (r :: records) k (j + 1) := by
  refine ⟨Nat.succ_le_succ h.le, fun i hi => ?_⟩
  cases i with
  | zero => simp [encodeLog]
  | succ i =>
    have htail := h.iff i (Nat.le_of_succ_le_succ hi)
    rw [List.take_succ_cons, encodeLog_cons, List.length_append]
    omega

/-- Reading the first `k` bytes of a log gives the records wholly contained in them. -/
lemma scan_take {records : List LogRecord} (hrecords : ∀ r ∈ records, WellFormed r) (k : ℕ) {fuel : ℕ}
    (hfuel : records.length < fuel) :
    ∃ j, WholeRecords records k j ∧
      scan fuel ((encodeLog records).take k) = (records.take j, none) := by
  induction records generalizing k fuel with
  | nil =>
    obtain ⟨fuel, rfl⟩ := Nat.exists_eq_succ_of_ne_zero (Nat.ne_of_gt hfuel)
    refine ⟨0, ⟨Nat.le_refl 0, fun i hi => ?_⟩, by simp [encodeLog, scan, readRecord]⟩
    obtain rfl : i = 0 := Nat.le_zero.mp hi
    simp [encodeLog]
  | cons r records ih =>
    obtain ⟨fuel, rfl⟩ := Nat.exists_eq_succ_of_ne_zero (Nat.ne_of_gt (Nat.zero_lt_of_lt hfuel))
    have hr := hrecords r List.mem_cons_self
    rw [encodeLog_cons]
    by_cases hk : (encodeRecord r).length ≤ k
    · -- the first record is whole: it is read, and the rest is a shorter log cut off earlier
      obtain ⟨j, hj, htail⟩ := ih (fun r' hr' => hrecords r' (List.mem_cons_of_mem _ hr'))
        (k - (encodeRecord r).length) (Nat.lt_of_succ_lt_succ hfuel)
      refine ⟨j + 1, hj.cons hk, ?_⟩
      have hbytes : (encodeRecord r ++ encodeLog records).take k =
          encodeRecord r ++ (encodeLog records).take (k - (encodeRecord r).length) := by
        rw [List.take_append, List.take_of_length_le hk]
      rw [hbytes, scan, reads_encodeRecord hr]
      simp only [htail, List.take_succ_cons]
    · -- the file ends inside the first record
      have hlt := not_le.mp hk
      refine ⟨0, wholeRecords_zero hlt records, ?_⟩
      have hbytes : (encodeRecord r ++ encodeLog records).take k = (encodeRecord r).take k :=
        List.take_append_of_le_length hlt.le
      have hdrop : (encodeRecord r).drop k ≠ [] := by simpa using hlt
      rw [hbytes, scan]
      rcases readRecord_cut hr (List.take_append_drop k (encodeRecord r)).symm hdrop with hread | hread
      · simp only [hread, List.take_zero]
      · simp only [hread, List.take_zero]

/-- The codec of the log.  Records whose type is the one of their payload and whose strings are
shorter than 2^32 bytes are read back from the file they were written to; the two writers make the
same writes; and whatever byte the file is cut off at, the log is read up to the last whole record,
without an error, which is also what recovery applies. -/
theorem wal_codec_crash_prefix (records : List LogRecord) (hrecords : ∀ r ∈ records, WellFormed r) :
    let file := (records.foldl FileWriter.writeRecord (.atStart [])).flush.file
    scanFile file = (records, none) ∧
    (∀ (w : FileWriter) (r : LogRecord), w.writeRecordTo r = w.writeRecord r) ∧
    ∀ k, ∃ j, WholeRecords records k j ∧
      scanFile (file.take k) = (records.take j, none) ∧
      ∀ orders g, recover orders (file.take k) g =
        (applyRecords orders 0 (records.take j) (g, ∅)).map fun state =>
          (state.1, ((records.take j).getLast?.map (·.lsn)).getD 0) := by
  intro file
  have hfile : file = encodeLog records := file_foldl_writeRecord records
  refine ⟨?_, fun w r => ?_, fun k => ?_⟩
  · rw [hfile]
    exact scanFile_encodeLog hrecords
  · rw [FileWriter.writeRecordTo, recordToChunks_eq]
    rfl
  · rw [hfile]
    have hfuel : records.length < (encodeLog records).length + 1 :=
      Nat.lt_succ_of_le (length_le_length_encodeLog records)
    obtain ⟨j, hj, hscan⟩ := scan_take hrecords k hfuel
    have hlen : ((encodeLog records).take k).length < (encodeLog records).length + 1 := by
      rw [List.length_take]
      omega
    rw [scan_eq_scanFile hlen] at hscan
    refine ⟨j, hj, hscan, fun orders g => ?_⟩
    simp only [recover, hscan]
    cases applyRecords orders 0 (records.take j) (g, ∅) with
    | error e => rfl
    | ok state => rfl

/-- Two records, of which the second is cut off inside its label. -/
theorem wal_codec_crash_prefix_two :
    let records : List LogRecord :=
      [⟨1, 10, .createNode, .createNode 0 "City"⟩, ⟨2, 11, .createNode, .createNode 1 "Town"⟩]
    let file := (records.foldl FileWriter.writeRecord (.atStart [])).flush.file
    ∃ j, WholeRecords records 60 j ∧ scanFile (file.take 60) = (records.take j, none) := by
  intro records file
  obtain ⟨-, -, hcut⟩ := wal_codec_crash_prefix records (by
    intro r hr
    rcases List.mem_cons.mp hr with rfl | hr
    · exact ⟨rfl, by decide +kernel⟩
    · obtain rfl := List.mem_singleton.mp hr
      exact ⟨rfl, by decide +kernel⟩)
  obtain ⟨j, hj, hscan, -⟩ := hcut 60
  exact ⟨j, hj, hscan⟩

end Maharit
