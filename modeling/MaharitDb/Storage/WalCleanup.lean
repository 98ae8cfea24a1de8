import MaharitDb.Storage.WalTruncation

/-!
# Cleaning up the log

`cleanup` of `maharit-storage/src/wal.rs` on any log, not only on one that was written by the calls of this handle:
whatever is read from a file can be written again, so the file that replaces the log has the records after the last
checkpoint and no others.
-/

namespace Maharit

open WalCodec Reader

/-! ## Records that are read are well formed -/

namespace WalCodec

lemma yields_readString : Yields readString ShortString := by
  refine (Yields.trivial readU32).bind fun len _ => (yields_exact _ _).bind fun bytes hbytes => ?_
  split
  · rename_i s hs
    refine Yields.pure ?_
    have hlen := len.toNat_lt
    rw [ShortString, utf8_of_fromUTF8 hs, hbytes]
    exact hlen
  · exact Yields.throw _ _

lemma yields_readProperty : Yields readProperty ShortValue := by
  refine (Yields.trivial readU8).bind fun t _ => ?_
  split_ifs
  · exact Yields.pure trivial
  · exact (Yields.trivial readU8).bind fun _ _ => Yields.pure trivial
  · exact (Yields.trivial readU64).bind fun _ _ => Yields.pure trivial
  · exact (Yields.trivial readU64).bind fun _ _ => Yields.pure trivial
  · exact yields_readString.bind fun _ hs => Yields.pure hs
  · exact (Yields.trivial readU32).bind fun _ _ => Yields.pure trivial
  · exact (Yields.trivial readU64).bind fun _ _ => Yields.pure trivial
  · exact (Yields.trivial readU32).bind fun _ _ => (Yields.trivial readU32).bind fun _ _ =>
      (Yields.trivial readU64).bind fun _ _ => Yields.pure trivial
  · exact Yields.throw _ _

lemma yields_readPayload (t : RecordType) : Yields (readPayload t) fun p => t = p.recordType ∧ ShortPayload p := by
  cases t with
  | createNode =>
    exact (Yields.trivial readU64).bind fun _ _ => yields_readString.bind fun _ hs => Yields.pure ⟨rfl, hs⟩
  | deleteNode => exact (Yields.trivial readU64).bind fun _ _ => Yields.pure ⟨rfl, trivial⟩
  | createEdge =>
    exact (Yields.trivial readU64).bind fun _ _ => (Yields.trivial readU64).bind fun _ _ =>
      (Yields.trivial readU64).bind fun _ _ => yields_readString.bind fun _ hs => Yields.pure ⟨rfl, hs⟩
  | deleteEdge => exact (Yields.trivial readU64).bind fun _ _ => Yields.pure ⟨rfl, trivial⟩
  | setNodeProperty =>
    exact (Yields.trivial readU64).bind fun _ _ => yields_readString.bind fun _ hs =>
      yields_readProperty.bind fun _ hv => Yields.pure ⟨rfl, hs, hv⟩
  | setEdgeProperty =>
    exact (Yields.trivial readU64).bind fun _ _ => yields_readString.bind fun _ hs =>
      yields_readProperty.bind fun _ hv => Yields.pure ⟨rfl, hs, hv⟩
  | checkpoint => exact (Yields.trivial readU64).bind fun _ _ => Yields.pure ⟨rfl, trivial⟩

lemma yields_readRecordBody (lsn : Lsn) : Yields (readRecordBody lsn) WellFormed := by
  refine (Yields.trivial readU64).bind fun timestamp _ => (Yields.trivial readU8).bind fun typeByte _ =>
    (Yields.trivial _).bind fun recordType _ => (yields_readPayload recordType).bind fun payload hpayload =>
      (Yields.trivial readU64).bind fun stored _ => ?_
  split
  · exact (Yields.throw _ fun _ => False).bind fun _ hfalse => hfalse.elim
  · exact Yields.pure ⟨hpayload.1, hpayload.2⟩

/-- A record that is read is well formed. -/
lemma wellFormed_of_readRecord {bs rest : Bytes} {r : LogRecord} (h : readRecord bs = .ok (some r, rest)) :
    WellFormed r := by
  unfold readRecord at h
  split at h
  · cases h
  · have hyields : Yields (some <$> (readU64 >>= readRecordBody)) fun r => ∀ r', r = some r' → WellFormed r' := by
      refine ((Yields.trivial readU64).bind fun lsn _ => yields_readRecordBody lsn).map fun r hr => ?_
      rintro r' ⟨⟩
      exact hr
    exact hyields bs (some r) rest h r rfl

end WalCodec

/-- The records of a file are well formed. -/
lemma wellFormed_of_mem_scan {fuel : ℕ} {file : Bytes} {r : LogRecord} (hr : r ∈ (scan fuel file).1) :
    WellFormed r := by
  induction fuel generalizing file with
  | zero => cases hr
  | succ fuel ih =>
    rw [scan] at hr
    rcases hread : readRecord file with e | ⟨- | first, rest⟩
    · rw [hread] at hr
      cases e with
      | unexpectedEof => cases hr
      | _ => cases hr
    · rw [hread] at hr
      cases hr
    · rw [hread] at hr
      rcases List.mem_cons.mp hr with rfl | hr
      · exact wellFormed_of_readRecord hread
      · exact ih hr

/-! ## The records that are kept -/

/-- The second writer makes the writes of the first. -/
lemma FileWriter.writeRecordTo_eq : FileWriter.writeRecordTo = FileWriter.writeRecord := by
  funext w r
  rw [FileWriter.writeRecordTo, recordToChunks_eq]
  rfl

variable {before after : List LogRecord} {c : LogRecord}

lemma lastCheckpointLsn_append (hc : c.recordType = .checkpoint) (hafter : ∀ r ∈ after, r.recordType ≠ .checkpoint) :
    lastCheckpointLsn (before ++ c :: after) = some c.lsn := by
  have hnone : after.filter (·.recordType = .checkpoint) = [] :=
    List.filter_eq_nil_iff.mpr fun r hr => by simpa using hafter r hr
  rw [lastCheckpointLsn, List.filter_append, List.filter_cons_of_pos (by simpa using hc), hnone, List.getLast?_append]
  rfl

/-- The records up to the checkpoint have numbers up to its own. -/
lemma takeWhile_le_checkpoint (hincreasing : ((before ++ c :: after).map (·.lsn)).Pairwise (· < ·)) :
    ((before ++ c :: after).takeWhile (·.lsn ≤ c.lsn)).length = before.length + 1 := by
  rw [List.map_append, List.map_cons, List.pairwise_append, List.pairwise_cons] at hincreasing
  obtain ⟨-, ⟨hafter, -⟩, hbefore⟩ := hincreasing
  have hkeep : ∀ r ∈ before, decide (r.lsn ≤ c.lsn) = true := by
    intro r hr
    exact decide_eq_true (UInt64.le_of_lt (hbefore r.lsn (List.mem_map_of_mem hr) c.lsn List.mem_cons_self))
  have hstop : after.takeWhile (·.lsn ≤ c.lsn) = [] := by
    cases after with
    | nil => rfl
    | cons r after =>
      refine List.takeWhile_cons_of_neg ?_
      have hlt := hafter r.lsn (List.mem_map_of_mem List.mem_cons_self)
      simpa using hlt
  rw [List.takeWhile_append_of_pos hkeep, List.takeWhile_cons_of_pos (by simp), hstop, List.length_append]
  rfl

/-- The records after the checkpoint have greater numbers. -/
lemma filter_gt_checkpoint (hincreasing : ((before ++ c :: after).map (·.lsn)).Pairwise (· < ·)) :
    (before ++ c :: after).filter (c.lsn < ·.lsn) = after := by
  rw [List.map_append, List.map_cons, List.pairwise_append, List.pairwise_cons] at hincreasing
  obtain ⟨-, ⟨hafter, -⟩, hbefore⟩ := hincreasing
  have hdrop : before.filter (c.lsn < ·.lsn) = [] := by
    refine List.filter_eq_nil_iff.mpr fun r hr => ?_
    have hlt := hbefore r.lsn (List.mem_map_of_mem hr) c.lsn List.mem_cons_self
    simpa using UInt64.le_of_lt hlt
  have hkeep : after.filter (c.lsn < ·.lsn) = after := by
    refine List.filter_eq_self.mpr fun r hr => ?_
    simpa using hafter r.lsn (List.mem_map_of_mem hr)
  rw [List.filter_append, hdrop, List.filter_cons_of_neg (by simp), hkeep, List.nil_append]

namespace Wal

/-- `cleanup` leaves exactly the records after the last checkpoint and returns the number of the others; without a
checkpoint it only flushes the buffer. -/
theorem cleanup_keeps_suffix (w : Wal) {records : List LogRecord} (hlog : scanFile w.sync.writer.file = (records, none))
    (hincreasing : (records.map (·.lsn)).Pairwise (· < ·)) :
    (∀ before c after, records = before ++ c :: after → c.recordType = .checkpoint →
      (∀ r ∈ after, r.recordType ≠ .checkpoint) →
        w.cleanup.2 = .ok (before.length + 1) ∧ scanFile w.cleanup.1.writer.file = (after, none) ∧
        w.cleanup.1.writer.file = (after.foldl FileWriter.writeRecordTo (.atStart [])).flush.file) ∧
    ((∀ r ∈ records, r.recordType ≠ .checkpoint) → w.cleanup = (w.sync, .ok 0)) := by
  have hread : readAllRecords w.sync.writer.file = .ok (records, lastCheckpointLsn records) := by
    rw [readAllRecords, hlog]
  constructor
  · rintro before c after rfl hc hafter
    have hcount := takeWhile_le_checkpoint hincreasing
    rw [lastCheckpointLsn_append hc hafter] at hread
    let tmp := (after.foldl FileWriter.writeRecord (.atStart [])).flush
    have hcleanup : w.cleanup = ({ w.sync with writer := .atStart tmp.file }, .ok (before.length + 1)) := by
      unfold cleanup
      dsimp only
      rw [hread]
      dsimp only
      rw [hcount, if_neg (Nat.succ_ne_zero _), filter_gt_checkpoint hincreasing]
    have hwell : ∀ r ∈ after, WellFormed r := by
      intro r hr
      have hmem : r ∈ (scanFile w.sync.writer.file).1 := by
        rw [hlog]
        exact List.mem_append_right before (List.mem_cons_of_mem c hr)
      exact wellFormed_of_mem_scan hmem
    rw [hcleanup, FileWriter.writeRecordTo_eq]
    have hfile : (FileWriter.atStart tmp.file).file = encodeLog after := file_foldl_writeRecord after
    refine ⟨rfl, ?_, rfl⟩
    dsimp only
    rw [hfile]
    exact scanFile_encodeLog hwell
  · intro hnone
    have hlast : lastCheckpointLsn records = none := by
      rw [lastCheckpointLsn_eq_none, List.any_eq_false]
      intro r hr
      simpa using hnone r hr
    rw [hlast] at hread
    unfold cleanup
    dsimp only
    rw [hread]

/-- A record, a checkpoint and another record. -/
def checkpointRecords : List LogRecord :=
  [⟨1, 0, .createNode, .createNode 0 "A"⟩, ⟨2, 0, .checkpoint, .checkpoint 1⟩, ⟨3, 0, .createNode, .createNode 1 "B"⟩]

theorem cleanup_keeps_suffix_checkpointRecords :
    (openFile (encodeLog checkpointRecords)).cleanup.2 = .ok 2 ∧
    scanFile (openFile (encodeLog checkpointRecords)).cleanup.1.writer.file =
      ([⟨3, 0, .createNode, .createNode 1 "B"⟩], none) := by
  have hfile : (openFile (encodeLog checkpointRecords)).sync.writer.file = encodeLog checkpointRecords :=
    Bytes.overwrite_nil _ _
  have hlog : scanFile (openFile (encodeLog checkpointRecords)).sync.writer.file = (checkpointRecords, none) := by
    rw [hfile]
    refine scanFile_encodeLog fun r hr => ?_
    fin_cases hr
    · exact ⟨rfl, by decide +kernel⟩
    · exact ⟨rfl, trivial⟩
    · exact ⟨rfl, by decide +kernel⟩
  have hincreasing : (checkpointRecords.map (·.lsn)).Pairwise (· < ·) := by decide
  obtain ⟨hcount, hkept, -⟩ := (cleanup_keeps_suffix _ hlog hincreasing).1
    [⟨1, 0, .createNode, .createNode 0 "A"⟩] ⟨2, 0, .checkpoint, .checkpoint 1⟩
    [⟨3, 0, .createNode, .createNode 1 "B"⟩] rfl rfl (by decide)
  exact ⟨hcount, hkept⟩

end Wal

end Maharit
