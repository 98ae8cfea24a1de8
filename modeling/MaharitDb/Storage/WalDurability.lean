import MaharitDb.Lib.GuardedRun
import MaharitDb.Storage.Wal

/-!
# Durability of the log

What a reader finds in the log file after a history of sessions, each of which opens the log,
appends, syncs and cleans up, and ends with a sync.

The invariant of a history is that the file, once the buffer is written out, is the encoding of the
records that should be there.  An append keeps it as long as the handle writes at the end of the
file.  The handle does so from an empty file on, but `Wal.openFile` and `Wal.cleanup` leave it at
the start of a file that may hold records, and the next append then writes over them.
-/

namespace Maharit

open WalCodec GuardedRun

/-! ## The buffered writer -/

namespace FileWriter

/-- The file once the buffer is written out. -/
def settled (w : FileWriter) : Bytes := Bytes.overwrite w.file w.pos w.buffer

/-- The writer does not stand behind the end of the file. -/
def Sound (w : FileWriter) : Prop := w.pos ≤ w.file.length

/-- Nothing of the file lies behind the bytes written so far. -/
def AtEnd (w : FileWriter) : Prop := w.file.length ≤ w.pos + w.buffer.length

instance (w : FileWriter) : Decidable w.AtEnd := inferInstanceAs (Decidable (_ ≤ _))

/-- `w'` is `w` after `data` was handed to it: whatever is written next ends up behind `data`. -/
structure Accepts (w w' : FileWriter) (data : Bytes) : Prop where
  sound : w'.Sound
  overwrite : ∀ more, Bytes.overwrite w'.file w'.pos (w'.buffer ++ more) =
    Bytes.overwrite w.file w.pos (w.buffer ++ (data ++ more))

lemma Accepts.refl {w : FileWriter} (hw : w.Sound) : Accepts w w [] :=
  ⟨hw, fun _ => rfl⟩

lemma Accepts.trans {w w' w'' : FileWriter} {a b : Bytes} (h : Accepts w w' a)
    (h' : Accepts w' w'' b) : Accepts w w'' (a ++ b) :=
  ⟨h'.sound, fun more => by rw [h'.overwrite, h.overwrite, List.append_assoc]⟩

lemma accepts_buffer {w : FileWriter} (hw : w.Sound) (data : Bytes) :
    Accepts w { w with buffer := w.buffer ++ data } data :=
  ⟨hw, fun more => by rw [List.append_assoc]⟩

lemma accepts_flush {w : FileWriter} (hw : w.Sound) : Accepts w w.flush [] := by
  refine ⟨Bytes.length_overwrite w.file hw w.buffer, fun more => ?_⟩
  exact Bytes.overwrite_overwrite w.file hw w.buffer more

/-- Data is written directly only when the buffer is empty. -/
lemma accepts_writeThrough {w : FileWriter} (hw : w.Sound) (hbuffer : w.buffer = [])
    (data : Bytes) : Accepts w (w.writeThrough data) data := by
  refine ⟨Bytes.length_overwrite w.file hw data, fun more => ?_⟩
  simp only [writeThrough, hbuffer, List.nil_append]
  exact Bytes.overwrite_overwrite w.file hw data more

/-- `write_all` accepts its data, whichever way it takes. -/
lemma accepts_writeAll {w : FileWriter} (hw : w.Sound) (data : Bytes) :
    Accepts w (w.writeAll data) data := by
  unfold writeAll
  simp only
  split
  · exact accepts_buffer hw data
  · rename_i hlarge
    set w' := if capacity - w.buffer.length < data.length then w.flush else w with hw'
    have haccept : Accepts w w' [] := by
      rw [hw']
      split
      · exact accepts_flush hw
      · exact .refl hw
    split
    · rename_i hcap
      have hempty : w'.buffer = [] := by
        rw [hw']
        split
        · rfl
        · rename_i hfits
          have hpos : 0 < capacity := by decide
          have hlen : w.buffer.length = 0 := by omega
          exact List.length_eq_zero_iff.mp hlen
      exact haccept.trans (accepts_writeThrough haccept.sound hempty data)
    · exact haccept.trans (accepts_buffer haccept.sound data)

lemma accepts_foldl_writeAll {w : FileWriter} (hw : w.Sound) (chunks : List Bytes) :
    Accepts w (chunks.foldl writeAll w) chunks.flatten := by
  induction chunks generalizing w with
  | nil => exact .refl hw
  | cons data chunks ih =>
    have hdata := accepts_writeAll hw data
    exact hdata.trans (ih hdata.sound)

lemma accepts_writeRecord {w : FileWriter} (hw : w.Sound) (r : LogRecord) :
    Accepts w (w.writeRecord r) (encodeRecord r) :=
  accepts_foldl_writeAll hw _

lemma Accepts.settled {w w' : FileWriter} {data : Bytes} (h : Accepts w w' data) :
    w'.settled = Bytes.overwrite w.file w.pos (w.buffer ++ data) := by
  have := h.overwrite []
  simpa [FileWriter.settled] using this

/-- At the end of the file, data is appended. -/
lemma Accepts.settled_of_atEnd {w w' : FileWriter} {data : Bytes} (h : Accepts w w' data)
    (hend : w.AtEnd) : w'.settled = w.settled ++ data := by
  rw [h.settled, Bytes.overwrite_append _ _ _ hend]
  rfl

lemma flush_file (w : FileWriter) : w.flush.file = w.settled := rfl

end FileWriter

/-! ## Reading an encoded log -/

/-- The bytes of a list of records. -/
def encodeLog (records : List LogRecord) : Bytes := (records.map encodeRecord).flatten

lemma encodeLog_append (records records' : List LogRecord) :
    encodeLog (records ++ records') = encodeLog records ++ encodeLog records' := by
  simp [encodeLog]

lemma length_le_length_encodeLog (records : List LogRecord) :
    records.length ≤ (encodeLog records).length := by
  induction records with
  | nil => simp
  | cons r records ih =>
    have hr := length_encodeRecord r
    rw [encodeLog, List.map_cons, List.flatten_cons, List.length_append, List.length_cons]
    change _ ≤ _ + (encodeLog records).length
    omega

lemma scan_encodeLog {records : List LogRecord} (hrecords : ∀ r ∈ records, WellFormed r)
    {fuel : ℕ} (hfuel : records.length < fuel) : scan fuel (encodeLog records) = (records, none) := by
  induction records generalizing fuel with
  | nil =>
    obtain ⟨fuel, rfl⟩ := Nat.exists_eq_succ_of_ne_zero (Nat.ne_of_gt hfuel)
    rfl
  | cons r records ih =>
    obtain ⟨fuel, rfl⟩ := Nat.exists_eq_succ_of_ne_zero (Nat.ne_of_gt (Nat.zero_lt_of_lt hfuel))
    have hread := reads_encodeRecord (hrecords r List.mem_cons_self) (encodeLog records)
    have htail := ih (fun r' hr' => hrecords r' (List.mem_cons_of_mem _ hr'))
      (Nat.lt_of_succ_lt_succ hfuel)
    have hbytes : encodeLog (r :: records) = encodeRecord r ++ encodeLog records := by
      simp [encodeLog]
    rw [hbytes, scan, hread]
    simp only [htail]

/-- Reading the encoding of well-formed records gives these records. -/
theorem scanFile_encodeLog {records : List LogRecord} (hrecords : ∀ r ∈ records, WellFormed r) :
    scanFile (encodeLog records) = (records, none) :=
  scan_encodeLog hrecords (Nat.lt_succ_of_le (length_le_length_encodeLog records))

/-- Records written to a new file make up the file once it is flushed. -/
lemma file_foldl_writeRecord (records : List LogRecord) :
    (records.foldl FileWriter.writeRecord (.atStart [])).flush.file = encodeLog records := by
  have haccept : ∀ (records : List LogRecord) {w : FileWriter}, w.Sound →
      FileWriter.Accepts w (records.foldl FileWriter.writeRecord w) (encodeLog records) := by
    intro records
    induction records with
    | nil => exact fun hw => .refl hw
    | cons r records ih =>
      intro w hw
      have hr := FileWriter.accepts_writeRecord hw r
      exact hr.trans (ih hr.sound)
  have hstart : (FileWriter.atStart []).Sound := Nat.le_refl 0
  have hall := haccept records hstart
  rw [FileWriter.flush_file, hall.settled]
  simp [FileWriter.atStart, Bytes.overwrite]

/-! ## Histories -/

/-- A call on an open log. -/
inductive WalOp where
  | append (recordType : RecordType) (payload : RecordPayload) (timestamp : UInt64)
  | checkpoint (timestamp : UInt64)
  | sync
  | cleanup

/-- The records behind the last checkpoint record; all of them when there is none. -/
def dropThroughCheckpoint : List LogRecord → List LogRecord
  | [] => []
  | r :: records =>
      if records.any (·.recordType = .checkpoint) then dropThroughCheckpoint records
      else if r.recordType = .checkpoint then records
      else r :: records

/-- A log with its history: the records that should be in the file, and every sequence number
returned so far, the first one first. -/
structure History where
  wal : Wal
  log : List LogRecord
  lsns : List Lsn

namespace History

/-- Before the first session: there is no file. -/
def start : History := ⟨.openFile [], [], []⟩

/-- Enter an appended record. -/
def appendAt (h : History) (recordType : RecordType) (payload : RecordPayload)
    (timestamp : UInt64) : History :=
  let (wal, lsn) := h.wal.appendAt recordType payload timestamp
  ⟨wal, h.log ++ [⟨lsn, timestamp, recordType, payload⟩], h.lsns ++ [lsn]⟩

/-- One call. -/
def step (h : History) : WalOp → History
  | .append recordType payload timestamp => h.appendAt recordType payload timestamp
  | .checkpoint timestamp =>
      let (wal, lsn) := h.wal.checkpoint timestamp
      ⟨wal, h.log ++ [⟨lsn, timestamp, .checkpoint, .checkpoint h.wal.currentLsn⟩], h.lsns ++ [lsn]⟩
  | .sync => { h with wal := h.wal.sync }
  | .cleanup => { h with wal := h.wal.cleanup.1, log := dropThroughCheckpoint h.log }

/-- The next session opens the file that the former one left. -/
def reopen (h : History) : History := { h with wal := .openFile h.wal.writer.file }

/-- A session: open, any calls, and a final sync. -/
def session (h : History) (ops : List WalOp) : History :=
  (ops.foldl step h.reopen).step .sync

/-- What a call must respect: an append writes at the end of the file, the handle's counter is not
behind a sequence number that was already returned, and the record is well-formed. -/
def Guard (h : History) : WalOp → Prop
  | .append recordType payload _ =>
      h.wal.writer.AtEnd ∧ (∀ l ∈ h.lsns, l < h.wal.currentLsn + 1) ∧
        recordType = payload.recordType ∧ ShortPayload payload
  | .checkpoint _ => h.wal.writer.AtEnd ∧ ∀ l ∈ h.lsns, l < h.wal.currentLsn + 1
  | .sync | .cleanup => True

instance (h : History) : ∀ op, Decidable (h.Guard op)
  | .append _ _ _ =>
      -- The quantifier runs over the list, not over all 64-bit words.
      letI := List.decidableBAll (fun l => l < h.wal.currentLsn + 1) h.lsns
      inferInstanceAs (Decidable (_ ∧ _ ∧ _ ∧ _))
  | .checkpoint _ =>
      letI := List.decidableBAll (fun l => l < h.wal.currentLsn + 1) h.lsns
      inferInstanceAs (Decidable (_ ∧ _))
  | .sync | .cleanup => .isTrue trivial

/-- The file, once the buffer is written out, holds the records that should be there. -/
structure Durable (h : History) : Prop where
  sound : h.wal.writer.Sound
  settled : h.wal.writer.settled = encodeLog h.log
  wellFormed : ∀ r ∈ h.log, WellFormed r
  increasing : h.lsns.Pairwise (· < ·)
  logged : (h.log.map (·.lsn)).Sublist h.lsns

lemma durable_start : start.Durable where
  sound := Nat.zero_le _
  settled := rfl
  wellFormed := by simp [start]
  increasing := List.Pairwise.nil
  logged := List.Sublist.refl _

/-- An append at the end of the file. -/
lemma Durable.append {h : History} (hd : h.Durable) (r : LogRecord) (hr : WellFormed r)
    (hend : h.wal.writer.AtEnd) (hlsn : ∀ l ∈ h.lsns, l < r.lsn) (lsn : Lsn) :
    Durable ⟨⟨h.wal.writer.writeRecord r, lsn⟩, h.log ++ [r], h.lsns ++ [r.lsn]⟩ := by
  have haccept := FileWriter.accepts_writeRecord hd.sound r
  refine ⟨haccept.sound, ?_, ?_, ?_, ?_⟩
  · rw [haccept.settled_of_atEnd hend, hd.settled, encodeLog_append]
    simp [encodeLog]
  · intro r' hr'
    rcases List.mem_append.mp hr' with hr' | hr'
    · exact hd.wellFormed r' hr'
    · rw [List.mem_singleton.mp hr']
      exact hr
  · rw [List.pairwise_append]
    refine ⟨hd.increasing, List.pairwise_singleton _ _, ?_⟩
    intro l hl l' hl'
    rw [List.mem_singleton.mp hl']
    exact hlsn l hl
  · rw [List.map_append]
    exact hd.logged.append (List.Sublist.refl _)

/-- Syncing writes the buffer out. -/
lemma Durable.sync {h : History} (hd : h.Durable) :
    Durable { h with wal := h.wal.sync } := by
  have haccept := FileWriter.accepts_flush hd.sound
  refine ⟨haccept.sound, ?_, hd.wellFormed, hd.increasing, hd.logged⟩
  have hsettled := haccept.settled
  rw [List.append_nil] at hsettled
  exact hsettled.trans hd.settled

/-- After a sync the file itself holds the log. -/
lemma Durable.file_sync {h : History} (hd : h.Durable) :
    h.wal.sync.writer.file = encodeLog h.log := hd.settled

end History

/-- The last checkpoint is looked for from the back. -/
lemma lastCheckpointLsn_cons (r : LogRecord) (records : List LogRecord) :
    lastCheckpointLsn (r :: records) = (lastCheckpointLsn records).or
      (if r.recordType = .checkpoint then some r.lsn else none) := by
  unfold lastCheckpointLsn
  by_cases hr : r.recordType = .checkpoint
  · rw [List.filter_cons_of_pos (by simpa using hr), List.getLast?_cons]
    cases (records.filter (·.recordType = .checkpoint)).getLast? <;> simp [hr]
  · rw [List.filter_cons_of_neg (by simpa using hr)]
    simp [hr]

lemma lastCheckpointLsn_eq_none {records : List LogRecord} :
    lastCheckpointLsn records = none ↔ records.any (·.recordType = .checkpoint) = false := by
  simp [lastCheckpointLsn]

lemma exists_lsn_of_lastCheckpointLsn {records : List LogRecord} {lsn : Lsn}
    (h : lastCheckpointLsn records = some lsn) : ∃ r ∈ records, r.lsn = lsn := by
  simp only [lastCheckpointLsn, Option.map_eq_some_iff] at h
  obtain ⟨r, hr, rfl⟩ := h
  exact ⟨r, (List.mem_filter.mp (List.mem_of_getLast? hr)).1, rfl⟩

lemma dropThroughCheckpoint_of_none {records : List LogRecord}
    (h : lastCheckpointLsn records = none) : dropThroughCheckpoint records = records := by
  cases records with
  | nil => rfl
  | cons r records =>
    rw [lastCheckpointLsn_cons, Option.or_eq_none_iff] at h
    have hr : r.recordType ≠ .checkpoint := by
      intro hr
      simp [hr] at h
    simp [dropThroughCheckpoint, lastCheckpointLsn_eq_none.mp h.1, hr]

/-- Cleaning up by comparing sequence numbers removes exactly the records through the last
checkpoint. -/
lemma dropThroughCheckpoint_of_some {records : List LogRecord}
    (hincr : (records.map (·.lsn)).Pairwise (· < ·)) {lsn : Lsn}
    (h : lastCheckpointLsn records = some lsn) :
    dropThroughCheckpoint records = records.filter (lsn < ·.lsn) ∧
      (records.takeWhile (·.lsn ≤ lsn)).length ≠ 0 := by
  induction records with
  | nil => cases h
  | cons r records ih =>
    rw [List.map_cons, List.pairwise_cons] at hincr
    rw [lastCheckpointLsn_cons] at h
    cases hlast : lastCheckpointLsn records with
    | some lsn' =>
      rw [hlast, Option.some_or, Option.some_inj] at h
      subst h
      obtain ⟨c, hc, hclsn⟩ := exists_lsn_of_lastCheckpointLsn hlast
      have hlt : r.lsn < lsn' := hincr.1 lsn' (List.mem_map.mpr ⟨c, hc, hclsn⟩)
      have hany : records.any (·.recordType = .checkpoint) = true := by
        rw [← Bool.not_eq_false, ← lastCheckpointLsn_eq_none, hlast]
        simp
      obtain ⟨hdrop, -⟩ := ih hincr.2 hlast
      refine ⟨?_, ?_⟩
      · rw [dropThroughCheckpoint, if_pos hany, hdrop, List.filter_cons_of_neg]
        simpa using UInt64.le_of_lt hlt
      · simp [UInt64.le_of_lt hlt]
    | none =>
      have hany : records.any (·.recordType = .checkpoint) = false :=
        lastCheckpointLsn_eq_none.mp hlast
      rw [hlast, Option.none_or] at h
      split at h
      · rename_i hr
        obtain rfl := Option.some_inj.mp h
        refine ⟨?_, by simp⟩
        have hkeep : records.filter (r.lsn < ·.lsn) = records := by
          rw [List.filter_eq_self]
          intro r' hr'
          simpa using hincr.1 r'.lsn (List.mem_map_of_mem hr')
        rw [dropThroughCheckpoint, hany, List.filter_cons_of_neg (by simp), hkeep]
        simp [hr]
      · cases h

namespace History

lemma Durable.log_increasing {h : History} (hd : h.Durable) :
    (h.log.map (·.lsn)).Pairwise (· < ·) :=
  hd.increasing.sublist hd.logged

lemma dropThroughCheckpoint_sublist (records : List LogRecord) :
    (dropThroughCheckpoint records).Sublist records := by
  induction records with
  | nil => exact .refl _
  | cons r records ih =>
    unfold dropThroughCheckpoint
    split
    · exact ih.cons _
    · split
      · exact List.sublist_cons_self _ _
      · exact .refl _

/-- A cleanup rewrites the file to the records behind the last checkpoint. -/
lemma Durable.cleanup {h : History} (hd : h.Durable) : (h.step .cleanup).Durable := by
  have hsub := dropThroughCheckpoint_sublist h.log
  have hwell : ∀ r ∈ dropThroughCheckpoint h.log, WellFormed r :=
    fun r hr => hd.wellFormed r (hsub.subset hr)
  have hlogged : ((dropThroughCheckpoint h.log).map (·.lsn)).Sublist h.lsns :=
    (hsub.map _).trans hd.logged
  have hread : readAllRecords h.wal.sync.writer.file = .ok (h.log, lastCheckpointLsn h.log) := by
    rw [readAllRecords, hd.file_sync, scanFile_encodeLog hd.wellFormed]
  cases hcp : lastCheckpointLsn h.log with
  | none =>
    have hstep : h.step .cleanup = { h with wal := h.wal.sync } := by
      rw [hcp] at hread
      simp [step, Wal.cleanup, hread, dropThroughCheckpoint_of_none hcp]
    rw [hstep]
    exact hd.sync
  | some lsn =>
    obtain ⟨hdrop, hbefore⟩ := dropThroughCheckpoint_of_some hd.log_increasing hcp
    set tmp := ((h.log.filter (lsn < ·.lsn)).foldl FileWriter.writeRecord (.atStart [])).flush
    have hwal : h.wal.cleanup.1 = { h.wal.sync with writer := .atStart tmp.file } := by
      rw [hcp] at hread
      simp [Wal.cleanup, hread, hbefore, tmp]
    have htmp : tmp.file = encodeLog (dropThroughCheckpoint h.log) := by
      rw [hdrop]
      exact file_foldl_writeRecord _
    refine ⟨?_, ?_, hwell, hd.increasing, hlogged⟩
    · simp only [step, hwal]
      exact Nat.zero_le _
    · simp only [step, hwal]
      rw [← htmp]
      exact Bytes.overwrite_nil _ _

/-- Every guarded call keeps the log durable. -/
theorem Durable.step {h : History} (hd : h.Durable) {op : WalOp} (hop : h.Guard op) :
    (h.step op).Durable := by
  cases op with
  | append recordType payload timestamp =>
    obtain ⟨hend, hlsn, htype, hshort⟩ := hop
    exact hd.append ⟨h.wal.currentLsn + 1, timestamp, recordType, payload⟩ ⟨htype, hshort⟩ hend
      hlsn _
  | checkpoint timestamp =>
    obtain ⟨hend, hlsn⟩ := hop
    exact hd.append ⟨h.wal.currentLsn + 1, timestamp, .checkpoint, .checkpoint h.wal.currentLsn⟩
      ⟨rfl, trivial⟩ hend hlsn _
  | sync => exact hd.sync
  | cleanup => exact hd.cleanup

/-- Nothing is buffered and the file holds the log: the state between sessions. -/
structure Settled (h : History) : Prop extends Durable h where
  buffer : h.wal.writer.buffer = []

/-- Opening the log does not change the file. -/
lemma Settled.reopen {h : History} (hs : h.Settled) : h.reopen.Durable := by
  refine ⟨Nat.zero_le _, ?_, hs.wellFormed, hs.increasing, hs.logged⟩
  have hfile : h.wal.writer.settled = h.wal.writer.file := by
    rw [FileWriter.settled, hs.buffer, Bytes.overwrite_nil]
  change Bytes.overwrite h.wal.writer.file 0 [] = encodeLog h.log
  rw [Bytes.overwrite_nil, ← hfile, hs.settled]

/-- The guard of a session: every call of it is guarded. -/
def SessionGuard (h : History) (ops : List WalOp) : Prop := Along step Guard h.reopen ops

instance (h : History) (ops : List WalOp) : Decidable (h.SessionGuard ops) :=
  inferInstanceAs (Decidable (Along _ _ _ _))

/-- A guarded session keeps the log durable. -/
theorem Settled.session {h : History} (hs : h.Settled) {ops : List WalOp}
    (hops : h.SessionGuard ops) : (h.session ops).Settled := by
  have hend : (ops.foldl History.step h.reopen).Durable :=
    inv_foldl (fun _ _ hd hop => hd.step hop) hs.reopen hops
  exact ⟨hend.sync, rfl⟩

lemma settled_start : start.Settled := ⟨durable_start, rfl⟩

end History

/-- What the readers find after a history: exactly the records that should be there. -/
structure ReadsBack (h : History) : Prop where
  readAllRecords : readAllRecords h.wal.writer.file = .ok (h.log, lastCheckpointLsn h.log)
  readAllForIncremental : ∀ afterTimestamp,
    readAllForIncremental h.wal.writer.file afterTimestamp =
      (h.log.filter (afterTimestamp < ·.timestamp), lastCheckpointLsn h.log)
  recover : ∀ orders graph, recover orders h.wal.writer.file graph =
    (applyRecords orders 0 h.log (graph, ∅)).map fun state =>
      (state.1, (h.log.getLast?.map (·.lsn)).getD 0)

/-- A history whose first session logs, checkpoints and cleans up, and whose second one only
reads. -/
def sampleSessions : List (List WalOp) :=
  [[.append .createNode (.createNode 0 "P") 5,
      .append .setNodeProperty (.setNodeProperty 0 "x" (.int 1)) 6, .sync, .checkpoint 7,
      .append .deleteNode (.deleteNode 0) 8, .cleanup],
    [.cleanup]]

end Maharit
