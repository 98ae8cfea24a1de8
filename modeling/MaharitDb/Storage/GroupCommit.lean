import MaharitDb.Storage.Wal

/-!
# Group commit

The writer task of the group committer (`maharit-storage/src/wal_group_commit.rs`): it appends the
records of the requests as they come, and syncs when the batch is full, when the timer ticks and when
the channel is closed; then it replies to the requests of the batch.  Appends and syncs may fail.

What the task does is observed in a trace.  Requests are numbered in the order in which they are
received, which is the order in which their records are appended.  `group_commit` says that every
request gets one reply, that a successful reply comes after a sync that comes after the append, and
that the sequence numbers of the successful replies increase while the 64-bit counter of the log does
not wrap around.
-/

namespace Maharit

/-- How an operation on the file turns out; after a failure the writer is in some state. -/
inductive IoOutcome where
  | ok
  | failed (writer : FileWriter)

namespace Wal

/-- `append`, which may fail; the sequence number is used up all the same. -/
def tryAppend (w : Wal) (recordType : RecordType) (payload : RecordPayload) (timestamp : UInt64) :
    IoOutcome → Wal × Option Lsn
  | .ok => ((w.appendAt recordType payload timestamp).1, some (w.appendAt recordType payload timestamp).2)
  | .failed writer => (⟨writer, w.currentLsn + 1⟩, none)

/-- `sync`, which may fail. -/
def trySync (w : Wal) : IoOutcome → Wal × Bool
  | .ok => (w.sync, true)
  | .failed writer => ({ w with writer := writer }, false)

end Wal

/-- The settings of the group committer. -/
structure WalGroupCommitConfig where
  flushIntervalMs : ℕ
  flushBatchSize : ℕ

namespace WalGroupCommitConfig

def default : WalGroupCommitConfig := ⟨5, 100⟩

/-- Sync after each write. -/
def synchronous : WalGroupCommitConfig := ⟨0, 1⟩

/-- The batch size that is used. -/
def batchSize (config : WalGroupCommitConfig) : ℕ := max config.flushBatchSize 1

/-- The task runs in synchronous mode. -/
def isSynchronous (config : WalGroupCommitConfig) : Bool :=
  config.flushIntervalMs == 0 || config.batchSize == 1

end WalGroupCommitConfig

/-- What the task does. -/
inductive CommitAction where
  | appended (request : ℕ) (lsn : Lsn)
  | appendFailed (request : ℕ)
  | synced
  | syncFailed
  /-- A reply: `Ok` with a sequence number, or an error. -/
  | replied (request : ℕ) (result : Option Lsn)
  deriving DecidableEq

/-- The writer task. -/
structure GroupCommitter where
  wal : Wal
  /-- The number of requests received. -/
  received : ℕ
  /-- The appended records that wait for a sync, and their requests. -/
  pending : List (Lsn × ℕ)
  closed : Bool
  /-- What was done so far. -/
  trace : List CommitAction

/-- What the task waits for, and how the operations on the file that it then does turn out. -/
inductive CommitEvent where
  | request (recordType : RecordType) (payload : RecordPayload) (timestamp : UInt64)
      (append sync : IoOutcome)
  | tick (sync : IoOutcome)
  /-- All senders are gone. -/
  | close (sync : IoOutcome)

namespace GroupCommitter

/-- The task at its start. -/
def start (wal : Wal) : GroupCommitter := ⟨wal, 0, [], false, []⟩

/-- `do_flush`: sync once, then reply to every pending request. -/
def doFlush (s : GroupCommitter) (sync : IoOutcome) : GroupCommitter :=
  match s.wal.trySync sync with
  | (wal, true) =>
      { s with wal := wal, pending := [],
               trace := s.trace ++ .synced :: s.pending.map fun p => .replied p.2 (some p.1) }
  | (wal, false) =>
      { s with wal := wal, pending := [],
               trace := s.trace ++ .syncFailed :: s.pending.map fun p => .replied p.2 none }

/-- A request in synchronous mode. -/
def handleSynchronously (s : GroupCommitter) (recordType : RecordType) (payload : RecordPayload)
    (timestamp : UInt64) (append sync : IoOutcome) : GroupCommitter :=
  match s.wal.tryAppend recordType payload timestamp append with
  | (wal, none) =>
      { s with wal := wal, received := s.received + 1,
               trace := s.trace ++ [.appendFailed s.received, .replied s.received none] }
  | (wal, some lsn) =>
      match wal.trySync sync with
      | (wal, true) =>
          { s with wal := wal, received := s.received + 1,
                   trace := s.trace ++
                    [.appended s.received lsn, .synced, .replied s.received (some lsn)] }
      | (wal, false) =>
          { s with wal := wal, received := s.received + 1,
                   trace := s.trace ++
                    [.appended s.received lsn, .syncFailed, .replied s.received none] }

/-- A request is appended to the log, and is then pending. -/
def accept (s : GroupCommitter) (recordType : RecordType) (payload : RecordPayload)
    (timestamp : UInt64) (append : IoOutcome) : GroupCommitter :=
  match s.wal.tryAppend recordType payload timestamp append with
  | (wal, some lsn) =>
      { s with wal := wal, received := s.received + 1, pending := s.pending ++ [(lsn, s.received)],
               trace := s.trace ++ [.appended s.received lsn] }
  | (wal, none) =>
      { s with wal := wal, received := s.received + 1,
               trace := s.trace ++ [.appendFailed s.received, .replied s.received none] }

/-- `run`: one turn of the loop. -/
def step (config : WalGroupCommitConfig) (s : GroupCommitter) (e : CommitEvent) : GroupCommitter :=
  if s.closed then s
  else
    match e with
    | .request recordType payload timestamp append sync =>
        if config.isSynchronous then s.handleSynchronously recordType payload timestamp append sync
        else
          let s := s.accept recordType payload timestamp append
          if s.pending.length ≥ config.batchSize then s.doFlush sync else s
    | .tick sync =>
        if config.isSynchronous || s.pending.isEmpty then s else s.doFlush sync
    | .close sync =>
        let s := if config.isSynchronous || s.pending.isEmpty then s else s.doFlush sync
        { s with closed := true }

/-- The task after a run. -/
def run (config : WalGroupCommitConfig) (wal : Wal) (events : List CommitEvent) : GroupCommitter :=
  events.foldl (step config) (start wal)

/-! ## What is asked of a trace -/

/-- How many replies a request got. -/
def replies (trace : List CommitAction) (request : ℕ) : ℕ :=
  trace.countP fun
    | .replied r _ => r == request
    | _ => false

/-- The record of the request was appended under the number, and a sync succeeded after that. -/
def Synced (trace : List CommitAction) (request : ℕ) (lsn : Lsn) : Prop :=
  ∃ before between after,
    trace = before ++ .appended request lsn :: between ++ .synced :: after

/-- A successful reply is sent only after a sync that succeeded and that followed the append. -/
def Durable (trace : List CommitAction) : Prop :=
  ∀ before request lsn, before ++ [.replied request (some lsn)] <+: trace → Synced before request lsn

/-- The successful replies, in the order in which they were sent. -/
def successes (trace : List CommitAction) : List (ℕ × Lsn) :=
  trace.filterMap fun
    | .replied request (some lsn) => some (request, lsn)
    | _ => none

lemma replies_append (trace more : List CommitAction) (request : ℕ) :
    replies (trace ++ more) request = replies trace request + replies more request :=
  List.countP_append

lemma successes_append (trace more : List CommitAction) :
    successes (trace ++ more) = successes trace ++ successes more :=
  List.filterMap_append

lemma Synced.append {trace : List CommitAction} {request : ℕ} {lsn : Lsn}
    (h : Synced trace request lsn) (more : List CommitAction) : Synced (trace ++ more) request lsn := by
  obtain ⟨before, between, after, rfl⟩ := h
  exact ⟨before, between, after ++ more, by simp⟩

lemma synced_of_mem {trace : List CommitAction} {request : ℕ} {lsn : Lsn}
    (h : .appended request lsn ∈ trace) : Synced (trace ++ [.synced]) request lsn := by
  obtain ⟨before, between, rfl⟩ := List.append_of_mem h
  exact ⟨before, between, [], by simp⟩

/-- Replies may be sent for what has been synced. -/
lemma Durable.append {trace more : List CommitAction} (h : Durable trace)
    (hmore : ∀ request lsn, .replied request (some lsn) ∈ more → Synced trace request lsn) :
    Durable (trace ++ more) := by
  induction more generalizing trace with
  | nil => simpa using h
  | cons x more ih =>
    have hassoc : trace ++ x :: more = (trace ++ [x]) ++ more := by simp
    rw [hassoc]
    refine ih ?_ fun request lsn hmem =>
      (hmore request lsn (List.mem_cons_of_mem x hmem)).append [x]
    intro before request lsn hprefix
    rcases List.prefix_concat_iff.mp hprefix with heq | hprefix
    · obtain ⟨rfl, hx⟩ := List.append_inj' heq rfl
      rw [List.singleton_inj] at hx
      exact hmore request lsn (by simp [hx])
    · exact h before request lsn hprefix

/-! ## The invariant -/

/-- The replies to a batch: one for each request in it. -/
lemma replies_map {pending : List (Lsn × ℕ)} (hnodup : (pending.map (·.2)).Nodup)
    (result : Lsn → Option Lsn) (request : ℕ) :
    replies (pending.map fun p => .replied p.2 (result p.1)) request =
      if request ∈ pending.map (·.2) then 1 else 0 := by
  have hcount : replies (pending.map fun p => .replied p.2 (result p.1)) request =
      (pending.map (·.2)).count request := by
    rw [replies, List.countP_map, List.count, List.countP_map]
    rfl
  rw [hcount, List.Nodup.count hnodup]

/-- A request is answered once, or it is pending and its record is in the log. -/
structure Inv (s : GroupCommitter) : Prop where
  pending_lt : ∀ p ∈ s.pending, p.2 < s.received
  nodup : (s.pending.map (·.2)).Nodup
  appended : ∀ p ∈ s.pending, .appended p.2 p.1 ∈ s.trace
  replies : ∀ request, replies s.trace request =
    if request < s.received ∧ request ∉ s.pending.map (·.2) then 1 else 0
  durable : Durable s.trace

/-- Successful replies and pending requests, in this order, have increasing numbers, which are at most
that of the log. -/
structure Ordered (firstLsn : ℕ) (s : GroupCommitter) : Prop where
  counter : s.wal.currentLsn.toNat = firstLsn + s.received
  pairwise : (successes s.trace ++ s.pending.map fun p => (p.2, p.1)).Pairwise
    fun x y => x.1 < y.1 ∧ x.2 < y.2
  bound : ∀ x ∈ successes s.trace ++ s.pending.map fun p => (p.2, p.1),
    x.1 < s.received ∧ x.2 ≤ s.wal.currentLsn

lemma inv_start (wal : Wal) : (start wal).Inv where
  pending_lt := by simp [start]
  nodup := by simp [start]
  appended := by simp [start]
  replies := by simp [start, GroupCommitter.replies]
  durable := by
    intro before request lsn hprefix
    simp [start] at hprefix

lemma ordered_start (wal : Wal) : (start wal).Ordered wal.currentLsn.toNat where
  counter := rfl
  pairwise := by simp [start, successes]
  bound := by simp [start, successes]

variable {s : GroupCommitter}

/-- What a flush leaves: the replies to the batch come after the outcome of the sync. -/
lemma doFlush_eq (s : GroupCommitter) (sync : IoOutcome) :
    ∃ wal outcome, ∃ result : Lsn → Option Lsn,
      s.doFlush sync =
        { s with
          wal := wal
          pending := []
          trace := s.trace ++ outcome :: s.pending.map fun p => .replied p.2 (result p.1) } ∧
      wal.currentLsn = s.wal.currentLsn ∧
      (outcome = .synced ∧ result = some ∨ outcome = .syncFailed ∧ result = fun _ => none) := by
  cases sync with
  | ok => exact ⟨s.wal.sync, .synced, some, rfl, rfl, .inl ⟨rfl, rfl⟩⟩
  | failed writer =>
    exact ⟨{ s.wal with writer := writer }, .syncFailed, fun _ => none, rfl, rfl, .inr ⟨rfl, rfl⟩⟩

@[simp] lemma pending_doFlush (s : GroupCommitter) (sync : IoOutcome) :
    (s.doFlush sync).pending = [] := by
  cases sync <;> rfl

@[simp] lemma received_doFlush (s : GroupCommitter) (sync : IoOutcome) :
    (s.doFlush sync).received = s.received := by
  cases sync <;> rfl

@[simp] lemma closed_doFlush (s : GroupCommitter) (sync : IoOutcome) :
    (s.doFlush sync).closed = s.closed := by
  cases sync <;> rfl

/-- A flush gives each pending request its reply. -/
lemma Inv.doFlush (hs : s.Inv) (sync : IoOutcome) : (s.doFlush sync).Inv := by
  obtain ⟨wal, outcome, result, heq, -, hresult⟩ := doFlush_eq s sync
  have hassoc : s.trace ++ outcome :: (s.pending.map fun p => .replied p.2 (result p.1)) =
      (s.trace ++ [outcome]) ++ s.pending.map fun p => .replied p.2 (result p.1) := by simp
  rw [heq]
  refine ⟨by simp, by simp, by simp, fun request => ?_, ?_⟩
  · have hone : GroupCommitter.replies [outcome] request = 0 := by
      rcases hresult with ⟨rfl, -⟩ | ⟨rfl, -⟩ <;> rfl
    rw [hassoc, replies_append, replies_append, hone, hs.replies, replies_map hs.nodup]
    by_cases hpending : request ∈ s.pending.map (·.2)
    · obtain ⟨p, hp, rfl⟩ := List.mem_map.mp hpending
      simp [hpending, hs.pending_lt p hp]
    · simp [hpending]
  · rw [hassoc]
    have hfirst : Durable (s.trace ++ [outcome]) := by
      refine hs.durable.append fun request lsn hmem => ?_
      rcases hresult with ⟨rfl, -⟩ | ⟨rfl, -⟩ <;> simp at hmem
    refine hfirst.append fun request lsn hmem => ?_
    obtain ⟨p, hp, hreply⟩ := List.mem_map.mp hmem
    injection hreply with hrequest hlsn
    rcases hresult with ⟨rfl, rfl⟩ | ⟨-, rfl⟩
    · -- the sync succeeded, and the record was in the log before
      injection hlsn with hlsn
      subst hrequest hlsn
      exact synced_of_mem (hs.appended p hp)
    · cases hlsn

lemma successes_replies (pending : List (Lsn × ℕ)) :
    successes (pending.map fun p => .replied p.2 (some p.1)) = pending.map fun p => (p.2, p.1) := by
  induction pending with
  | nil => rfl
  | cons p pending ih =>
    simp only [successes, List.map_cons, List.filterMap_cons] at ih ⊢
    rw [ih]

lemma successes_failures (pending : List (Lsn × ℕ)) :
    successes (pending.map fun p => .replied p.2 none) = [] := by
  induction pending with
  | nil => rfl
  | cons p pending ih =>
    simp only [successes, List.map_cons, List.filterMap_cons] at ih ⊢
    exact ih

/-- A flush turns the pending requests into successful replies, or drops them. -/
lemma Ordered.doFlush {firstLsn : ℕ} (hs : s.Ordered firstLsn) (sync : IoOutcome) :
    (s.doFlush sync).Ordered firstLsn := by
  obtain ⟨wal, outcome, result, heq, hlsn, hresult⟩ := doFlush_eq s sync
  have hsub : (successes (s.trace ++ outcome :: s.pending.map fun p => .replied p.2 (result p.1)) ++
      ([] : List (Lsn × ℕ)).map fun p => (p.2, p.1)).Sublist
      (successes s.trace ++ s.pending.map fun p => (p.2, p.1)) := by
    rw [List.map_nil, List.append_nil, successes_append]
    refine List.Sublist.append_left ?_ _
    rcases hresult with ⟨rfl, rfl⟩ | ⟨rfl, rfl⟩
    · have hcons : successes (.synced :: s.pending.map fun p => .replied p.2 (some p.1)) =
          successes (s.pending.map fun p => .replied p.2 (some p.1)) := rfl
      rw [hcons, successes_replies]
    · have hcons : successes (.syncFailed :: s.pending.map fun p => .replied p.2 none) =
          successes (s.pending.map fun p => .replied p.2 none) := rfl
      rw [hcons, successes_failures]
      exact List.nil_sublist _
  rw [heq]
  refine ⟨hlsn ▸ hs.counter, hs.pairwise.sublist hsub, fun x hx => ?_⟩
  rw [hlsn]
  exact hs.bound x (hsub.subset hx)

/-- What accepting a request does. -/
lemma accept_eq (s : GroupCommitter) (recordType : RecordType) (payload : RecordPayload)
    (timestamp : UInt64) (append : IoOutcome) :
    ∃ writer, s.accept recordType payload timestamp append =
        { s with
          wal := ⟨writer, s.wal.currentLsn + 1⟩
          received := s.received + 1
          pending := s.pending ++ [(s.wal.currentLsn + 1, s.received)]
          trace := s.trace ++ [.appended s.received (s.wal.currentLsn + 1)] } ∨
      s.accept recordType payload timestamp append =
        { s with
          wal := ⟨writer, s.wal.currentLsn + 1⟩
          received := s.received + 1
          trace := s.trace ++ [.appendFailed s.received, .replied s.received none] } := by
  cases append with
  | ok => exact ⟨(s.wal.appendAt recordType payload timestamp).1.writer, .inl rfl⟩
  | failed writer => exact ⟨writer, .inr rfl⟩

lemma Inv.accept (hs : s.Inv) (recordType : RecordType) (payload : RecordPayload)
    (timestamp : UInt64) (append : IoOutcome) :
    (s.accept recordType payload timestamp append).Inv := by
  have hfresh : s.received ∉ s.pending.map (·.2) := by
    intro hmem
    obtain ⟨p, hp, heq⟩ := List.mem_map.mp hmem
    have hlt := hs.pending_lt p hp
    omega
  obtain ⟨writer, heq | heq⟩ := accept_eq s recordType payload timestamp append
  · rw [heq]
    refine ⟨?_, ?_, ?_, fun request => ?_, ?_⟩
    · intro p hp
      rcases List.mem_append.mp hp with hp | hp
      · exact (hs.pending_lt p hp).trans (Nat.lt_succ_self _)
      · rw [List.mem_singleton] at hp
        subst hp
        exact Nat.lt_succ_self _
    · rw [List.map_append, List.nodup_append]
      exact ⟨hs.nodup, by simp, by simpa using fun a b hab hb => hfresh (List.mem_map.mpr ⟨_, hab, hb⟩)⟩
    · intro p hp
      rcases List.mem_append.mp hp with hp | hp
      · exact List.mem_append_left _ (hs.appended p hp)
      · rw [List.mem_singleton] at hp
        subst hp
        simp
    · have hone : GroupCommitter.replies [.appended s.received (s.wal.currentLsn + 1)] request = 0 := rfl
      rw [replies_append, hone, hs.replies, Nat.add_zero]
      by_cases hr : request = s.received
      · subst hr
        simp
      · have hlt : request < s.received + 1 ↔ request < s.received := by omega
        refine if_congr ?_ rfl rfl
        rw [hlt, List.map_append, List.mem_append]
        simp [hr]
    · exact hs.durable.append (by simp)
  · rw [heq]
    refine ⟨fun p hp => (hs.pending_lt p hp).trans (Nat.lt_succ_self _), hs.nodup,
      fun p hp => List.mem_append_left _ (hs.appended p hp), fun request => ?_, ?_⟩
    · have htwo : GroupCommitter.replies
          [.appendFailed s.received, .replied s.received none] request =
            if s.received = request then 1 else 0 := by
        simp [GroupCommitter.replies, List.countP_cons]
      rw [replies_append, htwo, hs.replies]
      by_cases hr : request = s.received
      · subst hr
        simpa using hfresh
      · have hlt : request < s.received + 1 ↔ request < s.received := by omega
        have hne : ¬ s.received = request := fun h => hr h.symm
        rw [if_neg hne, Nat.add_zero]
        exact if_congr (by rw [hlt]) rfl rfl
    · exact hs.durable.append (by simp)

lemma Ordered.accept {firstLsn : ℕ} (hs : s.Ordered firstLsn) (recordType : RecordType)
    (payload : RecordPayload) (timestamp : UInt64) (append : IoOutcome)
    (hlimit : firstLsn + s.received + 1 < 2 ^ 64) :
    (s.accept recordType payload timestamp append).Ordered firstLsn := by
  have hnext : (s.wal.currentLsn + 1).toNat = s.wal.currentLsn.toNat + 1 := by
    rw [UInt64.toNat_add, hs.counter]
    exact Nat.mod_eq_of_lt (by simpa using hlimit)
  have hlt : s.wal.currentLsn < s.wal.currentLsn + 1 := by
    rw [UInt64.lt_iff_toNat_lt, hnext]
    exact Nat.lt_succ_self _
  have hcounter : (s.wal.currentLsn + 1).toNat = firstLsn + (s.received + 1) := by
    rw [hnext, hs.counter, Nat.add_assoc]
  have hbound : ∀ x ∈ successes s.trace ++ s.pending.map fun p => (p.2, p.1),
      x.1 < s.received + 1 ∧ x.2 ≤ s.wal.currentLsn + 1 := by
    intro x hx
    obtain ⟨hnumber, hlsn⟩ := hs.bound x hx
    exact ⟨hnumber.trans (Nat.lt_succ_self _), UInt64.le_trans hlsn (UInt64.le_of_lt hlt)⟩
  obtain ⟨writer, heq | heq⟩ := accept_eq s recordType payload timestamp append
  · rw [heq]
    have hlist : successes (s.trace ++ [.appended s.received (s.wal.currentLsn + 1)]) ++
        (s.pending ++ [(s.wal.currentLsn + 1, s.received)]).map (fun p => (p.2, p.1)) =
        (successes s.trace ++ s.pending.map fun p => (p.2, p.1)) ++
          [(s.received, s.wal.currentLsn + 1)] := by
      rw [successes_append]
      simp [successes]
    refine ⟨hcounter, ?_, ?_⟩
    · rw [hlist, List.pairwise_append]
      refine ⟨hs.pairwise, List.pairwise_singleton _ _, fun x hx y hy => ?_⟩
      rw [List.mem_singleton] at hy
      subst hy
      obtain ⟨hnumber, hlsn⟩ := hs.bound x hx
      exact ⟨hnumber, UInt64.lt_of_le_of_lt hlsn hlt⟩
    · rw [hlist]
      intro x hx
      rcases List.mem_append.mp hx with hx | hx
      · exact hbound x hx
      · rw [List.mem_singleton] at hx
        subst hx
        exact ⟨Nat.lt_succ_self _, UInt64.le_refl _⟩
  · rw [heq]
    have hlist : successes (s.trace ++ [.appendFailed s.received, .replied s.received none]) =
        successes s.trace := by
      rw [successes_append]
      simp [successes]
    refine ⟨hcounter, ?_, ?_⟩
    · rw [hlist]
      exact hs.pairwise
    · rw [hlist]
      exact hbound

/-- A request in synchronous mode is accepted and flushed at once. -/
lemma handleSynchronously_eq (s : GroupCommitter) (hidle : s.pending = []) (recordType : RecordType)
    (payload : RecordPayload) (timestamp : UInt64) (append sync : IoOutcome) :
    s.handleSynchronously recordType payload timestamp append sync =
      let s := s.accept recordType payload timestamp append
      if s.pending.isEmpty then s else s.doFlush sync := by
  cases append with
  | failed writer => simp [handleSynchronously, accept, Wal.tryAppend, hidle]
  | ok => cases sync <;>
      simp [handleSynchronously, accept, Wal.tryAppend, Wal.trySync, doFlush, hidle]

/-- Outside of a turn nothing is pending in synchronous mode, nor after the channel is closed. -/
def Idle (config : WalGroupCommitConfig) (s : GroupCommitter) : Prop :=
  s.closed ∨ config.isSynchronous → s.pending = []

variable {config : WalGroupCommitConfig}

@[simp] lemma received_accept (s : GroupCommitter) (recordType : RecordType) (payload : RecordPayload)
    (timestamp : UInt64) (append : IoOutcome) :
    (s.accept recordType payload timestamp append).received = s.received + 1 := by
  cases append <;> rfl

@[simp] lemma closed_accept (s : GroupCommitter) (recordType : RecordType) (payload : RecordPayload)
    (timestamp : UInt64) (append : IoOutcome) :
    (s.accept recordType payload timestamp append).closed = s.closed := by
  cases append <;> rfl

/-- A property of the task that accepting, flushing and closing keep holds after a turn. -/
lemma step_induction {P : GroupCommitter → Prop} (hidle : s.Idle config) (hs : P s) (e : CommitEvent)
    (haccept : ∀ recordType payload timestamp append, ¬ s.closed →
      P (s.accept recordType payload timestamp append))
    (hflush : ∀ s sync, P s → P (s.doFlush sync))
    (hclose : ∀ s, P s → P { s with closed := true }) : P (s.step config e) := by
  unfold step
  split
  · exact hs
  · next hclosed =>
    cases e with
    | request recordType payload timestamp append sync =>
      have haccepted := haccept recordType payload timestamp append hclosed
      simp only
      split
      · next hsync =>
        rw [handleSynchronously_eq s (hidle (.inr hsync))]
        simp only
        split
        · exact haccepted
        · exact hflush _ _ haccepted
      · split
        · exact hflush _ _ haccepted
        · exact haccepted
    | tick sync =>
      simp only
      split
      · exact hs
      · exact hflush _ _ hs
    | close sync =>
      simp only
      split
      · exact hclose _ hs
      · exact hclose _ (hflush _ _ hs)

lemma Inv.step (hs : s.Inv) (hidle : s.Idle config) (e : CommitEvent) : (s.step config e).Inv :=
  step_induction hidle hs e (fun _ _ _ _ _ => hs.accept _ _ _ _) (fun _ sync h => h.doFlush sync)
    fun _ h => ⟨h.pending_lt, h.nodup, h.appended, h.replies, h.durable⟩

/-- After a tick or the end of the channel nothing is pending. -/
lemma pending_step_of_flush (hidle : s.Idle config) {e : CommitEvent} {sync : IoOutcome}
    (he : e = .tick sync ∨ e = .close sync) : (s.step config e).pending = [] := by
  unfold GroupCommitter.step
  split
  · next hclosed => exact hidle (.inl hclosed)
  · have hempty : (if config.isSynchronous || s.pending.isEmpty then s else s.doFlush sync).pending =
        [] := by
      split
      · next hcond =>
        rcases Bool.or_eq_true_iff.mp hcond with hsync | hnone
        · exact hidle (.inr hsync)
        · exact List.isEmpty_iff.mp hnone
      · exact pending_doFlush s sync
    rcases he with rfl | rfl
    · exact hempty
    · exact hempty

lemma Idle.step (hidle : s.Idle config) (e : CommitEvent) : (s.step config e).Idle config := by
  cases e with
  | tick sync => exact fun _ => pending_step_of_flush hidle (.inl rfl)
  | close sync => exact fun _ => pending_step_of_flush hidle (.inr rfl)
  | request recordType payload timestamp append sync =>
    unfold GroupCommitter.step
    split
    · exact hidle
    · next hopen =>
      simp only
      split
      · next hsync =>
        rw [handleSynchronously_eq s (hidle (.inr hsync))]
        intro _
        simp only
        split
        · next hnone => exact List.isEmpty_iff.mp hnone
        · exact pending_doFlush _ sync
      · next hgroup =>
        rintro (hclosed | hsync)
        · split at hclosed <;> simp [hopen] at hclosed
        · exact absurd hsync hgroup

/-- The invariants hold after every run. -/
theorem inv_run (config : WalGroupCommitConfig) (wal : Wal) (events : List CommitEvent) :
    (run config wal events).Inv ∧ (run config wal events).Idle config ∧
      (wal.currentLsn.toNat + (run config wal events).received < 2 ^ 64 →
        (run config wal events).Ordered wal.currentLsn.toNat) := by
  induction events using List.reverseRecOn with
  | nil => exact ⟨inv_start wal, fun _ => rfl, fun _ => ordered_start wal⟩
  | append_singleton events e ih =>
    obtain ⟨hinv, hidle, hordered⟩ := ih
    have hrun : run config wal (events ++ [e]) = (run config wal events).step config e := by simp [run]
    rw [hrun]
    refine ⟨hinv.step hidle e, hidle.step e, ?_⟩
    -- the number of requests decides whether the counter is still in range
    have hkeep : wal.currentLsn.toNat + ((run config wal events).step config e).received < 2 ^ 64 →
        ((run config wal events).step config e).Ordered wal.currentLsn.toNat := by
      refine step_induction (P := fun s => wal.currentLsn.toNat + s.received < 2 ^ 64 →
        s.Ordered wal.currentLsn.toNat) hidle hordered e ?_ ?_ ?_
      · intro recordType payload timestamp append _ hlimit
        rw [received_accept] at hlimit
        exact (hordered (by omega)).accept _ _ _ _ (by omega)
      · intro s sync hs hlimit
        rw [received_doFlush] at hlimit
        exact (hs hlimit).doFlush sync
      · intro s hs hlimit
        exact ⟨(hs hlimit).counter, (hs hlimit).pairwise, (hs hlimit).bound⟩
    exact hkeep

/-- In every run a request never gets two replies, and once the timer has ticked or the channel is
closed each request received has got one; a successful reply is sent only after a sync that succeeded
and that followed the append of the record; and as long as the 64-bit counter of the log does not wrap
around, the numbers of the successful replies increase in the order of the appends. -/
theorem group_commit (config : WalGroupCommitConfig) (wal : Wal) (events : List CommitEvent) :
    (∀ request, replies (run config wal events).trace request ≤ 1) ∧
      (∀ e sync, e = .tick sync ∨ e = .close sync →
        ∀ request < (run config wal (events ++ [e])).received,
          replies (run config wal (events ++ [e])).trace request = 1) ∧
      Durable (run config wal events).trace ∧
      (wal.currentLsn.toNat + (run config wal events).received < 2 ^ 64 →
        (successes (run config wal events).trace).Pairwise fun x y => x.1 < y.1 ∧ x.2 < y.2) := by
  obtain ⟨hinv, hidle, hordered⟩ := inv_run config wal events
  refine ⟨fun request => ?_, fun e sync he request hrequest => ?_, hinv.durable, fun hlimit => ?_⟩
  · rw [hinv.replies]
    split <;> omega
  · have hrun : run config wal (events ++ [e]) = (run config wal events).step config e := by simp [run]
    have hnone : (run config wal (events ++ [e])).pending = [] := by
      rw [hrun]
      exact pending_step_of_flush hidle he
    rw [(inv_run config wal (events ++ [e])).1.replies, hnone]
    simp [hrequest]
  · exact (hordered hlimit).pairwise.sublist (List.sublist_append_left _ _)

/-- Two requests in one batch. -/
theorem group_commit_batch :
    (successes (run .default (.openFile [])
      [.request .checkpoint (.checkpoint 0) 7 .ok .ok, .request .checkpoint (.checkpoint 0) 8 .ok .ok,
        .tick .ok]).trace).Pairwise fun x y => x.1 < y.1 ∧ x.2 < y.2 :=
  (group_commit .default (.openFile []) [.request .checkpoint (.checkpoint 0) 7 .ok .ok,
    .request .checkpoint (.checkpoint 0) 8 .ok .ok, .tick .ok]).2.2.2 (by decide +kernel)

/-- A log whose last record has the number 2^64 - 2: the second one of two further records gets the
number 0. -/
theorem group_commit_wraps :
    ¬ (successes (run .default
      (.openFile (WalCodec.encodeRecord ⟨18446744073709551614, 7, .checkpoint, .checkpoint 0⟩))
      [.request .checkpoint (.checkpoint 0) 8 .ok .ok, .request .checkpoint (.checkpoint 0) 9 .ok .ok,
        .tick .ok]).trace).Pairwise fun x y => x.1 < y.1 ∧ x.2 < y.2 := by
  decide +kernel

end GroupCommitter

end Maharit
