import MaharitDb.Lib.MapEntries
import MaharitDb.Server.GraphIntegrity
import MaharitDb.Server.ReadOnly

/-!
# The graph of the server stays consistent

Clients interleave their requests as they like: statements with and without a transaction, statements that
fail, commits, and rollbacks of transactions whose elements others have deleted meanwhile.  After any of
these runs the adjacency and the label index agree with the nodes and the edges, and what the open
transactions would restore is neither live nor listed twice.  The id counters are the only limit: the
server must have logged fewer than 2^64 entries.
-/

namespace Maharit

open UndoLog Intact GuardedRun

/-! ## The records of all transactions -/

namespace TransactionManager

/-- What the transactions would take back. -/
def pendingRecords (tm : TransactionManager) : List UndoRecord :=
  tm.transactions.entries.flatMap fun e => e.2.undoLog

/-- The records when the entry of a transaction is replaced. -/
lemma pendingRecords_insert {tm tm' : TransactionManager} {tx : TxId} {t t' : Transaction}
    (ht : tm.transactions.lookup tx = some t) (htm' : tm'.transactions = tm.transactions.insert tx t') :
    ∃ rest, tm.pendingRecords.Perm (rest ++ t.undoLog) ∧ tm'.pendingRecords.Perm (rest ++ t'.undoLog) := by
  refine ⟨((tm.transactions.erase tx).entries).flatMap fun e => e.2.undoLog, ?_, ?_⟩
  · have hperm := HashMap.perm_entries_erase tm.transactions ht
    have hflat := hperm.flatMap_right fun e => e.2.undoLog
    exact hflat.trans List.perm_append_comm
  · unfold pendingRecords
    rw [htm', AList.entries_insert, List.flatMap_cons]
    exact List.perm_append_comm

/-- A transaction that begins has no records, and it replaces at most another one. -/
lemma pendingRecords_begin (tm : TransactionManager) (readOnly : Bool) :
    (tm.beginWithOptions readOnly).1.pendingRecords.Sublist tm.pendingRecords := by
  simp only [pendingRecords, beginWithOptions, AList.entries_insert, List.flatMap_cons, List.nil_append]
  exact (List.kerase_sublist _ _).flatMap _

end TransactionManager

namespace Server

/-! ## The invariant -/

/-- The graph is intact, and the counters are behind the log. -/
structure Sound (s : Server) : Prop where
  intact : Intact s.graph (restoredNodes s.txManager.pendingRecords) (restoredEdges s.txManager.pendingRecords)
  atMost : AtMost s.graph s.wal.length
  named : ∀ u ∈ s.txManager.pendingRecords, u.NamesLabel
  cached : ∀ key stmt, s.astCache.statement? key = some stmt → stmt.NamesLabels

/-- The graph was changed by calls that store under unused ids, and these are what was logged. -/
def Logged (J : JsonText) (s s' : Server) : Prop :=
  ∃ calls, s'.graph = WriteCall.run s.graph calls ∧
    s'.wal = s.wal ++ runRecords WriteCall.apply (RecordingGraph.walEntries J) s.graph calls ∧
    Along WriteCall.apply WriteCall.Fresh s.graph calls

/-- The log grows; until it has as many entries as there are ids, the invariant is kept and the log says what
was done to the graph. -/
structure Advances (J : JsonText) (s s' : Server) : Prop where
  log : s.wal <+: s'.wal
  sound : s'.wal.length < 2 ^ 64 → s.Sound → s'.Sound
  logged : s'.wal.length < 2 ^ 64 → s.Sound → Logged J s s'

variable {J : JsonText} {s s' s'' : Server}

lemma Logged.of_same (hgraph : s'.graph = s.graph) (hwal : s'.wal = s.wal) : Logged J s s' :=
  ⟨[], hgraph, by simpa [runRecords] using hwal, trivial⟩

lemma Logged.trans (h : Logged J s s') (h' : Logged J s' s'') : Logged J s s'' := by
  obtain ⟨calls, hgraph, hwal, hfresh⟩ := h
  obtain ⟨calls', hgraph', hwal', hfresh'⟩ := h'
  refine ⟨calls ++ calls', ?_, ?_, along_append.mpr ⟨hfresh, ?_⟩⟩
  · rw [hgraph', hgraph, WriteCall.run_append]
  · rw [hwal', hwal, hgraph, runRecords_append, List.append_assoc]
    rfl
  · rw [hgraph] at hfresh'
    exact hfresh'

/-- The second step relies on what the invariant gave before the first one. -/
lemma Advances.trans_of {p : Prop} (h : Advances J s s') (hp : s.Sound → p) (hlog : s'.wal <+: s''.wal)
    (h' : p → Advances J s' s'') : Advances J s s'' where
  log := h.log.trans hlog
  sound hlt hs := (h' (hp hs)).sound hlt (h.sound (hlog.length_le.trans_lt hlt) hs)
  logged hlt hs := by
    have hlt' := hlog.length_le.trans_lt hlt
    exact (h.logged hlt' hs).trans ((h' (hp hs)).logged hlt (h.sound hlt' hs))

lemma Advances.trans (h : Advances J s s') (h' : Advances J s' s'') : Advances J s s'' :=
  h.trans_of (p := True) (fun _ => trivial) h'.log fun _ => h'

/-- Records, graph, log and cache stay as they are. -/
lemma Advances.of_same (hgraph : s'.graph = s.graph) (htx : s'.txManager = s.txManager) (hwal : s'.wal = s.wal)
    (hcache : s'.astCache = s.astCache) : Advances J s s' where
  log := hwal ▸ List.prefix_refl s.wal
  sound _ hs := by
    refine ⟨?_, ?_, ?_, ?_⟩
    · rw [hgraph, htx]
      exact hs.intact
    · rw [hgraph, hwal]
      exact hs.atMost
    · rw [htx]
      exact hs.named
    · rw [hcache]
      exact hs.cached
  logged _ _ := .of_same hgraph hwal

lemma Advances.refl (s : Server) : Advances J s s := .of_same rfl rfl rfl rfl

/-- The records are others, and graph and log stay as they are. -/
lemma Advances.of_txManager {tm : TransactionManager} (htm : tm.pendingRecords.Subperm s.txManager.pendingRecords) :
    Advances J s { s with txManager := tm } where
  log := List.prefix_refl s.wal
  sound _ hs := by
    obtain ⟨records, hperm, hsub⟩ := id htm
    refine ⟨hs.intact.subperm ?_ ?_, hs.atMost, fun u hu => hs.named u (htm.subset hu), hs.cached⟩
    · exact ⟨restoredNodes records, hperm.filterMap _, hsub.filterMap _⟩
    · exact ⟨restoredEdges records, hperm.filterMap _, hsub.filterMap _⟩
  logged _ _ := .of_same rfl rfl

/-! ## Statements -/

variable {ε : Type} {E : ServerEnv ε}

/-- What the server runs on: it logs for followers, and its parser yields no empty label. -/
structure Replicates (E : ServerEnv ε) : Prop where
  replication : E.replication = true
  parse : ∀ query stmt, E.parse query = .ok stmt → stmt.NamesLabels

lemma advances_getOrParse (hE : Replicates E) (s : Server) (query : String) :
    Advances E.J s (s.getOrParse E query).1 ∧
      (s.Sound → ∀ stmt, (s.getOrParse E query).2 = .ok stmt → stmt.NamesLabels) := by
  rcases hcached : s.astCache.statement? (normalizeQuery query) with _ | stmt
  · obtain ⟨hresult, hnew⟩ := @AstCache.getOrParse_of_miss _ E.parse _ _ hcached
    refine ⟨⟨List.prefix_refl s.wal, fun _ hs => ⟨hs.intact, hs.atMost, hs.named, fun key stmt hstmt => ?_⟩,
      fun _ _ => .of_same rfl rfl⟩, fun _ stmt hstmt => hE.parse query stmt (hresult.symm.trans hstmt)⟩
    rcases hnew key stmt hstmt with hold | ⟨-, hparse⟩
    · exact hs.cached key stmt hold
    · exact hE.parse query stmt hparse
  · obtain ⟨hresult, hkept⟩ := @AstCache.getOrParse_of_hit _ E.parse _ _ _ hcached
    refine ⟨⟨List.prefix_refl s.wal, fun _ hs => ⟨hs.intact, hs.atMost, hs.named, fun key stmt hstmt => ?_⟩,
      fun _ _ => .of_same rfl rfl⟩, fun hs stmt' hstmt => ?_⟩
    · exact hs.cached key stmt ((hkept key).symm.trans hstmt)
    · obtain rfl := Except.ok.inj (hresult.symm.trans hstmt)
      exact hs.cached _ _ hcached

/-- A statement that writes does so through calls of a transaction; log and undo records are those of the
calls. -/
lemma run_writes (hE : Replicates E) {stmt : Statement} (hstmt : stmt.NamesLabels) (m : SharedManagers)
    (g : ConcurrentGraph) (captureUndo : Bool) :
    ∃ calls : List WriteCall, (∀ c ∈ calls, c.Transactional) ∧
      (m.run E g stmt true captureUndo).graph = WriteCall.run g calls ∧
      (m.run E g stmt true captureUndo).wal = runRecords WriteCall.apply (RecordingGraph.walEntries E.J) g calls ∧
      (captureUndo = true → (m.run E g stmt true captureUndo).undo =
        runRecords WriteCall.apply RecordingGraph.undoRecords g calls) := by
  let recorder := if captureUndo then (RecordingGraph.new E.J g E.replication).withUndo
    else RecordingGraph.new E.J g E.replication
  obtain ⟨calls, hrun, hcalls⟩ := execute_writes E.analysis E.writes E.planner hstmt
    (⟨recorder, m.constraints, m.fulltext, m.propertyIndex, [], ∅⟩ : Executor (RecordingGraph E.J))
  have hrun : (execute E.analysis E.writes E.planner stmt
      ⟨recorder, m.constraints, m.fulltext, m.propertyIndex, [], ∅⟩).1.graph =
        recorder.record (WriteCall.run recorder.graph calls)
          (runRecords WriteCall.apply (RecordingGraph.walEntries E.J) recorder.graph calls)
          (runRecords WriteCall.apply RecordingGraph.undoRecords recorder.graph calls) :=
    hrun.trans (RecordingGraph.run_eq_record recorder calls)
  have hgraph : recorder.graph = g := by
    simp only [recorder]
    split <;> rfl
  have hlog : recorder.wal = [] ∧ recorder.walEnabled = true := by
    simp only [recorder]
    split <;> exact ⟨rfl, hE.replication⟩
  rw [hgraph] at hrun
  refine ⟨calls, hcalls, ?_, ?_, fun hcapture => ?_⟩
  · change (execute E.analysis E.writes E.planner stmt
      ⟨recorder, m.constraints, m.fulltext, m.propertyIndex, [], ∅⟩).1.graph.graph = _
    rw [hrun]
    rfl
  · change (execute E.analysis E.writes E.planner stmt
      ⟨recorder, m.constraints, m.fulltext, m.propertyIndex, [], ∅⟩).1.graph.wal = _
    rw [hrun]
    simp only [RecordingGraph.record, hlog.1, hlog.2, if_true, List.nil_append]
  · change ((execute E.analysis E.writes E.planner stmt
      ⟨recorder, m.constraints, m.fulltext, m.propertyIndex, [], ∅⟩).1.graph.undo.getD []) = _
    rw [hrun]
    simp only [RecordingGraph.record, recorder, hcapture, if_true, RecordingGraph.withUndo, Option.map_some,
      List.nil_append, Option.getD_some]

/-- The calls of a statement store under unused ids. -/
lemma Logged.of_calls (hs : s.Sound) {calls : List WriteCall} (hcalls : ∀ c ∈ calls, c.Transactional)
    (hgraph : s'.graph = WriteCall.run s.graph calls)
    (hwal : s'.wal = s.wal ++ runRecords WriteCall.apply (RecordingGraph.walEntries J) s.graph calls)
    (hlt : s.wal.length + (runRecords WriteCall.apply (RecordingGraph.walEntries J) s.graph calls).length < 2 ^ 64) :
    Logged J s s' :=
  ⟨calls, hgraph, hwal, (hs.intact.along_callGuard J hcalls hs.atMost hlt).mono fun _ _ h => ⟨h.1.1, h.2⟩⟩

/-- A statement outside of transactions. -/
lemma advances_withOutcome (hE : Replicates E) {stmt : Statement} (hstmt : stmt.NamesLabels) (s : Server) :
    Advances E.J s (s.withOutcome (s.managers.run E s.graph stmt (!isReadOnly stmt) false)) := by
  by_cases hread : isReadOnly stmt = true
  · obtain ⟨hgraph, -⟩ := run_of_readOnly (E := E) hread s.managers s.graph false
    have hwal : (s.managers.run E s.graph stmt (!isReadOnly stmt) false).wal = [] := by
      simp only [SharedManagers.run, hread, Bool.not_true, Bool.false_eq_true, if_false]
    refine .of_same hgraph rfl ?_ rfl
    simp only [withOutcome, hwal, List.append_nil]
  · rw [Bool.not_eq_true] at hread
    rw [hread, Bool.not_false]
    obtain ⟨calls, hcalls, hgraph, hwal, -⟩ := run_writes hE hstmt s.managers s.graph false
    refine ⟨List.prefix_append _ _, fun hlt hs => ?_, fun hlt hs => ?_⟩
    · simp only [withOutcome, List.length_append, hwal] at hlt
      obtain ⟨hintact, hatMost⟩ := hs.intact.run E.J hcalls hs.atMost hlt
      refine ⟨?_, ?_, hs.named, hs.cached⟩
      · simp only [withOutcome, hgraph]
        exact hintact.subperm (List.sublist_append_left _ _).subperm (List.sublist_append_left _ _).subperm
      · simp only [withOutcome, hgraph, hwal, List.length_append]
        exact hatMost
    · simp only [withOutcome, List.length_append, hwal] at hlt
      exact .of_calls hs hcalls hgraph (by rw [← hwal]; rfl) hlt

/-- A query that is parsed first. -/
lemma advances_of_getOrParse (hE : Replicates E) (query : String) {t : Server}
    (herror : ∀ s' e, s.getOrParse E query = (s', .error e) → Advances E.J s' t)
    (hok : ∀ s' stmt, s.getOrParse E query = (s', .ok stmt) →
      s'.wal <+: t.wal ∧ (stmt.NamesLabels → Advances E.J s' t)) : Advances E.J s t := by
  obtain ⟨hparse, hnames⟩ := advances_getOrParse hE s query
  rcases hresult : s.getOrParse E query with ⟨s', e | stmt⟩
  · rw [hresult] at hparse
    exact hparse.trans (herror s' e hresult)
  · rw [hresult] at hparse hnames
    obtain ⟨hlog, hnext⟩ := hok s' stmt hresult
    exact hparse.trans_of (fun hs => hnames hs stmt rfl) hlog hnext

lemma advances_executeQuery (hE : Replicates E) (s : Server) (query : String) :
    Advances E.J s (s.executeQuery E query).1 := by
  refine advances_of_getOrParse hE query (fun s' e hresult => ?_) fun s' stmt hresult => ?_
  · unfold executeQuery
    rw [hresult]
    exact .refl s'
  · unfold executeQuery
    rw [hresult]
    exact ⟨List.prefix_append _ _, fun hstmt => advances_withOutcome hE hstmt s'⟩

lemma advances_executeStreamingQuery (hE : Replicates E) (s : Server) (query : String) (chunkSize : ℕ) :
    Advances E.J s (s.executeStreamingQuery E query chunkSize).1 := by
  refine advances_of_getOrParse hE query (fun s' e hresult => ?_) fun s' stmt hresult => ?_
  · unfold executeStreamingQuery
    rw [hresult]
    exact .refl s'
  · unfold executeStreamingQuery
    rw [hresult]
    dsimp only
    split
    · exact ⟨List.prefix_append _ _, fun hstmt => advances_withOutcome hE hstmt s'⟩
    · refine ⟨List.prefix_append _ _, fun hstmt => (advances_withOutcome hE hstmt s').trans ?_⟩
      exact .of_same rfl rfl rfl rfl

lemma lookup_of_isActive {tm : TransactionManager} {tx : TxId} (h : isActive tm tx = true) :
    ∃ t, tm.transactions.lookup tx = some t ∧ t.state = .active := by
  unfold isActive TransactionManager.getTransaction at h
  rcases hlookup : tm.transactions.lookup tx with _ | t
  · rw [hlookup] at h
    cases h
  · rw [hlookup] at h
    exact ⟨t, rfl, beq_iff_eq.mp h⟩

/-- A statement that writes in a transaction. -/
lemma advances_inTransaction (hE : Replicates E) {stmt : Statement} (hstmt : stmt.NamesLabels) {tx : TxId}
    {t : Transaction} (ht : s.txManager.transactions.lookup tx = some t) {tm : TransactionManager}
    (htm : tm.transactions = s.txManager.transactions.insert tx
      { t with undoLog := t.undoLog ++ (s.managers.run E s.graph stmt true true).undo }) :
    Advances E.J s { s.withOutcome (s.managers.run E s.graph stmt true true) with txManager := tm } := by
  obtain ⟨calls, hcalls, hgraph, hwal, hundo⟩ := run_writes hE hstmt s.managers s.graph true
  have hundo := hundo rfl
  refine ⟨List.prefix_append _ _, fun hlt hs => ?_, fun hlt hs => ?_⟩
  · simp only [withOutcome, List.length_append, hwal] at hlt
    obtain ⟨hintact, hatMost⟩ := hs.intact.run E.J hcalls hs.atMost hlt
    obtain ⟨rest, hbefore, hafter⟩ := TransactionManager.pendingRecords_insert ht htm
    have hperm : tm.pendingRecords.Perm (s.txManager.pendingRecords ++
        runRecords WriteCall.apply RecordingGraph.undoRecords s.graph calls) := by
      rw [← hundo]
      refine hafter.trans ?_
      dsimp only
      rw [← List.append_assoc]
      exact (hbefore.append_right _).symm
    refine ⟨?_, ?_, fun u hu => ?_, hs.cached⟩
    · simp only [withOutcome, hgraph]
      refine hintact.subperm ?_ ?_
      · rw [← restoredNodes_append]
        exact (hperm.filterMap _).subperm
      · rw [← restoredEdges_append]
        exact (hperm.filterMap _).subperm
    · simp only [withOutcome, hgraph, hwal, List.length_append]
      exact hatMost
    · rcases List.mem_append.mp (hperm.mem_iff.mp hu) with hu | hu
      · exact hs.named u hu
      · exact namesLabel_runRecords hcalls u hu
  · simp only [withOutcome, List.length_append, hwal] at hlt
    exact .of_calls hs hcalls hgraph (by rw [← hwal]; rfl) hlt

lemma advances_executeQueryWithTx (hE : Replicates E) (s : Server) (query : String) (tx : TxId) :
    Advances E.J s (s.executeQueryWithTx E query tx).1 := by
  refine advances_of_getOrParse hE query (fun s' e hresult => ?_) fun s' stmt hresult => ?_
  · unfold executeQueryWithTx
    rw [hresult]
    exact .refl s'
  · unfold executeQueryWithTx
    rw [hresult]
    dsimp only
    split
    · exact ⟨(advances_executeQuery hE s' query).log, fun _ => advances_executeQuery hE s' query⟩
    · split
      · exact ⟨List.prefix_refl _, fun _ => .refl s'⟩
      · rename_i hactive
        rw [Bool.not_eq_true, Bool.not_eq_false'] at hactive
        obtain ⟨t, ht, hstate⟩ := lookup_of_isActive hactive
        rw [TransactionManager.recordUndo_of_active ht hstate]
        exact ⟨List.prefix_append _ _, fun hstmt => advances_inTransaction hE hstmt ht rfl⟩

/-! ## Rollbacks -/

/-- The records of a transaction that is taken back, next to those of the others. -/
lemma Sound.split (hs : s.Sound) {t : Transaction} {rest : List UndoRecord}
    (hbefore : s.txManager.pendingRecords.Perm (rest ++ t.undoLog)) :
    Intact s.graph (restoredNodes rest ++ restoredNodes t.undoLog) (restoredEdges rest ++ restoredEdges t.undoLog) ∧
      ∀ u ∈ rest ++ t.undoLog, u.NamesLabel := by
  refine ⟨hs.intact.subperm ?_ ?_, fun u hu => hs.named u (hbefore.mem_iff.mpr hu)⟩
  · rw [← restoredNodes_append]
    exact (hbefore.symm.filterMap _).subperm
  · rw [← restoredEdges_append]
    exact (hbefore.symm.filterMap _).subperm

lemma advances_rollback (hE : Replicates E) (s : Server) (tx : TxId) : Advances E.J s (s.rollback E tx).1 := by
  unfold rollback TransactionManager.rollbackBackend
  rcases s.txManager.getActive_cases tx with ⟨e, hactive⟩ | ⟨t, ht, -, hactive⟩
  · rw [hactive]
    exact .refl s
  · rw [hactive]
    simp only [bind, Except.bind, pure, Except.pure]
    have hfinish : (s.txManager.finish tx t .rolledBack).transactions =
        s.txManager.transactions.insert tx { t with state := .rolledBack, undoLog := [] } := rfl
    obtain ⟨rest, hbefore, hafter⟩ := TransactionManager.pendingRecords_insert ht hfinish
    rw [List.append_nil] at hafter
    have hgraph : (t.undoLog.reverse.foldl UndoRecord.undo
        (RecordingGraph.new E.J s.graph E.replication)).graph =
          UndoLog.replay UndoRecord.undo s.graph t.undoLog := RecordingGraph.foldl_undo_graph _ _
    refine ⟨List.prefix_append _ _, fun hlt hs => ?_, fun hlt hs => ?_⟩
    · obtain ⟨hsplit, hnamed⟩ := hs.split hbefore
      obtain ⟨hintact, hnode, hedge⟩ := hsplit.replay fun u hu => hnamed u (List.mem_append_right _ hu)
      refine ⟨?_, ?_, fun u hu => ?_, hs.cached⟩
      · rw [hgraph]
        exact hintact.subperm (hafter.filterMap _).subperm (hafter.filterMap _).subperm
      · rw [hgraph]
        refine ⟨?_, ?_⟩
        · rw [hnode]
          exact hs.atMost.1.trans (List.prefix_append s.wal _).length_le
        · rw [hedge]
          exact hs.atMost.2.trans (List.prefix_append s.wal _).length_le
      · exact hnamed u (List.mem_append_left _ (hafter.mem_iff.mp hu))
    · obtain ⟨hsplit, hnamed⟩ := hs.split hbefore
      obtain ⟨calls, hcalls, hfresh⟩ := hsplit.replay_calls fun u hu => hnamed u (List.mem_append_right _ hu)
      have hrun : t.undoLog.reverse.foldl UndoRecord.undo (RecordingGraph.new E.J s.graph E.replication) =
          WriteCall.run (RecordingGraph.new E.J s.graph E.replication) calls := hcalls E.J _ rfl
      rw [RecordingGraph.run_eq_record] at hrun
      refine ⟨calls, ?_, ?_, hfresh⟩
      · rw [hrun]
        rfl
      · rw [hrun]
        simp only [RecordingGraph.record, RecordingGraph.new, hE.replication, if_true, List.nil_append]

/-! ## Requests -/

lemma advances_handleQuery (hE : Replicates E) (s : Server) (d : Draw) (role : Role) (query : String)
    (txId : Option TxId) : Advances E.J s (s.handleQuery E d role query txId).1 := by
  obtain ⟨auth, hfst, -⟩ := tryHandleUserManagement_fst (E := E) s d role query
  have hparsed : Advances E.J s (s.tryHandleUserManagement E d role query).1 := by
    rw [hfst]
    exact (advances_getOrParse hE s query).1.trans (.of_same rfl rfl rfl rfl)
  unfold handleQuery
  rcases hhandle : s.tryHandleUserManagement E d role query with ⟨s', _ | response⟩
  · rw [hhandle] at hparsed
    dsimp only
    split
    · exact hparsed
    · rcases txId with _ | tx
      · exact hparsed.trans (advances_executeQuery hE s' query)
      · exact hparsed.trans (advances_executeQueryWithTx hE s' query tx)
  · rw [hhandle] at hparsed
    exact hparsed

lemma advances_handleAs (hE : Replicates E) (s : Server) (d : Draw) (role : Role) (r : Request) :
    Advances E.J s (s.handleAs E d role r).1 := by
  rcases r with ⟨username, password⟩ | ⟨query, txId, token⟩ | ⟨query, txId, chunkSize, token⟩ | - | - | - |
    ⟨readOnly, token⟩ | ⟨tx, token⟩ | ⟨tx, token⟩
  case query => exact advances_handleQuery hE s d role query txId
  case streamQuery =>
    simp only [handleAs]
    split
    · exact .refl s
    · exact advances_executeStreamingQuery hE s query chunkSize
  case beginTransaction =>
    simp only [handleAs]
    split
    · exact .refl s
    · exact .of_txManager (s.txManager.pendingRecords_begin readOnly).subperm
  case commit =>
    simp only [handleAs, TransactionManager.commit]
    rcases s.txManager.getActive_cases tx with ⟨e, hactive⟩ | ⟨t, ht, -, hactive⟩
    · rw [hactive]
      exact .refl s
    · rw [hactive]
      have hfinish : (s.txManager.finish tx t .committed).transactions =
          s.txManager.transactions.insert tx { t with state := .committed, undoLog := [] } := rfl
      obtain ⟨rest, hbefore, hafter⟩ := TransactionManager.pendingRecords_insert ht hfinish
      rw [List.append_nil] at hafter
      have hsub : (s.txManager.finish tx t .committed).pendingRecords.Subperm s.txManager.pendingRecords :=
        hafter.subperm.trans ((List.sublist_append_left rest t.undoLog).subperm.trans hbefore.symm.subperm)
      exact .of_txManager hsub
  case rollback => exact advances_rollback hE s tx
  all_goals exact .refl s

/-- A request that needs a session is refused, or it is handled for the role of the session. -/
lemma handleRequest_cases (s : Server) {r : Request} {token : Option String}
    (hr : Request.sessionToken r = some token) (d : Draw) : ∃ auth : AuthManager,
      (∃ message, s.handleRequest E d r = ({ s with auth := auth }, [.authError message])) ∨
      ∃ role, s.handleRequest E d r = ({ s with auth := auth } : Server).handleAs E d role r := by
  obtain ⟨auth, ⟨message, hrefused⟩ | ⟨role, hgranted⟩⟩ : ∃ auth : AuthManager,
      (∃ message, s.checkSession E d token = ({ s with auth := auth }, .error (.authError message))) ∨
      ∃ role, s.checkSession E d token = ({ s with auth := auth }, .ok role) := by
    unfold checkSession
    rcases s.auth.checkSession E.requireAuth token d.now with ⟨auth, (_ | e) | role⟩
    · exact ⟨auth, .inl ⟨_, rfl⟩⟩
    · exact ⟨auth, .inl ⟨_, rfl⟩⟩
    · exact ⟨auth, .inr ⟨role, rfl⟩⟩
  · refine ⟨auth, .inl ⟨message, ?_⟩⟩
    rcases r <;> simp_all [handleRequest, Request.sessionToken]
  · refine ⟨auth, .inr ⟨role, ?_⟩⟩
    rcases r <;> simp_all [handleRequest, Request.sessionToken]

/-- One request. -/
lemma advances_step (hE : Replicates E) (s : Server) (r : Request × Draw) : Advances E.J s (s.step E r) := by
  rcases r with ⟨r, d⟩
  rcases htoken : Request.sessionToken r with _ | token
  · -- no session needed: only the sessions change
    rcases r with ⟨username, password⟩ | _ | _ | _ | _ | _ | _ | _ | _
    case login =>
      change Advances E.J s (s.login E d username password).1
      unfold login
      split <;> exact .of_same rfl rfl rfl rfl
    case ping | stats | disconnect => exact .refl s
    all_goals cases htoken
  · obtain ⟨auth, ⟨message, hrefused⟩ | ⟨role, hhandled⟩⟩ := handleRequest_cases (E := E) s htoken d
    · rw [step, hrefused]
      exact .of_same rfl rfl rfl rfl
    · have hsession : Advances E.J s { s with auth := auth } := .of_same rfl rfl rfl rfl
      rw [step, hhandled]
      exact hsession.trans (advances_handleAs hE _ d role r)

/-- Any number of requests. -/
lemma advances_run (hE : Replicates E) (s : Server) (requests : List (Request × Draw)) :
    Advances E.J s (requests.foldl (step E) s) := by
  induction requests generalizing s with
  | nil => exact .refl s
  | cons r requests ih => exact (advances_step hE s r).trans (ih (s.step E r))

end Server

/-- A server whose graph is empty and that handled no request yet. -/
structure Server.Fresh (s : Server) : Prop where
  graph : s.graph = .new
  txManager : s.txManager = .new
  cached : ∀ key, s.astCache.statement? key = none
  wal : s.wal = []

lemma Server.Fresh.sound {s : Server} (h : s.Fresh) : s.Sound where
  intact := by
    rw [h.graph, h.txManager]
    exact ⟨⟨.new, rfl, GraphHistory.inv_new, by simp [TransactionManager.pendingRecords, TransactionManager.new,
      restoredNodes], by simp [TransactionManager.pendingRecords, TransactionManager.new, restoredEdges]⟩,
      by simp [TransactionManager.pendingRecords, TransactionManager.new, restoredNodes],
      by simp [TransactionManager.pendingRecords, TransactionManager.new, restoredEdges], .nil, .nil⟩
  atMost := by
    rw [h.graph]
    exact ⟨Nat.zero_le _, Nat.zero_le _⟩
  named := by
    rw [h.txManager]
    simp [TransactionManager.pendingRecords, TransactionManager.new]
  cached key stmt hstmt := by
    rw [h.cached key] at hstmt
    cases hstmt

/-- **The graph of the server stays consistent** under any interleaving of requests, and what the open
transactions would restore is neither live nor listed twice. -/
theorem server_graph_intact {ε : Type} (E : ServerEnv ε) (hE : Server.Replicates E) {s : Server} (hs : s.Fresh)
    (requests : List (Request × Draw))
    (hlog : (requests.foldl (Server.step E) s).wal.length < 2 ^ 64) :
    (requests.foldl (Server.step E) s).graph.Consistent ∧
      Intact (requests.foldl (Server.step E) s).graph
        (restoredNodes (requests.foldl (Server.step E) s).txManager.pendingRecords)
        (restoredEdges (requests.foldl (Server.step E) s).txManager.pendingRecords) := by
  have hsound := (Server.advances_run hE s requests).sound hlog hs.sound
  exact ⟨hsound.intact.consistent, hsound.intact⟩

/-- The sample server, logging for followers. -/
def replicatingEnv : ServerEnv Unit := { sampleEnv false with replication := true }

lemma replicates_replicatingEnv : Server.Replicates replicatingEnv where
  replication := rfl
  parse query stmt hparse := by
    have hstmt : stmt = matchAll ∨ stmt = createPerson := by
      simp only [replicatingEnv, sampleEnv] at hparse
      split at hparse
      · exact .inl (Except.ok.inj hparse).symm
      · exact .inr (Except.ok.inj hparse).symm
      · cases hparse
    rcases hstmt with rfl | rfl
    · simp [Statement.NamesLabels, matchAll, Statement.updates]
    · simp [Statement.NamesLabels, createPerson, Statement.updates]

lemma fresh_new : Server.new.Fresh where
  graph := rfl
  txManager := rfl
  cached _ := rfl
  wal := rfl

/-- A node is created in a transaction and another one outside, and the transaction is rolled back. -/
def interleavedRequests : List (Request × Draw) :=
  [(.beginTransaction false none, sampleDraw ""), (.query "CREATE (n:Person)" (some 1) none, sampleDraw ""),
    (.query "CREATE (n:Person)" none none, sampleDraw ""), (.rollback 1 none, sampleDraw "")]

theorem server_graph_intact_interleaved :
    (interleavedRequests.foldl (Server.step replicatingEnv) .new).wal.length = 3 ∧
      (interleavedRequests.foldl (Server.step replicatingEnv) .new).graph.Consistent := by
  have hlength : (interleavedRequests.foldl (Server.step replicatingEnv) .new).wal.length = 3 := by
    decide +kernel
  refine ⟨hlength, (server_graph_intact replicatingEnv replicates_replicatingEnv fresh_new interleavedRequests
    ?_).1⟩
  rw [hlength]
  decide

end Maharit
