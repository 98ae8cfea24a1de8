import MaharitDb.Server.ServerIntegrity

/-!
# Rolling a transaction back on the server

A client begins a transaction, sends statements in it, of which some may fail half-way, and rolls it back,
while nobody else writes.  The graph is what it was before, whatever the statements were: the server records
what a failed statement did, too.
-/

namespace Maharit

open UndoLog GuardedRun Intact

namespace Server

variable {ε : Type} {E : ServerEnv ε} {s s' : Server} {tx : TxId} {G : GraphContent}

/-- Whoever sends the request, only the statements in the transaction write. -/
def AloneIn (E : ServerEnv ε) (tx : TxId) (s : Server) (r : Request × Draw) : Prop :=
  match r.1 with
  | .query query txId _ => txId = some tx ∨ s.TakenForRead E query
  | .streamQuery query _ _ _ => s.TakenForRead E query
  | .beginTransaction _ _ => s.txManager.nextTxId ≠ tx
  | .commit tx' _ => tx' ≠ tx
  | .rollback tx' _ => tx' ≠ tx ∧
      ∀ t, s.txManager.transactions.lookup tx' = some t → t.state = .active → t.undoLog = []
  | _ => True

/-- The transaction is open, and its log takes the graph back to the content. -/
def Undoes (tx : TxId) (G : GraphContent) (s : Server) : Prop :=
  ∃ log, s.txManager.ActiveWith tx log ∧ ConcurrentGraph.InvertsContent log s.graph.content G

lemma Undoes.of_same (h : s.Undoes tx G) (hgraph : s'.graph = s.graph)
    (htx : s'.txManager.transactions.lookup tx = s.txManager.transactions.lookup tx) : s'.Undoes tx G := by
  obtain ⟨log, ⟨t, ht, hactive, hlog⟩, hinverts⟩ := h
  exact ⟨log, ⟨t, htx.trans ht, hactive, hlog⟩, hgraph ▸ hinverts⟩

lemma txManager_executeQuery (s : Server) (query : String) :
    (s.executeQuery E query).1.txManager = s.txManager := by
  unfold executeQuery
  rcases hresult : s.getOrParse E query with ⟨s', e | stmt⟩
  all_goals
    have htx : s'.txManager = s.txManager := by
      have hfst : s' = (s.getOrParse E query).1 := by rw [hresult]
      rw [hfst, txManager_getOrParse]
    exact htx

lemma txManager_executeStreamingQuery (s : Server) (query : String) (chunkSize : ℕ) :
    (s.executeStreamingQuery E query chunkSize).1.txManager = s.txManager := by
  unfold executeStreamingQuery
  rcases hresult : s.getOrParse E query with ⟨s', e | stmt⟩
  all_goals
    have htx : s'.txManager = s.txManager := by
      have hfst : s' = (s.getOrParse E query).1 := by rw [hresult]
      rw [hfst, txManager_getOrParse]
  · exact htx
  · dsimp only
    split <;> exact htx

/-! ## Statements -/

/-- A statement that only reads. -/
lemma Undoes.executeQuery (h : s.Undoes tx G) {query : String} (hread : s.TakenForRead E query) :
    (s.executeQuery E query).1.Undoes tx G :=
  h.of_same (sameData_executeQuery hread).graph (by rw [txManager_executeQuery])

/-- A statement in the transaction. -/
lemma Undoes.executeQueryWithTx (hE : Replicates E) (hs : s.Sound) (h : s.Undoes tx G) {query : String}
    (hlog : (s.executeQueryWithTx E query tx).1.wal.length < 2 ^ 64) :
    (s.executeQueryWithTx E query tx).1.Undoes tx G := by
  obtain ⟨hparse, hnames⟩ := advances_getOrParse hE s query
  unfold Server.executeQueryWithTx at hlog ⊢
  rcases hresult : s.getOrParse E query with ⟨s', e | stmt⟩
  all_goals
    have hfst : s' = (s.getOrParse E query).1 := by rw [hresult]
    have h' : s'.Undoes tx G := h.of_same (by rw [hfst]; rfl) (by rw [hfst]; rfl)
  · exact h'
  rw [hresult] at hlog hparse hnames
  dsimp only at hlog hparse hnames ⊢
  by_cases hread : isReadOnly stmt = true
  · rw [if_pos hread]
    refine h'.executeQuery fun stmt' hstmt' => ?_
    rw [hfst, getOrParse_again, hresult] at hstmt'
    exact Except.ok.inj hstmt' ▸ hread
  rw [if_neg hread] at hlog ⊢
  by_cases hactive : isActive s'.txManager tx = true
  · obtain ⟨log, ⟨t, ht, hstate, rfl⟩, hinverts⟩ := h'
    rw [hactive, TransactionManager.recordUndo_of_active ht hstate] at hlog ⊢
    obtain ⟨calls, hcalls, hgraph, hwal, hundo⟩ := run_writes hE (hnames hs stmt rfl) s'.managers s'.graph true
    have hundo := hundo rfl
    simp only [Bool.not_true, Bool.false_eq_true, if_false, withOutcome, List.length_append, hwal] at hlog
    have hs' : s'.Sound := hparse.sound (by omega) hs
    have hguard := hs'.intact.along_callGuard E.J hcalls hs'.atMost hlog
    have hstep : ∀ g c, g.Consistent → ConcurrentGraph.CallGuard g c → (WriteCall.apply g c).Consistent :=
      fun g c hg hc => hg.apply hc.1.1 hc.2
    have hrecords : ConcurrentGraph.InvertsContent (runRecords WriteCall.apply RecordingGraph.undoRecords s'.graph calls)
        (WriteCall.run s'.graph calls).content s'.graph.content :=
      inverts_run hstep (fun g c hg hc => hg.inverts_apply hc) hs'.intact.consistent hguard
    refine ⟨t.undoLog ++ (s'.managers.run E s'.graph stmt true true).undo, ?_, ?_⟩
    · exact ⟨_, AList.lookup_insert _, hstate, rfl⟩
    · simp only [Bool.not_true, Bool.false_eq_true, if_false, withOutcome, hgraph, hundo]
      exact hinverts.append hrecords
  · rw [Bool.not_eq_true] at hactive
    rw [hactive]
    exact h'

/-! ## Requests -/

lemma undoes_handleQuery (hE : Replicates E) (hs : s.Sound) (h : s.Undoes tx G) {d : Draw} {role : Role}
    {query : String} {txId : Option TxId} (halone : txId = some tx ∨ s.TakenForRead E query)
    (hlog : (s.handleQuery E d role query txId).1.wal.length < 2 ^ 64) :
    (s.handleQuery E d role query txId).1.Undoes tx G := by
  obtain ⟨auth, hfst, -⟩ := tryHandleUserManagement_fst (E := E) s d role query
  have hparsed : Advances E.J s (s.tryHandleUserManagement E d role query).1 := by
    rw [hfst]
    exact (advances_getOrParse hE s query).1.trans (.of_same rfl rfl rfl rfl)
  have h' : (s.tryHandleUserManagement E d role query).1.Undoes tx G := by
    rw [hfst]
    exact h.of_same rfl rfl
  have hread : s.TakenForRead E query → (s.tryHandleUserManagement E d role query).1.TakenForRead E query := by
    intro hread
    rw [hfst]
    exact hread.again.of_astCache rfl
  unfold handleQuery at hlog ⊢
  rcases hhandle : s.tryHandleUserManagement E d role query with ⟨s', _ | response⟩
  · rw [hhandle] at hparsed h' hread hlog
    dsimp only at hlog hread ⊢
    split
    · exact h'
    · rename_i hallowed
      rw [hallowed] at hlog
      have hs' : ∀ {t : Server}, s'.wal <+: t.wal → t.wal.length < 2 ^ 64 → s'.Sound := fun hlogged hlt =>
        hparsed.sound (hlogged.length_le.trans_lt hlt) hs
      rcases txId with _ | tx'
      · rcases halone with hnone | htaken
        · cases hnone
        · exact h'.executeQuery (hread htaken)
      · rcases halone with hsome | htaken
        · obtain rfl := Option.some.inj hsome
          exact h'.executeQueryWithTx hE (hs' (advances_executeQueryWithTx hE s' query tx').log hlog) hlog
        · have hsame := sameData_executeQueryWithTx (hread htaken) tx'
          refine h'.of_same hsame.graph ?_
          unfold Server.executeQueryWithTx
          rcases hresult : s'.getOrParse E query with ⟨s'', e | stmt⟩
          all_goals
            have htx : s''.txManager = s'.txManager := by
              have hfst : s'' = (s'.getOrParse E query).1 := by rw [hresult]
              rw [hfst, txManager_getOrParse]
          · exact congrArg (fun tm => tm.transactions.lookup tx) htx
          · have hreads := hread htaken stmt (by rw [hresult])
            simp only [hreads, if_true]
            rw [txManager_executeQuery, htx]
  · rw [hhandle] at h'
    exact h'

/-- The request of another transaction leaves the entry of this one. -/
lemma lookup_finish {tm : TransactionManager} {tx' : TxId} (hne : tx ≠ tx') (t : Transaction)
    (state : TransactionState) :
    (tm.finish tx' t state).transactions.lookup tx = tm.transactions.lookup tx := by
  simp only [TransactionManager.finish, TransactionManager.releaseAllLocks, HashMap.lookup_insert_ite, if_neg hne]

lemma undoes_rollback (h : s.Undoes tx G) {tx' : TxId} (hne : tx' ≠ tx)
    (hempty : ∀ t, s.txManager.transactions.lookup tx' = some t → t.state = .active → t.undoLog = []) :
    (s.rollback E tx').1.Undoes tx G := by
  refine h.of_same (sameData_rollback hempty).graph ?_
  unfold rollback TransactionManager.rollbackBackend
  rcases s.txManager.getActive_cases tx' with ⟨e, hactive⟩ | ⟨t, -, -, hactive⟩
  · rw [hactive]
    rfl
  · rw [hactive]
    exact lookup_finish (Ne.symm hne) t .rolledBack

lemma undoes_handleAs (hE : Replicates E) (hs : s.Sound) (h : s.Undoes tx G) {r : Request} {d : Draw} {role : Role}
    (halone : s.AloneIn E tx (r, d)) (hlog : (s.handleAs E d role r).1.wal.length < 2 ^ 64) :
    (s.handleAs E d role r).1.Undoes tx G := by
  rcases r with ⟨username, password⟩ | ⟨query, txId, token⟩ | ⟨query, txId, chunkSize, token⟩ | - | - | - |
    ⟨readOnly, token⟩ | ⟨tx', token⟩ | ⟨tx', token⟩
  case query => exact undoes_handleQuery hE hs h halone hlog
  case streamQuery =>
    simp only [handleAs]
    split
    · exact h
    · refine h.of_same (sameData_executeStreamingQuery halone chunkSize).graph ?_
      rw [txManager_executeStreamingQuery]
  case beginTransaction =>
    simp only [handleAs]
    split
    · exact h
    · refine h.of_same rfl ?_
      have hne : tx ≠ s.txManager.nextTxId := Ne.symm halone
      simp only [TransactionManager.beginWithOptions, HashMap.lookup_insert_ite, if_neg hne]
  case commit =>
    simp only [handleAs, TransactionManager.commit]
    rcases s.txManager.getActive_cases tx' with ⟨e, hactive⟩ | ⟨t, -, -, hactive⟩
    · rw [hactive]
      exact h
    · rw [hactive]
      exact h.of_same rfl (lookup_finish (Ne.symm halone) t .committed)
  case rollback => exact undoes_rollback h halone.1 halone.2
  all_goals exact h

/-- Only the session token and the time decide what a session check says. -/
lemma AloneIn.of_session {r : Request × Draw} (h : s.AloneIn E tx r) (auth : AuthManager) :
    ({ s with auth := auth } : Server).AloneIn E tx r := by
  rcases r with ⟨r, d⟩
  rcases r with ⟨username, password⟩ | ⟨query, txId, token⟩ | ⟨query, txId, chunkSize, token⟩ | - | - | - |
    ⟨readOnly, token⟩ | ⟨tx', token⟩ | ⟨tx', token⟩
  case query => exact h.imp id fun hread => hread.of_astCache rfl
  case streamQuery => exact TakenForRead.of_astCache (s := s) h rfl
  all_goals exact h

/-- The invariant holds with other sessions. -/
lemma Sound.of_session (hs : s.Sound) (auth : AuthManager) : ({ s with auth := auth } : Server).Sound :=
  ⟨hs.intact, hs.atMost, hs.named, hs.cached⟩

/-- One request. -/
lemma undoes_step (hE : Replicates E) (hs : s.Sound) (h : s.Undoes tx G) {r : Request × Draw}
    (halone : s.AloneIn E tx r) (hlog : (s.step E r).wal.length < 2 ^ 64) : (s.step E r).Undoes tx G := by
  rcases r with ⟨r, d⟩
  rcases htoken : Request.sessionToken r with _ | token
  · -- no session needed: the transactions play no part
    rcases r with ⟨username, password⟩ | _ | _ | _ | _ | _ | _ | _ | _
    case login =>
      change (s.login E d username password).1.Undoes tx G
      unfold login
      split <;> exact h.of_same rfl rfl
    case ping | stats | disconnect => exact h
    all_goals cases htoken
  · obtain ⟨auth, ⟨message, hrefused⟩ | ⟨role, hhandled⟩⟩ := handleRequest_cases (E := E) s htoken d
    · rw [step, hrefused]
      exact h.of_same rfl rfl
    · rw [step, hhandled] at hlog ⊢
      have hsession : ({ s with auth := auth } : Server).Undoes tx G := h.of_same rfl rfl
      exact undoes_handleAs hE (hs.of_session auth) hsession (halone.of_session auth) hlog

/-- Any number of requests. -/
lemma undoes_run (hE : Replicates E) (hs : s.Sound) (h : s.Undoes tx G) {requests : List (Request × Draw)}
    (halone : Along (step E) (AloneIn E tx) s requests)
    (hlog : (requests.foldl (step E) s).wal.length < 2 ^ 64) : (requests.foldl (step E) s).Undoes tx G := by
  induction requests generalizing s with
  | nil => exact h
  | cons r requests ih =>
    have hstep := advances_step hE s r
    have hrest := advances_run hE (s.step E r) requests
    have hlt : (s.step E r).wal.length < 2 ^ 64 := hrest.log.length_le.trans_lt hlog
    exact ih (hstep.sound hlt hs) (undoes_step hE hs h halone.1 hlt) halone.2 hlog

/-- What the answer to the beginning of a transaction says about the state. -/
lemma step_of_begun {readOnly : Bool} {token : Option String} {d : Draw}
    (h : (s.handleRequest E d (.beginTransaction readOnly token)).2 = [.transactionBegun tx]) :
    (s.step E (.beginTransaction readOnly token, d)).graph = s.graph ∧
      (s.step E (.beginTransaction readOnly token, d)).txManager.ActiveWith tx [] := by
  obtain ⟨auth, ⟨message, hrefused⟩ | ⟨role, hhandled⟩⟩ :=
    handleRequest_cases (E := E) s (r := .beginTransaction readOnly token) rfl d
  · rw [hrefused] at h
    cases h
  · rw [hhandled] at h
    rw [step, hhandled]
    simp only [handleAs] at h ⊢
    split at h
    · cases h
    · rename_i hallowed
      rw [if_neg hallowed]
      obtain rfl : s.txManager.nextTxId = tx := by
        simpa [TransactionManager.beginWithOptions] using h
      exact ⟨rfl, _, AList.lookup_insert _, rfl, rfl⟩

/-- What the answer to a rollback says about the graph. -/
lemma step_of_rolledBack {token : Option String} {d : Draw}
    (h : (s.handleRequest E d (.rollback tx token)).2 = [.rolledBack tx]) {log : List UndoRecord}
    (htx : s.txManager.ActiveWith tx log) :
    (s.step E (.rollback tx token, d)).graph = replay UndoRecord.undo s.graph log := by
  obtain ⟨auth, ⟨message, hrefused⟩ | ⟨role, hhandled⟩⟩ :=
    handleRequest_cases (E := E) s (r := .rollback tx token) rfl d
  · rw [hrefused] at h
    cases h
  · rw [step, hhandled]
    obtain ⟨tm', touched, hback⟩ := TransactionManager.rollbackBackend_of_active htx
      (RecordingGraph.new E.J s.graph E.replication)
    simp only [handleAs, rollback, hback, Prod.map_fst, id]
    exact RecordingGraph.foldl_undo_graph _ _

end Server

/-- **Rolling a transaction back restores the graph**, through the whole server: whatever was run in the
transaction, also where it failed, as long as nothing else wrote meanwhile. -/
theorem server_rollback_restores {ε : Type} (E : ServerEnv ε) (hE : Server.Replicates E) {s₀ : Server}
    (hs₀ : s₀.Fresh) (before requests : List (Request × Draw)) {tx : TxId} {readOnly : Bool}
    {token token' : Option String} {d d' : Draw}
    (hbegun : ((before.foldl (Server.step E) s₀).handleRequest E d (.beginTransaction readOnly token)).2 =
      [.transactionBegun tx])
    (halone : Along (Server.step E) (Server.AloneIn E tx)
      ((before.foldl (Server.step E) s₀).step E (.beginTransaction readOnly token, d)) requests)
    (hback : ((requests.foldl (Server.step E)
      ((before.foldl (Server.step E) s₀).step E (.beginTransaction readOnly token, d))).handleRequest E d'
        (.rollback tx token')).2 = [.rolledBack tx])
    (hlog : (requests.foldl (Server.step E)
      ((before.foldl (Server.step E) s₀).step E (.beginTransaction readOnly token, d))).wal.length < 2 ^ 64) :
    ((requests.foldl (Server.step E)
      ((before.foldl (Server.step E) s₀).step E (.beginTransaction readOnly token, d))).step E
        (.rollback tx token', d')).graph.SameStore (before.foldl (Server.step E) s₀).graph := by
  have hbefore := Server.advances_run hE s₀ before
  generalize before.foldl (Server.step E) s₀ = s at hbegun halone hback hlog hbefore ⊢
  have hbegin := Server.advances_step hE s (.beginTransaction readOnly token, d)
  obtain ⟨hgraph, hactive⟩ := Server.step_of_begun hbegun
  generalize s.step E (.beginTransaction readOnly token, d) = s₁ at halone hback hlog hbegin hgraph hactive ⊢
  have hrun := Server.advances_run hE s₁ requests
  have hlog₁ : s₁.wal.length < 2 ^ 64 := hrun.log.length_le.trans_lt hlog
  have hs : s.Sound := hbefore.sound (hbegin.log.length_le.trans_lt hlog₁) hs₀.sound
  have hs₁ : s₁.Sound := hbegin.sound hlog₁ hs
  have hundoes : s₁.Undoes tx s.graph.content := ⟨[], hactive, hgraph ▸ inverts_nil _⟩
  obtain ⟨log, hactive', hinverts⟩ := Server.undoes_run hE hs₁ hundoes halone hlog
  obtain ⟨hconsistent, hcontent⟩ := hinverts _ (hrun.sound hlog hs₁).intact.consistent rfl
  rw [Server.step_of_rolledBack hback hactive']
  exact hconsistent.sameStore hs.intact.consistent hcontent

/-- Two nodes are created in a transaction, and it is rolled back. -/
theorem server_rollback_restores_sample :
    let s := [(Request.query "CREATE (n:Person)" none none, sampleDraw "")].foldl (Server.step replicatingEnv) .new
    let s₁ := s.step replicatingEnv (.beginTransaction false none, sampleDraw "")
    let s₂ := [(Request.query "CREATE (n:Person)" (some 1) none, sampleDraw ""),
      (.query "MATCH (n) RETURN n" none none, sampleDraw ""),
      (.query "CREATE (n:Person)" (some 1) none, sampleDraw "")].foldl (Server.step replicatingEnv) s₁
    s₂.wal.length = 3 ∧ (s₂.step replicatingEnv (.rollback 1 none, sampleDraw "")).graph.SameStore s.graph := by
  intro s s₁ s₂
  have hlength : s₂.wal.length = 3 := by decide +kernel
  refine ⟨hlength, server_rollback_restores replicatingEnv replicates_replicatingEnv fresh_new _ _ ?_ ?_ ?_ ?_⟩
  · rfl
  · refine ⟨.inl rfl, .inr ?_, .inl rfl, trivial⟩
    intro stmt hstmt
    obtain rfl : stmt = matchAll := (Except.ok.inj hstmt).symm
    rfl
  · rfl
  · exact hlength ▸ (by decide)

end Maharit
