import MaharitDb.Lib.GuardedRun
import MaharitDb.Server.TcpServer

/-!
# Read-only transactions and read-only users

A transaction can be begun read-only, and a user can have the read-only role.  The server refuses
neither a statement that writes in a read-only transaction nor the rollback of a transaction of someone
else; and it checks the role on one parse of a query and executes another, the one of the shared cache.
The data stays as it is along the runs that do without these.
-/

namespace Maharit

open GuardedRun

namespace Server

variable {ε : Type} (E : ServerEnv ε)

/-- The server after a request. -/
def step (s : Server) (r : Request × Draw) : Server := (s.handleRequest E r.2 r.1).1

/-- The same graph, schema, indexes and users. -/
structure SameData (s s' : Server) : Prop where
  graph : s'.graph = s.graph
  managers : s'.managers = s.managers
  users : s'.auth.users = s.auth.users

variable {E} {s s' s'' : Server}

@[refl] lemma SameData.refl (s : Server) : SameData s s := ⟨rfl, rfl, rfl⟩

lemma SameData.trans (h : SameData s s') (h' : SameData s' s'') : SameData s s'' :=
  ⟨h'.graph.trans h.graph, h'.managers.trans h.managers, h'.users.trans h.users⟩

/-! ## Parsing -/

lemma sameData_getOrParse (s : Server) (query : String) : SameData s (s.getOrParse E query).1 :=
  ⟨rfl, rfl, rfl⟩

@[simp] lemma txManager_getOrParse (s : Server) (query : String) :
    (s.getOrParse E query).1.txManager = s.txManager := rfl

/-- A query is taken for the same statement when it is looked up again. -/
lemma getOrParse_again (s : Server) (query : String) :
    ((s.getOrParse E query).1.getOrParse E query).2 = (s.getOrParse E query).2 := by
  cases hcached : s.astCache.statement? (normalizeQuery query) with
  | some stmt =>
    obtain ⟨hresult, hkept⟩ := @AstCache.getOrParse_of_hit _ E.parse _ _ _ hcached
    have hagain := hkept (normalizeQuery query)
    rw [hcached] at hagain
    exact (@AstCache.getOrParse_of_hit _ E.parse _ _ _ hagain).1.trans hresult.symm
  | none =>
    obtain ⟨hresult, hnew⟩ := @AstCache.getOrParse_of_miss _ E.parse _ _ hcached
    refine Eq.trans ?_ hresult.symm
    cases hagain : (s.astCache.getOrParse E.parse query).1.statement? (normalizeQuery query) with
    | none => exact (@AstCache.getOrParse_of_miss _ E.parse _ _ hagain).1
    | some stmt =>
      refine (@AstCache.getOrParse_of_hit _ E.parse _ _ _ hagain).1.trans ?_
      rcases hnew _ _ hagain with hold | ⟨-, hparse⟩
      · rw [hcached] at hold
        cases hold
      · exact hparse.symm

/-! ## Statements that only read -/

/-- What the server takes a query for only reads. -/
def TakenForRead (E : ServerEnv ε) (s : Server) (query : String) : Prop :=
  ∀ stmt, (s.getOrParse E query).2 = .ok stmt → isReadOnly stmt = true

lemma TakenForRead.again {query : String} (h : s.TakenForRead E query) :
    (s.getOrParse E query).1.TakenForRead E query := by
  intro stmt hstmt
  rw [getOrParse_again] at hstmt
  exact h stmt hstmt

/-- A statement that only reads leaves graph and managers. -/
lemma run_of_readOnly {stmt : Statement} (h : isReadOnly stmt = true) (m : SharedManagers)
    (g : ConcurrentGraph) (captureUndo : Bool) :
    (m.run E g stmt (!isReadOnly stmt) captureUndo).graph = g ∧
      (m.run E g stmt (!isReadOnly stmt) captureUndo).managers = m := by
  obtain ⟨hints, hsame⟩ := within_execute (A := E.analysis) (M := E.reads) (P := E.planner) h
    ⟨g, m.constraints, m.fulltext, m.propertyIndex, [], ∅⟩
  simp only [SharedManagers.run, h, Bool.not_true, Bool.false_eq_true, if_false]
  rw [hsame]
  exact ⟨rfl, trivial⟩

lemma sameData_executeQuery {query : String} (h : s.TakenForRead E query) :
    SameData s (s.executeQuery E query).1 := by
  unfold executeQuery
  rcases hparse : s.getOrParse E query with ⟨s', e | stmt⟩
  · have hs' := sameData_getOrParse (E := E) s query
    rw [hparse] at hs'
    exact hs'
  · have hs' := sameData_getOrParse (E := E) s query
    rw [hparse] at hs'
    have hread := h stmt (by rw [hparse])
    obtain ⟨hgraph, hmanagers⟩ := run_of_readOnly (E := E) hread s'.managers s'.graph false
    exact hs'.trans ⟨hgraph, hmanagers, rfl⟩

lemma sameData_executeStreamingQuery {query : String} (h : s.TakenForRead E query) (chunkSize : ℕ) :
    SameData s (s.executeStreamingQuery E query chunkSize).1 := by
  unfold executeStreamingQuery
  rcases hparse : s.getOrParse E query with ⟨s', e | stmt⟩
  · have hs' := sameData_getOrParse (E := E) s query
    rw [hparse] at hs'
    exact hs'
  · have hs' := sameData_getOrParse (E := E) s query
    rw [hparse] at hs'
    have hread := h stmt (by rw [hparse])
    obtain ⟨hgraph, hmanagers⟩ := run_of_readOnly (E := E) hread s'.managers s'.graph false
    simp only
    split
    · exact hs'.trans ⟨hgraph, hmanagers, rfl⟩
    · exact hs'.trans ⟨hgraph, hmanagers, rfl⟩

lemma sameData_executeQueryWithTx {query : String} (h : s.TakenForRead E query) (tx : TxId) :
    SameData s (s.executeQueryWithTx E query tx).1 := by
  have hs' := sameData_getOrParse (E := E) s query
  have hagain := h.again
  unfold executeQueryWithTx
  rcases hparse : s.getOrParse E query with ⟨s', e | stmt⟩
  · rw [hparse] at hs'
    exact hs'
  · rw [hparse] at hs' hagain
    have hread := h stmt (by rw [hparse])
    simp only [hread, if_true]
    exact hs'.trans (sameData_executeQuery hagain)

/-! ## Users -/

/-- A statement on users changes nothing but the users and their sessions. -/
lemma manageUsers_fst {d : Draw} {stmt : Statement} {response : Response}
    (h : s.manageUsers E d stmt = some (s', response)) : ∃ auth, s' = { s with auth := auth } := by
  have hchange : ∀ {r : AuthManager × Except AuthError Unit} {message : String},
      (userChange E s r message).1 = { s with auth := r.1 } := by
    intro r message
    rcases r with ⟨auth, e | ⟨⟩⟩ <;> rfl
  cases stmt with
  | createUser cu =>
    simp only [manageUsers] at h
    split at h
    · obtain ⟨rfl, -⟩ := Prod.mk.inj (Option.some.inj h)
      exact ⟨_, hchange⟩
    · obtain ⟨rfl, -⟩ := Prod.mk.inj (Option.some.inj h)
      exact ⟨s.auth, rfl⟩
  | dropUser username =>
    obtain ⟨rfl, -⟩ := Prod.mk.inj (Option.some.inj h)
    exact ⟨_, hchange⟩
  | alterUser au =>
    obtain ⟨rfl, -⟩ := Prod.mk.inj (Option.some.inj h)
    split
    · split
      · exact ⟨_, hchange⟩
      · exact ⟨_, rfl⟩
    · exact ⟨_, hchange⟩
  | showUsers =>
    obtain ⟨rfl, -⟩ := Prod.mk.inj (Option.some.inj h)
    exact ⟨s.auth, rfl⟩
  | _ => cases h

/-- Handling the statements on users leaves all but the cache and the users. -/
lemma tryHandleUserManagement_fst (s : Server) (d : Draw) (role : Role) (query : String) :
    ∃ auth, (s.tryHandleUserManagement E d role query).1 =
        { (s.getOrParse E query).1 with auth := auth } ∧
      (E.requireAuth = true → role = .readOnly → auth = s.auth) := by
  unfold tryHandleUserManagement
  rcases hparse : s.getOrParse E query with ⟨s', e | stmt⟩
  · refine ⟨s.auth, ?_, fun _ _ => rfl⟩
    have hs' : s' = (s.getOrParse E query).1 := by rw [hparse]
    simp only [hs']
    rfl
  · have hs' : s' = (s.getOrParse E query).1 := by rw [hparse]
    have hkept : s' = { s' with auth := s.auth } := by
      rw [hs']
      rfl
    simp only
    rcases hmanage : s'.manageUsers E d stmt with _ | ⟨s'', response⟩
    · exact ⟨s.auth, hkept, fun _ _ => rfl⟩
    · simp only
      split
      · exact ⟨s.auth, hkept, fun _ _ => rfl⟩
      · next hallowed =>
        obtain ⟨auth, rfl⟩ := manageUsers_fst hmanage
        refine ⟨auth, rfl, fun hauth hrole => absurd ⟨hauth, ?_⟩ hallowed⟩
        rw [hrole]
        rfl

/-- A session check leaves all but the sessions. -/
lemma checkSession_fst (s : Server) (d : Draw) (token : Option String) :
    ∃ auth, (s.checkSession E d token).1 = { s with auth := auth } ∧ auth.users = s.auth.users := by
  have husers : (s.auth.checkSession E.requireAuth token d.now).1.users = s.auth.users := by
    unfold AuthManager.checkSession
    split
    · rfl
    · cases token with
      | none => rfl
      | some t =>
        simp only
        split
        · rfl
        · rcases hvalid : s.auth.validateSession t d.now with ⟨m, e | session⟩ <;>
          · simp only
            unfold AuthManager.validateSession at hvalid
            split at hvalid
            · exact (Prod.mk.inj hvalid).1 ▸ rfl
            · split at hvalid <;> exact (Prod.mk.inj hvalid).1 ▸ rfl
  unfold checkSession
  rcases hcheck : s.auth.checkSession E.requireAuth token d.now with ⟨auth, (_ | e) | role⟩ <;>
  · rw [hcheck] at husers
    exact ⟨auth, rfl, husers⟩

/-- Only the cache decides what a query is taken for. -/
lemma TakenForRead.of_astCache {query : String} (h : s.TakenForRead E query)
    (hcache : s'.astCache = s.astCache) : s'.TakenForRead E query := by
  intro stmt hstmt
  refine h stmt ?_
  unfold getOrParse at hstmt ⊢
  rw [← hcache]
  exact hstmt

/-- A query that is taken for one that only reads leaves graph and managers; it leaves the users if it
is not handled as a statement on users. -/
lemma handleQuery_of_takenForRead {query : String} (h : s.TakenForRead E query) (d : Draw) (role : Role)
    (txId : Option TxId) :
    (s.handleQuery E d role query txId).1.graph = s.graph ∧
      (s.handleQuery E d role query txId).1.managers = s.managers ∧
      (E.requireAuth = true → role = .readOnly →
        (s.handleQuery E d role query txId).1.auth.users = s.auth.users) := by
  obtain ⟨auth, hfst, husers⟩ := tryHandleUserManagement_fst (E := E) s d role query
  have hread : (s.tryHandleUserManagement E d role query).1.TakenForRead E query := by
    rw [hfst]
    exact h.again.of_astCache rfl
  unfold handleQuery
  rcases hhandle : s.tryHandleUserManagement E d role query with ⟨s', response⟩
  rw [hhandle] at hfst hread
  simp only at hfst
  have hkept : ∀ {s'' : Server}, SameData s' s'' → s''.graph = s.graph ∧ s''.managers = s.managers ∧
      (E.requireAuth = true → role = .readOnly → s''.auth.users = s.auth.users) := by
    intro s'' hsame
    refine ⟨hsame.graph.trans (hfst ▸ rfl), hsame.managers.trans (hfst ▸ rfl), fun hauth hrole => ?_⟩
    rw [hsame.users, hfst, ← husers hauth hrole]
  cases response with
  | some response => exact hkept (.refl s')
  | none =>
    simp only
    split
    · exact hkept (.refl s')
    · cases txId with
      | some tx => exact hkept (sameData_executeQueryWithTx hread tx)
      | none => exact hkept (sameData_executeQuery hread)

/-! ## Read-only transactions -/

/-- The transaction was begun read-only. -/
def BegunReadOnly (s : Server) (tx : TxId) : Prop :=
  ∃ t, s.txManager.transactions.lookup tx = some t ∧ t.readOnly = true

/-- The statements that run in a read-only transaction leave the graph, and the schema and the
indexes. -/
def KeepsReadOnly (E : ServerEnv ε) (s : Server) (r : Request × Draw) : Prop :=
  ∀ query tx token, r.1 = .query query (some tx) token → s.BegunReadOnly tx →
    (s.step E r).graph = s.graph ∧ (s.step E r).managers = s.managers

/-- What is run in a read-only transaction only reads. -/
def ReadsInReadOnly (E : ServerEnv ε) (s : Server) (r : Request × Draw) : Prop :=
  ∀ query tx token, r.1 = .query query (some tx) token → s.BegunReadOnly tx → s.TakenForRead E query

lemma ReadsInReadOnly.keeps {r : Request × Draw} (h : s.ReadsInReadOnly E r) : s.KeepsReadOnly E r := by
  rcases r with ⟨_, d⟩
  rintro query tx token rfl htx
  have hread := h query tx token rfl htx
  obtain ⟨auth, hfst, -⟩ := checkSession_fst (E := E) s d token
  unfold step handleRequest
  simp only [Request.sessionToken, Option.join_some]
  rcases hcheck : s.checkSession E d token with ⟨s', response | role⟩
  · rw [hcheck] at hfst
    rw [show s' = _ from hfst]
    exact ⟨rfl, rfl⟩
  · rw [hcheck] at hfst
    obtain rfl : s' = _ := hfst
    have hread' : ({ s with auth := auth } : Server).TakenForRead E query := hread.of_astCache rfl
    obtain ⟨hgraph, hmanagers, -⟩ := handleQuery_of_takenForRead hread' d role (some tx)
    exact ⟨hgraph, hmanagers⟩

end Server

/-- **Read-only transactions stay read-only** as long as nothing else is run in them. -/
theorem readOnly_transaction_keeps {ε : Type} (E : ServerEnv ε) (s : Server)
    (requests : List (Request × Draw))
    (h : Along (Server.step E) (Server.ReadsInReadOnly E) s requests) :
    Along (Server.step E) (Server.KeepsReadOnly E) s requests :=
  h.mono fun _ _ hread => hread.keeps

/-! ### A sample -/

/-- The statement `MATCH (n) RETURN n`. -/
def matchAll : Statement := .match ⟨[matchNodes none], none, returnVariableClause "n"⟩

/-- The statement `CREATE (n:Person)`. -/
def createPerson : Statement := .create [.node ⟨some "n", ["Person"], []⟩]

/-- A server that parses two queries, and evaluates literals only. -/
def sampleEnv (requireAuth : Bool) : ServerEnv Unit where
  parse
    | "MATCH (n) RETURN n" => .ok matchAll
    | "CREATE (n:Person)" => .ok createPerson
    | _ => .error ()
  J := logJson ⟨fun _ => "0.0", fun _ => "0"⟩
  analysis := plainAnalysis
  planner := plainPlanner
  reads := plainSemantics
  writes :=
    { search := ⟨fun _ _ _ _ _ _ => .ok [], fun _ _ _ _ _ _ => .ok []⟩
      evaluate := fun _ => evaluateLiteral
      aggregated := fun _ _ _ => .error (.typeError "no aggregates")
      temporalField := fun _ _ => .ok .null
      smallest := fun _ n pairs => pairs.take n
      texts := plainSemantics.texts }
  hash := (· ++ ·)
  requireAuth := requireAuth
  replication := false
  parseErrorText _ := "parse error"
  executeErrorText _ := "error"
  authErrorText _ := "error"
  transactionErrorText _ := "error"

/-- A server without data. -/
def Server.new : Server :=
  ⟨.new, ⟨.new, .new, .new⟩, .new, .withAdminPassword (· ++ ·) "secret" "salt" 0, .new 512, [], 0⟩

/-- What the sample requests draw. -/
def sampleDraw (token : String) : Draw := ⟨0, 0, "salt", token⟩

theorem readOnly_transaction_keeps_sample :
    Along (Server.step (sampleEnv false)) (Server.KeepsReadOnly (sampleEnv false)) .new
      [(.query "CREATE (n:Person)" none none, sampleDraw ""), (.beginTransaction true none, sampleDraw ""),
        (.query "MATCH (n) RETURN n" (some 1) none, sampleDraw "")] := by
  refine readOnly_transaction_keeps _ _ _ ⟨?_, ?_, ?_, trivial⟩
  · rintro query tx token ⟨⟩
  · rintro query tx token ⟨⟩
  · rintro query tx token ⟨⟩ - stmt hstmt
    have hmatch : stmt = matchAll := (Except.ok.inj hstmt).symm
    subst hmatch
    rfl

/-- A node is created in a read-only transaction. -/
theorem readOnly_transaction_creates :
    let s := Server.step (sampleEnv false) .new (.beginTransaction true none, sampleDraw "")
    let r := (Request.query "CREATE (n:Person)" (some 1) none, sampleDraw "")
    s.BegunReadOnly 1 ∧ 0 ∉ s.graph.nodes ∧ 0 ∈ (s.step (sampleEnv false) r).graph.nodes ∧
      ¬ s.KeepsReadOnly (sampleEnv false) r := by
  intro s r
  have hbegun : s.BegunReadOnly 1 := ⟨⟨1, .active, true, [], ∅⟩, rfl, rfl⟩
  have hbefore : 0 ∉ s.graph.nodes := by decide +kernel
  have hafter : 0 ∈ (s.step (sampleEnv false) r).graph.nodes := by decide +kernel
  refine ⟨hbegun, hbefore, hafter, fun hkeeps => ?_⟩
  rw [(hkeeps _ 1 none rfl hbegun).1] at hafter
  exact hbefore hafter

/-! ## Read-only users -/

namespace Server

variable {ε : Type} {E : ServerEnv ε} {s s' : Server}

/-- The role of the user who sends a request. -/
def senderRole (E : ServerEnv ε) (s : Server) (r : Request × Draw) : Option Role :=
  (Request.sessionToken r.1).bind fun token => (s.checkSession E r.2 token).2.toOption

/-- A request of a read-only user leaves the graph, the schema, the indexes and the users. -/
def KeepsForReader (E : ServerEnv ε) (s : Server) (r : Request × Draw) : Prop :=
  s.senderRole E r = some .readOnly → SameData s (s.step E r)

/-- The requests of read-only users that are harmless: the cache holds what the query parses to, if it
holds anything for it, and no transaction is rolled back that has changed something. -/
def HarmlessForReader (E : ServerEnv ε) (s : Server) (r : Request × Draw) : Prop :=
  s.senderRole E r = some .readOnly →
    match r.1 with
    | .query query _ _ | .streamQuery query _ _ _ => ∀ stmt,
        s.astCache.statement? (normalizeQuery query) = some stmt → E.parse query = .ok stmt
    | .rollback tx _ => ∀ t, s.txManager.transactions.lookup tx = some t → t.state = .active →
        t.undoLog = []
    | _ => True

lemma requireAuth_of_readOnly {d : Draw} {token : Option String}
    (h : (s.checkSession E d token).2 = .ok .readOnly) : E.requireAuth = true := by
  by_contra hauth
  have hadmin : s.auth.checkSession E.requireAuth token d.now = (s.auth, .ok .admin) := by
    simp [AuthManager.checkSession, Bool.not_eq_true _ ▸ hauth]
  rw [checkSession, hadmin] at h
  cases h

/-- A query that is what the cache takes it for, and that a read-only user may run. -/
lemma takenForRead_of_authorized {query : String}
    (hcache : ∀ stmt, s.astCache.statement? (normalizeQuery query) = some stmt → E.parse query = .ok stmt)
    (hallowed : authorizeQuery E .readOnly query = none) : s.TakenForRead E query := by
  have htaken : (s.getOrParse E query).2 = E.parse query := by
    cases hcached : s.astCache.statement? (normalizeQuery query) with
    | some stmt =>
      rw [hcache stmt hcached]
      exact (AstCache.getOrParse_of_hit hcached).1
    | none => exact (AstCache.getOrParse_of_miss hcached).1
  intro stmt hstmt
  rw [htaken] at hstmt
  by_contra hwrite
  rw [Bool.not_eq_true] at hwrite
  simp [authorizeQuery, hstmt, hwrite, AuthManager.checkRolePermission] at hallowed

/-- A query of a read-only user. -/
lemma sameData_handleQuery {query : String} {d : Draw} {txId : Option TxId} (hauth : E.requireAuth = true)
    (hcache : ∀ stmt, s.astCache.statement? (normalizeQuery query) = some stmt → E.parse query = .ok stmt) :
    SameData s (s.handleQuery E d .readOnly query txId).1 := by
  by_cases hallowed : authorizeQuery E .readOnly query = none
  · obtain ⟨hgraph, hmanagers, husers⟩ := handleQuery_of_takenForRead
      (takenForRead_of_authorized hcache hallowed) d .readOnly txId
    exact ⟨hgraph, hmanagers, husers hauth rfl⟩
  · -- the query is refused, if not before as one on users
    obtain ⟨response, hresponse⟩ := Option.ne_none_iff_exists'.mp hallowed
    obtain ⟨auth, hfst, husers⟩ := tryHandleUserManagement_fst (E := E) s d .readOnly query
    unfold handleQuery
    rcases hhandle : s.tryHandleUserManagement E d .readOnly query with ⟨s', refused⟩
    rw [hhandle] at hfst
    have hsame : SameData s s' := by
      rw [show s' = _ from hfst, husers hauth rfl]
      exact ⟨rfl, rfl, rfl⟩
    cases refused with
    | some response => exact hsame
    | none =>
      simp only [hresponse]
      exact hsame

lemma sameData_rollback {tx : TxId}
    (hempty : ∀ t, s.txManager.transactions.lookup tx = some t → t.state = .active → t.undoLog = []) :
    SameData s (s.rollback E tx).1 := by
  unfold rollback TransactionManager.rollbackBackend
  rcases s.txManager.getActive_cases tx with ⟨e, hactive⟩ | ⟨t, htx, hstate, hactive⟩
  · rw [hactive]
    exact .refl s
  · rw [hactive]
    simp only [bind, Except.bind, pure, Except.pure, hempty t htx hstate]
    refine ⟨rfl, ?_, rfl⟩
    simp

/-- What the server does for a read-only user. -/
lemma sameData_handleAs {r : Request} {d : Draw} (hauth : E.requireAuth = true)
    (hharmless : match r with
      | .query query _ _ | .streamQuery query _ _ _ => ∀ stmt,
          s.astCache.statement? (normalizeQuery query) = some stmt → E.parse query = .ok stmt
      | .rollback tx _ => ∀ t, s.txManager.transactions.lookup tx = some t → t.state = .active →
          t.undoLog = []
      | _ => True) :
    SameData s (s.handleAs E d .readOnly r).1 := by
  cases r with
  | query query txId token => exact sameData_handleQuery hauth hharmless
  | streamQuery query txId chunkSize token =>
    simp only [handleAs]
    cases hallowed : authorizeQuery E .readOnly query with
    | some response => exact .refl s
    | none =>
      exact sameData_executeStreamingQuery (takenForRead_of_authorized hharmless hallowed) chunkSize
  | beginTransaction readOnly token =>
    simp only [handleAs]
    split
    · exact .refl s
    · exact ⟨rfl, rfl, rfl⟩
  | commit tx token =>
    simp only [handleAs]
    split
    · exact ⟨rfl, rfl, rfl⟩
    · exact .refl s
  | rollback tx token => exact sameData_rollback hharmless
  | _ => exact .refl s

lemma HarmlessForReader.keeps {r : Request × Draw} (h : s.HarmlessForReader E r) :
    s.KeepsForReader E r := by
  intro hrole
  have hharmless := h hrole
  rcases r with ⟨r, d⟩
  obtain ⟨token, htoken, hsession⟩ := Option.bind_eq_some_iff.mp hrole
  obtain ⟨auth, hfst, husers⟩ := checkSession_fst (E := E) s d token
  have hok : (s.checkSession E d token).2 = .ok .readOnly := by
    cases hresult : (s.checkSession E d token).2 with
    | error response =>
      rw [hresult] at hsession
      cases hsession
    | ok role =>
      rw [hresult] at hsession
      rw [Option.some.inj hsession]
  have hcheck : s.checkSession E d token = ({ s with auth := auth }, .ok .readOnly) :=
    Prod.ext hfst hok
  have hsame : SameData s { s with auth := auth } := ⟨rfl, rfl, husers⟩
  have hhandle : SameData s (({ s with auth := auth } : Server).handleAs E d .readOnly r).1 := by
    refine hsame.trans (sameData_handleAs (requireAuth_of_readOnly hok) ?_)
    cases r <;> exact hharmless
  unfold step handleRequest
  cases r with
  | login | ping | stats | disconnect => cases htoken
  | query | streamQuery | beginTransaction | commit | rollback =>
    obtain rfl := Option.some.inj htoken
    simp only [Request.sessionToken, Option.join_some, hcheck]
    exact hhandle

end Server

/-- **A read-only user changes no data** as long as the cache is transparent for the queries of
read-only users and they roll back nothing. -/
theorem readOnly_user_keeps {ε : Type} (E : ServerEnv ε) (s : Server) (requests : List (Request × Draw))
    (h : Along (Server.step E) (Server.HarmlessForReader E) s requests) :
    Along (Server.step E) (Server.KeepsForReader E) s requests :=
  h.mono fun _ _ hharmless => hharmless.keeps

/-- An administrator creates a reader, and both log in. -/
def readerLogin : List (Request × Draw) :=
  [(.login "admin" "secret", sampleDraw "a"), (.query "CREATE USER r" none (some "a"), sampleDraw ""),
    (.login "r" "pw", sampleDraw "r")]

/-- The sample server with users; it parses a statement on users, and a statement behind a comment. -/
def readerEnv : ServerEnv Unit :=
  { sampleEnv true with
    parse := fun
      | "CREATE USER r" => .ok (.createUser ⟨"r", "pw", "reader"⟩)
      | "//\nCREATE (n:Person)" => .ok createPerson
      | query => (sampleEnv true).parse query }

/-- The server after the logins and further requests. -/
def readerServer (requests : List (Request × Draw)) : Server :=
  (readerLogin ++ requests).foldl (Server.step readerEnv) .new

theorem readOnly_user_keeps_sample :
    Along (Server.step readerEnv) (Server.KeepsForReader readerEnv)
      (readerServer [(.beginTransaction false (some "a"), sampleDraw "")])
      [(.query "MATCH (n) RETURN n" (some 1) (some "r"), sampleDraw ""),
        (.query "CREATE (n:Person)" (some 1) (some "r"), sampleDraw ""),
        (.query "CREATE (n:Person)" (some 1) (some "a"), sampleDraw "")] := by
  have huncached : ∀ {c : AstCache} {key : String} {stmt : Statement}, (c.statement? key).isNone = true →
      c.statement? key ≠ some stmt := by
    intro c key stmt hnone hsome
    rw [hsome] at hnone
    cases hnone
  refine readOnly_user_keeps _ _ _ ⟨?_, ?_, ?_, trivial⟩
  · rintro - stmt hstmt
    exact absurd hstmt (huncached (by decide +kernel))
  · rintro - stmt hstmt
    exact absurd hstmt (huncached (by decide +kernel))
  · intro hrole
    exact absurd hrole (by decide +kernel)

/-- A reader rolls back a transaction of the administrator, and the node created in it is gone; a text of
a reader that does not parse is taken for a statement of the administrator, and a node is created. -/
theorem readOnly_user_changes :
    let s := readerServer [(.beginTransaction false (some "a"), sampleDraw ""),
      (.query "CREATE (n:Person)" (some 1) (some "a"), sampleDraw "")]
    let r := (Request.rollback 1 (some "r"), sampleDraw "")
    let s' := readerServer [(.query "//\nCREATE (n:Person)" none (some "a"), sampleDraw "")]
    let r' := (Request.query "// CREATE (n:Person)" none (some "r"), sampleDraw "")
    (s.senderRole readerEnv r = some .readOnly ∧ 0 ∈ s.graph.nodes ∧ 0 ∉ (s.step readerEnv r).graph.nodes ∧
      ¬ s.KeepsForReader readerEnv r) ∧
    s'.senderRole readerEnv r' = some .readOnly ∧ 1 ∉ s'.graph.nodes ∧
      1 ∈ (s'.step readerEnv r').graph.nodes ∧ ¬ s'.KeepsForReader readerEnv r' := by
  intro s r s' r'
  have hrole : s.senderRole readerEnv r = some .readOnly := by decide +kernel
  have hbefore : 0 ∈ s.graph.nodes := by decide +kernel
  have hafter : 0 ∉ (s.step readerEnv r).graph.nodes := by decide +kernel
  have hrole' : s'.senderRole readerEnv r' = some .readOnly := by decide +kernel
  have hbefore' : 1 ∉ s'.graph.nodes := by decide +kernel
  have hafter' : 1 ∈ (s'.step readerEnv r').graph.nodes := by decide +kernel
  refine ⟨⟨hrole, hbefore, hafter, fun hkeeps => ?_⟩, hrole', hbefore', hafter', fun hkeeps => ?_⟩
  · rw [(hkeeps hrole).graph] at hafter
    exact hafter hbefore
  · rw [(hkeeps hrole').graph] at hafter'
    exact hbefore' hafter'

end Maharit
