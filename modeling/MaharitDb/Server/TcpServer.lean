import MaharitDb.Query.AstCache
import MaharitDb.Query.Statement
import MaharitDb.Server.Auth
import MaharitDb.Server.MutationLog
import MaharitDb.Storage.Transaction

/-!
# The server

How the server handles a request (`maharit-server/src/tcp_server.rs`).  Requests are handled one at a
time; statements that write are serialised by the server's write gate, and statements that only read
change nothing.  The parser is a parameter, and so are the texts of its errors and of those of the
executor, the users and the transactions.  Connection counts, framing and JSON are left out.
-/

namespace Maharit

/-- The schema and the indexes that all queries share. -/
structure SharedManagers where
  constraints : ConstraintManager
  fulltext : FulltextManager
  propertyIndex : PropertyIndex

/-- What the server runs on. -/
structure ServerEnv (ε : Type) where
  /-- `Parser::new(query)?.parse()`. -/
  parse : String → Except ε Statement
  J : JsonText
  analysis : TextAnalysis
  planner : Planner
  /-- The semantics of statements that only read. -/
  reads : Semantics ConcurrentGraph
  /-- The semantics of statements that write, over a recorder. -/
  writes : Semantics (RecordingGraph J)
  hash : PasswordHash
  requireAuth : Bool
  /-- The server replicates to followers. -/
  replication : Bool
  parseErrorText : ε → String
  executeErrorText : ExecuteError → String
  authErrorText : AuthError → String
  transactionErrorText : TransactionError → String

/-- The state of the server. -/
structure Server where
  graph : ConcurrentGraph
  managers : SharedManagers
  txManager : TransactionManager
  auth : AuthManager
  astCache : AstCache
  /-- The entries that were appended to the replication log. -/
  wal : List WalEntryData
  nextStreamId : UInt64

/-- What a request draws from outside. -/
structure Draw where
  /-- A reading of the monotonic clock. -/
  now : ℕ
  /-- Unix time in seconds. -/
  unixTime : UInt64
  salt : String
  token : String

inductive Request where
  | login (username password : String)
  | query (query : String) (txId : Option TxId) (sessionToken : Option String)
  | streamQuery (query : String) (txId : Option TxId) (chunkSize : ℕ) (sessionToken : Option String)
  | ping
  | stats
  | disconnect
  | beginTransaction (readOnly : Bool) (sessionToken : Option String)
  | commit (txId : TxId) (sessionToken : Option String)
  | rollback (txId : TxId) (sessionToken : Option String)

inductive Response where
  | result (rows : List (HashMap String Value))
  | error (message : String)
  | pong
  | stats (nodes edges : ℕ)
  | goodbye
  | transactionBegun (txId : TxId)
  | committed (txId : TxId)
  | rolledBack (txId : TxId)
  | streamStart (streamId : UInt64) (totalRows : ℕ)
  | streamChunk (streamId : UInt64) (chunkIndex : ℕ) (rows : List (HashMap String Value))
  | streamEnd (streamId : UInt64) (totalRows : ℕ)
  | loggedIn (sessionToken role : String) (expiresAt : UInt64)
  | authError (message : String)

def roleLabel : Role → String
  | .admin => "admin"
  | .readWrite => "read_write"
  | .readOnly => "read_only"

/-- `parse_role_str`. -/
def parseRoleStr (s : String) : Option Role :=
  match s.map Char.toLower with
  | "reader" | "read_only" | "readonly" => some .readOnly
  | "writer" | "read_write" | "readwrite" => some .readWrite
  | "admin" => some .admin
  | _ => none

/-- The rows of a result, by column. -/
def resultRows (rs : ResultSet) : List (HashMap String Value) :=
  rs.rows.map fun row => (rs.columns.zip row).foldl (fun m p => m.insert p.1 p.2) ∅

/-- `result_message`. -/
def resultMessage (message : String) : Response :=
  .result [(∅ : HashMap String Value).insert "result" (.string message)]

/-! ## Statements -/

/-- What a statement leaves. -/
structure Outcome where
  graph : ConcurrentGraph
  managers : SharedManagers
  result : Except ExecuteError ResultSet
  wal : List WalEntryData
  undo : List UndoRecord

variable {ε : Type} (E : ServerEnv ε)

/-- `SharedManagers::run`.  A statement that writes is executed on a recorder. -/
def SharedManagers.run (m : SharedManagers) (g : ConcurrentGraph) (stmt : Statement)
    (isWrite captureUndo : Bool) : Outcome :=
  if isWrite then
    let recorder := RecordingGraph.new E.J g E.replication
    let recorder := if captureUndo then recorder.withUndo else recorder
    let x := execute E.analysis E.writes E.planner stmt
      ⟨recorder, m.constraints, m.fulltext, m.propertyIndex, [], ∅⟩
    ⟨x.1.graph.graph, ⟨x.1.constraints, x.1.fulltext, x.1.propertyIndex⟩, x.2, x.1.graph.intoParts.1,
      x.1.graph.intoParts.2⟩
  else
    let x := execute E.analysis E.reads E.planner stmt
      ⟨g, m.constraints, m.fulltext, m.propertyIndex, [], ∅⟩
    ⟨x.1.graph, m, x.2, [], []⟩

/-- Bring the indexes of a node back in line with the graph. -/
def SharedManagers.reindex (g : ConcurrentGraph) (m : SharedManagers) (id : NodeId) : SharedManagers :=
  let m := { m with propertyIndex := m.propertyIndex.removeNode id, fulltext := m.fulltext.removeNode id }
  match g.nodes.lookup id with
  | none => m
  | some node =>
      let label := node.primaryLabel
      { m with
        propertyIndex := node.properties.entries.foldl (fun pi p =>
          if pi.hasIndex label p.1 then pi.indexProperty id p.1 p.2 else pi) m.propertyIndex
        fulltext := m.fulltext.indexNode E.analysis id label node.properties }

namespace Server

/-- The state after a statement. -/
def withOutcome (s : Server) (o : Outcome) : Server :=
  { s with graph := o.graph, managers := o.managers, wal := s.wal ++ o.wal }

/-- Parse through the shared cache. -/
def getOrParse (s : Server) (query : String) : Server × Except ε Statement :=
  let r := s.astCache.getOrParse E.parse query
  ({ s with astCache := r.1 }, r.2)

/-- The response to a statement. -/
def respond : Except ExecuteError ResultSet → Response
  | .ok rs => .result (resultRows rs)
  | .error e => .error ("Execution error: " ++ E.executeErrorText e)

/-- `execute_query`. -/
def executeQuery (s : Server) (query : String) : Server × Response :=
  match s.getOrParse E query with
  | (s, .error e) => (s, .error ("Parse error: " ++ E.parseErrorText e))
  | (s, .ok stmt) =>
      let o := s.managers.run E s.graph stmt (!isReadOnly stmt) false
      (s.withOutcome o, respond E o.result)

/-- `is_active`. -/
def isActive (tm : TransactionManager) (tx : TxId) : Bool :=
  match tm.getTransaction tx with
  | .ok t => t.state == .active
  | .error _ => false

/-- `execute_query_with_tx`.  The undo records are kept also when the statement failed. -/
def executeQueryWithTx (s : Server) (query : String) (tx : TxId) : Server × Response :=
  match s.getOrParse E query with
  | (s, .error e) => (s, .error ("Parse error: " ++ E.parseErrorText e))
  | (s, .ok stmt) =>
      if isReadOnly stmt then s.executeQuery E query
      else if !isActive s.txManager tx then
        (s, .error ("Execution error: transaction " ++ toString tx ++ " is not active"))
      else
        let o := s.managers.run E s.graph stmt true true
        let tm := match s.txManager.recordUndo tx o.undo with
          | .ok tm => tm
          | .error _ => s.txManager
        ({ s.withOutcome o with txManager := tm }, respond E o.result)

/-- `execute_streaming_query`: the transaction of the request plays no part. -/
def executeStreamingQuery (s : Server) (query : String) (chunkSize : ℕ) : Server × List Response :=
  match s.getOrParse E query with
  | (s, .error e) => (s, [.error ("Parse error: " ++ E.parseErrorText e)])
  | (s, .ok stmt) =>
      let o := s.managers.run E s.graph stmt (!isReadOnly stmt) false
      let s := s.withOutcome o
      match o.result with
      | .error e => (s, [.error ("Execution error: " ++ E.executeErrorText e)])
      | .ok rs =>
          let rows := resultRows rs
          let id := s.nextStreamId
          let chunks := rows.toChunks (if chunkSize = 0 then 100 else chunkSize)
          ({ s with nextStreamId := s.nextStreamId + 1 },
            .streamStart id rows.length :: chunks.zipIdx.map (fun c => .streamChunk id c.2 c.1) ++
              [.streamEnd id rows.length])

/-- `SharedManagers::rollback`. -/
def rollback (s : Server) (tx : TxId) : Server × Response :=
  match s.txManager.rollbackBackend tx (RecordingGraph.new E.J s.graph E.replication) with
  | .error e => (s, .error ("Rollback failed: " ++ E.transactionErrorText e))
  | .ok (tm, r, touched) =>
      ({ s with
          graph := r.graph, txManager := tm, wal := s.wal ++ r.wal
          managers := touched.foldl (SharedManagers.reindex E r.graph) s.managers }, .rolledBack tx)

/-! ## Users -/

/-- `authorize_query`: on a parse of its own.  What does not parse is not refused here. -/
def authorizeQuery (role : Role) (query : String) : Option Response :=
  match E.parse query with
  | .error _ => none
  | .ok stmt =>
      match AuthManager.checkRolePermission role (if isReadOnly stmt then .read else .write) with
      | .ok () => none
      | .error e => some (.authError ("permission denied: " ++ E.authErrorText e))

/-- A change of the users, with the response to it. -/
def userChange (s : Server) (r : AuthManager × Except AuthError Unit) (message : String) :
    Server × Response :=
  match r with
  | (auth, .ok ()) => ({ s with auth := auth }, resultMessage message)
  | (auth, .error e) => ({ s with auth := auth }, .error (E.authErrorText e))

/-- `ALTER USER`: first the password, then the role. -/
def alterUser (s : Server) (d : Draw) (au : AlterUserStatement) : Server × Response :=
  let r := match au.password with
    | some password => s.auth.alterUserPassword E.hash au.username password d.salt
    | none => (s.auth, .ok ())
  let message := "User '" ++ au.username ++ "' altered"
  match r, au.role with
  | (auth, .ok ()), some role =>
      match parseRoleStr role with
      | some role => userChange E s (auth.alterUserRole au.username role) message
      | none => ({ s with auth := auth }, .error ("unknown role: '" ++ role ++ "'"))
  | r, _ => userChange E s r message

/-- A user as `SHOW USERS` lists it. -/
def userRow (u : User) : HashMap String Value :=
  (((∅ : HashMap String Value).insert "username" (.string u.username)).insert "role"
    (.string (roleLabel u.role))).insert "active" (.bool u.active)

/-- The statements on users. -/
def manageUsers (s : Server) (d : Draw) : Statement → Option (Server × Response)
  | .createUser cu =>
      match parseRoleStr cu.role with
      | some role => userChange E s
          (s.auth.createUser E.hash cu.username cu.password role d.salt d.unixTime)
          ("User '" ++ cu.username ++ "' created with role '" ++ cu.role ++ "'")
      | none => some (s, .error ("unknown role: '" ++ cu.role ++ "'"))
  | .dropUser username =>
      userChange E s (s.auth.dropUser username) ("User '" ++ username ++ "' dropped")
  | .alterUser au => alterUser E s d au
  | .showUsers => some (s, .result (s.auth.users.entries.map fun e => userRow e.2))
  | _ => none

/-- `try_handle_user_management`. -/
def tryHandleUserManagement (s : Server) (d : Draw) (role : Role) (query : String) :
    Server × Option Response :=
  match s.getOrParse E query with
  | (s, .error _) => (s, none)
  | (s, .ok stmt) =>
      match s.manageUsers E d stmt with
      | none => (s, none)
      | some (s', response) =>
          if E.requireAuth ∧ (AuthManager.checkRolePermission role .manageUsers).toOption = none then
            (s, some (.authError "permission denied: user management requires admin role"))
          else (s', some response)

/-- `check_session`. -/
def checkSession (s : Server) (d : Draw) (token : Option String) : Server × Except Response Role :=
  match s.auth.checkSession E.requireAuth token d.now with
  | (auth, .ok role) => ({ s with auth := auth }, .ok role)
  | (auth, .error none) =>
      ({ s with auth := auth }, .error (.authError "authentication required: missing sessionToken"))
  | (auth, .error (some e)) =>
      ({ s with auth := auth }, .error (.authError ("invalid session: " ++ E.authErrorText e)))

/-! ## Requests -/

def login (s : Server) (d : Draw) (username password : String) : Server × Response :=
  match s.auth.authenticate E.hash username password d.token d.now with
  | (auth, .error e) => ({ s with auth := auth }, .authError (E.authErrorText e))
  | (auth, .ok token) =>
      let (auth, session) := auth.validateSession token d.now
      let role := match session with
        | .ok session => roleLabel session.role
        | .error _ => "unknown"
      ({ s with auth := auth }, .loggedIn token role (d.unixTime + 30 * 60))

/-- A query of a user with the given role. -/
def handleQuery (s : Server) (d : Draw) (role : Role) (query : String) (txId : Option TxId) :
    Server × Response :=
  match s.tryHandleUserManagement E d role query with
  | (s, some response) => (s, response)
  | (s, none) =>
      match authorizeQuery E role query with
      | some response => (s, response)
      | none =>
          match txId with
          | some tx => s.executeQueryWithTx E query tx
          | none => s.executeQuery E query

/-- What the server does for a user with the given role. -/
def handleAs (s : Server) (d : Draw) (role : Role) : Request → Server × List Response
  | .query query txId _ => (s.handleQuery E d role query txId).map id fun r => [r]
  | .streamQuery query _ chunkSize _ =>
      match authorizeQuery E role query with
      | some response => (s, [response])
      | none => s.executeStreamingQuery E query chunkSize
  | .beginTransaction readOnly _ =>
      if !readOnly ∧ (AuthManager.checkRolePermission role .write).toOption = none then
        (s, [.authError "permission denied: role cannot begin a write transaction"])
      else
        let (tm, tx) := s.txManager.beginWithOptions readOnly
        ({ s with txManager := tm }, [.transactionBegun tx])
  | .commit tx _ =>
      match s.txManager.commit tx with
      | .ok tm => ({ s with txManager := tm }, [.committed tx])
      | .error e => (s, [.error ("Commit failed: " ++ E.transactionErrorText e)])
  | .rollback tx _ => (s.rollback E tx).map id fun r => [r]
  | _ => (s, [])

/-- The session token of a request that needs one. -/
def Request.sessionToken : Request → Option (Option String)
  | .query _ _ token | .streamQuery _ _ _ token | .beginTransaction _ token | .commit _ token
  | .rollback _ token => some token
  | _ => none

/-- `handle_connection`: one request. -/
def handleRequest (s : Server) (d : Draw) (r : Request) : Server × List Response :=
  match r, Request.sessionToken r with
  | .login username password, _ => (s.login E d username password).map id fun r => [r]
  | .ping, _ => (s, [.pong])
  | .stats, _ => (s, [.stats (GraphBackend.nodeCount s.graph) (GraphBackend.edgeCount s.graph)])
  | .disconnect, _ => (s, [.goodbye])
  | r, token =>
      match s.checkSession E d token.join with
      | (s, .error response) => (s, [response])
      | (s, .ok role) => s.handleAs E d role r

end Server

end Maharit
