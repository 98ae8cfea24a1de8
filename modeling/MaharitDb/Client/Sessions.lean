import MaharitDb.Client.Connection
import MaharitDb.Server.ServerIntegrity
import MaharitDb.Storage.WalRecord

/-!
# Clients of a server

Clients share a server, each over a connection of its own.  A call writes a request, which arrives at the server
in any number of reads, and the responses arrive at the client in any number of reads.  However the calls of the
clients interleave and however the bytes are cut, the clients get the replies that they would get from calling
the server directly: no response is lost, read twice, cut short or taken for the answer to another call, and
the connections are empty in between.
-/

namespace Maharit

open FrameFormat GuardedRun UndoLog WalCodec

/-! ## Over the wire -/

/-- A connection, seen from both ends. -/
structure ConnectionEnds where
  client : Client
  server : ClientConnection

/-- A server and the connections of its clients. -/
structure Network where
  server : Server
  connections : ℕ → ConnectionEnds

/-- A call of a client.  The cuts are the lengths of the reads that request and responses arrive in. -/
structure CallEvent where
  connection : ℕ
  call : ClientCall
  draw : Draw
  requestCuts : List ℕ
  responseCuts : List ℕ

section

variable {ε : Type} (W : WireText) (E : ServerEnv ε)

/-- The bytes of responses, as `send_response` writes them. -/
def sendResponses (responses : List Response) : List UInt8 := responses.flatMap fun r => frame (W.responseToVec r)

/-- The length at the start of a buffer. -/
def declaredLength : List UInt8 → ℕ
  | b₀ :: b₁ :: b₂ :: b₃ :: _ => u32FromBeBytes b₀ b₁ b₂ b₃
  | _ => 0

/-- One round of `handle_connection`: a message is read, parsed and handled. -/
def Server.serve (s : Server) (d : Draw) (c : ClientConnection) : (Server × ClientConnection) × List Response :=
  match readMessage c with
  | (.message m, buffer, reads) =>
      match W.requestFromSlice m with
      | some r => (((s.handleRequest E d r).1, ⟨buffer, reads⟩), (s.handleRequest E d r).2)
      | none => ((s, ⟨buffer, reads⟩), [.error ("Invalid request: " ++ W.invalidRequest m)])
  | (.closed, buffer, reads) => ((s, ⟨buffer, reads⟩), [])
  | (.refused, buffer, reads) =>
      ((s, ⟨buffer, reads⟩), [.error ("message length " ++ toString (declaredLength buffer) ++ " exceeds maximum " ++
        toString maxMessageSize)])
  | (.failed .timedOut, buffer, reads) => ((s, ⟨buffer, reads⟩), [.error "Read timeout"])
  | (.failed .io, buffer, reads) => ((s, ⟨buffer, reads⟩), [.error W.ioError])

/-- A call over the connection. -/
def Network.call (N : Network) (e : CallEvent) : Network × Except ClientError Reply :=
  let k := N.connections e.connection
  match e.call.request k.client.sessionToken with
  | none =>
      let left : ConnectionEnds := { k with client := { k.client with sessionToken := none } }
      (⟨N.server, Function.update N.connections e.connection left⟩, .ok .done)
  | some r =>
      let inbox : ClientConnection :=
        { k.server with reads := k.server.reads ++ Read.cut e.requestCuts (frame (W.requestToVec r)) }
      let served := N.server.serve W E e.draw inbox
      let client : Client :=
        { k.client with reads := k.client.reads ++ Read.cut e.responseCuts (sendResponses W served.2) }
      let received := client.receive W e.call
      (⟨served.1.1, Function.update N.connections e.connection ⟨received.1, served.1.2⟩⟩, received.2)

def Network.step (N : Network) (e : CallEvent) : Network := (N.call W E e).1

end

/-! ## Directly -/

/-- The rows that a response brings. -/
def Response.rows : Response → List (HashMap String Value)
  | .streamChunk _ _ rows => rows
  | _ => []

/-- What the responses to a call say, without a connection. -/
def ClientCall.outcome (call : ClientCall) (responses : List Response) : Except ClientError Reply :=
  match call, responses with
  | .queryStreamInTx _ _ _, .streamStart _ _ :: chunks => .ok (.rows (chunks.flatMap Response.rows))
  | call, r :: _ => call.takesAnswer r
  | _, [] => .error .connectionClosed

/-- The server and the tokens of its clients. -/
structure DirectState where
  server : Server
  tokens : ℕ → Option String

section

variable {ε : Type} (W : WireText) (E : ServerEnv ε)

/-- The token after a reply. -/
def tokenAfter (token : Option String) : Except ClientError Reply → Option String
  | .ok (.loggedIn sessionToken _ _) => some sessionToken
  | _ => token

/-- A call of the server itself. -/
def DirectState.call (D : DirectState) (e : CallEvent) : DirectState × Except ClientError Reply :=
  let token := D.tokens e.connection
  match e.call.request token with
  | none => ({ D with tokens := Function.update D.tokens e.connection none }, .ok .done)
  | some r =>
      let handled := D.server.handleRequest E e.draw r
      let reply := e.call.outcome (handled.2.map (Response.asJson W.jsonRow))
      (⟨handled.1, Function.update D.tokens e.connection (tokenAfter token reply)⟩, reply)

def DirectState.step (D : DirectState) (e : CallEvent) : DirectState := (D.call W E e).1

/-- The text of the request and those of its responses can be sent: they are read as what was written, and they
are not too long. -/
structure CarriesTexts (D : DirectState) (e : CallEvent) : Prop where
  request : ∀ r, e.call.request (D.tokens e.connection) = some r →
    W.requestFromSlice (W.requestToVec r) = some r ∧ (W.requestToVec r).length ≤ maxMessageSize
  responses : ∀ r, e.call.request (D.tokens e.connection) = some r →
    ∀ x ∈ (D.server.handleRequest E e.draw r).2,
      W.responseFromSlice (W.responseToVec x) = some (x.asJson W.jsonRow) ∧ (W.responseToVec x).length < 2 ^ 32

end

/-! ## What the server answers with -/

/-- A chunk of a stream with its place. -/
def Response.ofChunk (id : UInt64) (c : List (HashMap String Value) × ℕ) : Response := .streamChunk id c.2 c.1

namespace Server

variable {ε : Type} {E : ServerEnv ε}

/-- A request that is no stream has one response. -/
lemma handleRequest_one (s : Server) (d : Draw) {r : Request}
    (hr : ∀ query txId chunkSize token, r ≠ .streamQuery query txId chunkSize token) :
    ∃ x, (s.handleRequest E d r).2 = [x] := by
  rcases htoken : Request.sessionToken r with _ | token
  · rcases r with ⟨username, password⟩ | _ | _ | _ | _ | _ | _ | _ | _
    case login | ping | stats | disconnect => exact ⟨_, rfl⟩
    all_goals cases htoken
  · obtain ⟨auth, ⟨message, hrefused⟩ | ⟨role, hhandled⟩⟩ := handleRequest_cases (E := E) s htoken d
    · exact ⟨_, by rw [hrefused]⟩
    · rw [hhandled]
      rcases r with _ | ⟨query, txId, token'⟩ | ⟨query, txId, chunkSize, token'⟩ | _ | _ | _ | ⟨readOnly, token'⟩ |
        ⟨tx, token'⟩ | ⟨tx, token'⟩
      case query => exact ⟨_, rfl⟩
      case streamQuery => exact absurd rfl (hr query txId chunkSize token')
      case beginTransaction =>
        simp only [handleAs]
        split <;> exact ⟨_, rfl⟩
      case commit =>
        simp only [handleAs]
        split <;> exact ⟨_, rfl⟩
      case rollback => exact ⟨_, rfl⟩
      all_goals cases htoken

/-- A stream has one response, or it starts, comes in chunks and ends. -/
lemma handleRequest_stream (s : Server) (d : Draw) (query : String) (txId : Option TxId) (chunkSize : ℕ)
    (token : Option String) :
    (∃ x, (s.handleRequest E d (.streamQuery query txId chunkSize token)).2 = [x] ∧
      ∀ id totalRows, x ≠ .streamStart id totalRows) ∨
    ∃ (id : UInt64) (totalRows count : ℕ) (chunks : List (List (HashMap String Value) × ℕ)),
      (s.handleRequest E d (.streamQuery query txId chunkSize token)).2 =
        .streamStart id totalRows :: chunks.map (.ofChunk id) ++ [.streamEnd id count] := by
  obtain ⟨auth, ⟨message, hrefused⟩ | ⟨role, hhandled⟩⟩ :=
    handleRequest_cases (E := E) s (r := .streamQuery query txId chunkSize token) rfl d
  · rw [hrefused]
    exact .inl ⟨_, rfl, fun id totalRows h => by cases h⟩
  · rw [hhandled]
    simp only [handleAs]
    rcases hauthorized : authorizeQuery E role query with _ | response
    · simp only [executeStreamingQuery]
      split
      · exact .inl ⟨_, rfl, fun id totalRows h => by cases h⟩
      · split
        · exact .inl ⟨_, rfl, fun id totalRows h => by cases h⟩
        · exact .inr ⟨_, _, _, _, rfl⟩
    · refine .inl ⟨response, rfl, fun id totalRows h => ?_⟩
      subst h
      unfold authorizeQuery at hauthorized
      split at hauthorized
      · cases hauthorized
      · split at hauthorized <;> cases hauthorized

end Server

/-! ## Reading what was written -/

variable {ε : Type} {W : WireText} {E : ServerEnv ε}

/-- A response that can be sent. -/
def WireText.Delivers (W : WireText) (x : Response) : Prop :=
  W.responseFromSlice (W.responseToVec x) = some (x.asJson W.jsonRow) ∧ (W.responseToVec x).length < 2 ^ 32

/-- The server handles the request that was sent, and nothing else is left in its buffer. -/
lemma serve_cut (s : Server) (d : Draw) {r : Request} (hr : W.requestFromSlice (W.requestToVec r) = some r)
    (hlength : (W.requestToVec r).length ≤ maxMessageSize) (cuts : List ℕ) :
    s.serve W E d ⟨[], Read.cut cuts (frame (W.requestToVec r))⟩ =
      (((s.handleRequest E d r).1, ⟨[], []⟩), (s.handleRequest E d r).2) := by
  have hbytes : [] ++ Read.stream (Read.cut cuts (frame (W.requestToVec r)) : List (Read UInt8 ReadError)) =
      frame (W.requestToVec r) ++ [] := by rw [Read.stream_cut, List.nil_append, List.append_nil]
  obtain ⟨buffer, reads, hpull, hreads, hstream⟩ :=
    pull_of_frame (checkMessage_frame hlength) (Read.succeed_cut cuts (frame (W.requestToVec r))) hbytes
  obtain ⟨rfl, hnone⟩ := List.append_eq_nil_iff.mp hstream
  obtain rfl := hreads.eq_nil hnone
  have hread : readMessage ⟨[], Read.cut cuts (frame (W.requestToVec r))⟩ = (.message (W.requestToVec r), [], []) := hpull
  simp only [Server.serve, hread, hr]

namespace Client

/-- What the client has not read yet are these responses. -/
structure Expects (W : WireText) (c : Client) (responses : List Response) : Prop where
  succeed : Read.Succeed c.reads
  stream : c.buffer ++ Read.stream c.reads = sendResponses W responses

variable {c : Client}

lemma Expects.nothing_left (h : c.Expects W []) : c.buffer = [] ∧ c.reads = [] := by
  obtain ⟨hbuffer, hnone⟩ := List.append_eq_nil_iff.mp h.stream
  exact ⟨hbuffer, h.succeed.eq_nil hnone⟩

/-- The next response is read. -/
lemma Expects.receiveResponse {x : Response} {responses : List Response} (h : c.Expects W (x :: responses))
    (hx : W.Delivers x) : ∃ c', c.receiveResponse W = (c', .ok (x.asJson W.jsonRow)) ∧
      c'.Expects W responses ∧ c'.sessionToken = c.sessionToken := by
  obtain ⟨buffer, reads, hpull, hreads, hstream⟩ :=
    pull_of_frame (F := responseFormat) (checkResponse_frame hx.2) h.succeed h.stream
  refine ⟨{ c with buffer := buffer, reads := reads }, ?_, ⟨hreads, hstream⟩, rfl⟩
  simp only [Client.receiveResponse, hpull, hx.1]

lemma collectAll_of_chunk {c c' : Client} {sr sr' : StreamingResult} {chunk : List (HashMap String Value)}
    (h : c.nextChunk W sr = ((c', sr'), .ok (some chunk))) (allRows : List (HashMap String Value)) :
    c.collectAll W sr allRows = c'.collectAll W sr' (allRows ++ chunk) := by
  rw [collectAll]
  split
  · next h' =>
    rw [h] at h'
    cases h'
    rfl
  · next h' =>
    rw [h] at h'
    cases h'
  · next h' =>
    rw [h] at h'
    cases h'

lemma collectAll_of_end {c c' : Client} {sr sr' : StreamingResult} (h : c.nextChunk W sr = ((c', sr'), .ok none))
    (allRows : List (HashMap String Value)) : c.collectAll W sr allRows = (c', .ok allRows) := by
  rw [collectAll]
  split
  · next h' =>
    rw [h] at h'
    cases h'
  · next h' =>
    rw [h] at h'
    cases h'
    rfl
  · next h' =>
    rw [h] at h'
    cases h'

/-- A stream is read to its end: all chunks, in order. -/
lemma Expects.collectAll {id : UInt64} {count : ℕ} (chunks : List (List (HashMap String Value) × ℕ))
    (h : c.Expects W (chunks.map (.ofChunk id) ++ [.streamEnd id count]))
    (hdelivered : ∀ x ∈ chunks.map (Response.ofChunk id) ++ [.streamEnd id count], W.Delivers x)
    (sr : StreamingResult) (hid : sr.streamId = id) (hopen : sr.finished = false)
    (allRows : List (HashMap String Value)) :
    ∃ c', c.collectAll W sr allRows = (c', .ok (allRows ++ chunks.flatMap fun p => p.1.map W.jsonRow)) ∧
      c'.Expects W [] ∧ c'.sessionToken = c.sessionToken := by
  induction chunks generalizing c sr allRows with
  | nil =>
    obtain ⟨c', hreceived, hnone, htoken⟩ := h.receiveResponse (hdelivered _ List.mem_cons_self)
    refine ⟨c', ?_, hnone, htoken⟩
    have hnext : c.nextChunk W sr = ((c', { sr with rowsReceived := count, finished := true }), .ok none) := by
      simp [nextChunk, hopen, hreceived, Response.asJson, hid]
    rw [collectAll_of_end hnext, List.flatMap_nil, List.append_nil]
  | cons p chunks ih =>
    obtain ⟨c', hreceived, hrest, htoken⟩ := h.receiveResponse (hdelivered _ List.mem_cons_self)
    have hnext : c.nextChunk W sr = ((c', { sr with rowsReceived := sr.rowsReceived + (p.1.map W.jsonRow).length }),
        .ok (some (p.1.map W.jsonRow))) := by
      simp [nextChunk, hopen, hreceived, Response.asJson, Response.ofChunk, hid]
    obtain ⟨c'', hcollected, hnone, htoken'⟩ := ih hrest (fun x hx => hdelivered x (List.mem_cons_of_mem _ hx))
      { sr with rowsReceived := sr.rowsReceived + (p.1.map W.jsonRow).length } hid hopen (allRows ++ p.1.map W.jsonRow)
    refine ⟨c'', ?_, hnone, htoken'.trans htoken⟩
    rw [collectAll_of_chunk hnext, hcollected, List.flatMap_cons, List.append_assoc]

lemma sessionToken_keepToken (c : Client) (reply : Except ClientError Reply) :
    (c.keepToken reply).sessionToken = tokenAfter c.sessionToken reply := by
  rcases reply with e | reply
  · rfl
  · rcases reply <;> rfl

lemma Expects.keepToken (h : c.Expects W responses) (reply : Except ClientError Reply) :
    (c.keepToken reply).Expects W responses := by
  unfold Client.keepToken
  split
  · exact ⟨h.succeed, h.stream⟩
  · exact h

/-- A single response is taken as the answer to the call. -/
lemma Expects.receive_one {x : Response} (h : c.Expects W [x]) (hx : W.Delivers x) (call : ClientCall)
    (hcall : (∀ id totalRows, x ≠ .streamStart id totalRows) ∨
      ∀ query txId chunkSize, call ≠ .queryStreamInTx query txId chunkSize) :
    ∃ c', c.receive W call = (c', call.outcome [x.asJson W.jsonRow]) ∧ c'.Expects W [] ∧
      c'.sessionToken = tokenAfter c.sessionToken (call.outcome [x.asJson W.jsonRow]) := by
  obtain ⟨c', hreceived, hnone, htoken⟩ := h.receiveResponse hx
  have hanswer : c.receive W call =
        (c'.keepToken (call.takesAnswer (x.asJson W.jsonRow)), call.takesAnswer (x.asJson W.jsonRow)) ∧
      call.outcome [x.asJson W.jsonRow] = call.takesAnswer (x.asJson W.jsonRow) := by
    rcases call with _ | _ | _ | ⟨query, txId, chunkSize⟩ | _ | _ | _ | _ | _
    case queryStreamInTx =>
      rcases hcall with hstart | hcall
      · rcases x with _ | _ | _ | _ | _ | _ | _ | _ | ⟨id, totalRows⟩ | _ | _ | _ | _
        case streamStart => exact absurd rfl (hstart id totalRows)
        all_goals
          simp only [Response.asJson] at hreceived
          exact ⟨by simp only [receive, hreceived]; rfl, rfl⟩
      · exact absurd rfl (hcall query txId chunkSize)
    all_goals exact ⟨by simp only [receive, hreceived], rfl⟩
  refine ⟨_, ?_, hnone.keepToken (call.takesAnswer (x.asJson W.jsonRow)), ?_⟩
  · rw [hanswer.1, hanswer.2]
  · rw [hanswer.2, sessionToken_keepToken, htoken]

/-- The client gets what the responses to its request say, and has then read all of them. -/
lemma Expects.receive (s : Server) (d : Draw) {call : ClientCall} {token : Option String} {r : Request}
    (hcall : call.request token = some r) (h : c.Expects W (s.handleRequest E d r).2)
    (hdelivered : ∀ x ∈ (s.handleRequest E d r).2, W.Delivers x) :
    ∃ c', c.receive W call = (c', call.outcome ((s.handleRequest E d r).2.map (Response.asJson W.jsonRow))) ∧
      c'.Expects W [] ∧ c'.sessionToken =
        tokenAfter c.sessionToken (call.outcome ((s.handleRequest E d r).2.map (Response.asJson W.jsonRow))) := by
  by_cases hstream : ∃ query txId chunkSize, call = .queryStreamInTx query txId chunkSize
  · obtain ⟨query, txId, chunkSize, rfl⟩ := hstream
    obtain rfl := Option.some.inj hcall
    rcases s.handleRequest_stream (E := E) d query txId (if chunkSize = 0 then 100 else chunkSize) token with
      ⟨x, hone, hstart⟩ | ⟨id, totalRows, count, chunks, hall⟩
    · rw [hone] at h hdelivered ⊢
      exact h.receive_one (hdelivered x (List.mem_singleton_self x)) _ (.inl hstart)
    · rw [hall] at h hdelivered ⊢
      obtain ⟨c', hreceived, hrest, htoken⟩ := h.receiveResponse (hdelivered _ List.mem_cons_self)
      obtain ⟨c'', hcollected, hnone, htoken'⟩ := hrest.collectAll chunks
        (fun x hx => hdelivered x (List.mem_cons_of_mem _ hx)) (.start id totalRows) rfl rfl []
      refine ⟨c'', ?_, hnone, htoken'.trans htoken⟩
      have houtcome : (ClientCall.queryStreamInTx query txId chunkSize).outcome
          ((Response.streamStart id totalRows :: chunks.map (Response.ofChunk id) ++
            [Response.streamEnd id count]).map (Response.asJson W.jsonRow)) =
          .ok (.rows (chunks.flatMap fun p => p.1.map W.jsonRow)) := by
        simp [ClientCall.outcome, Response.asJson, Response.ofChunk, Response.rows, List.flatMap_map]
      rw [houtcome]
      simp only [Client.receive, hreceived, Response.asJson]
      rw [hcollected]
      rfl
  · have hplain : ∀ query txId chunkSize token, r ≠ .streamQuery query txId chunkSize token := by
      rintro query txId chunkSize token' rfl
      rcases call with _ | _ | _ | ⟨query, txId, chunkSize⟩ | _ | _ | _ | _ | _
      case queryStreamInTx => exact hstream ⟨_, _, _, rfl⟩
      all_goals cases hcall
    obtain ⟨x, hone⟩ := s.handleRequest_one (E := E) d hplain
    rw [hone] at h hdelivered ⊢
    exact h.receive_one (hdelivered x (List.mem_singleton_self x)) call
      (.inr fun query txId chunkSize hcall => hstream ⟨query, txId, chunkSize, hcall⟩)

end Client

/-! ## Calls and runs -/

/-- Nothing is under way on a connection. -/
structure ConnectionEnds.Idle (k : ConnectionEnds) : Prop where
  client : k.client.buffer = [] ∧ k.client.reads = []
  server : k.server = ⟨[], []⟩

namespace Network

/-- What is left of the network when the connections are. -/
def direct (N : Network) : DirectState := ⟨N.server, fun i => (N.connections i).client.sessionToken⟩

/-- One call: the reply is that of the server, and nothing is left on the connection. -/
lemma call_direct {N : Network} (hidle : ∀ i, (N.connections i).Idle) {e : CallEvent}
    (hcarries : CarriesTexts W E N.direct e) :
    (N.call W E e).1.direct = (N.direct.call W E e).1 ∧ (N.call W E e).2 = (N.direct.call W E e).2 ∧
      ∀ i, ((N.call W E e).1.connections i).Idle := by
  have hupdate : ∀ k : ConnectionEnds, k.Idle → ∀ i, (Function.update N.connections e.connection k i).Idle := by
    intro k hk i
    by_cases hi : i = e.connection
    · subst hi
      rwa [Function.update_self]
    · rw [Function.update_of_ne hi]
      exact hidle i
  have htokens : ∀ k : ConnectionEnds, (fun i => (Function.update N.connections e.connection k i).client.sessionToken) =
      Function.update N.direct.tokens e.connection k.client.sessionToken := by
    intro k
    funext i
    by_cases hi : i = e.connection
    · subst hi
      rw [Function.update_self, Function.update_self]
    · rw [Function.update_of_ne hi, Function.update_of_ne hi]
      rfl
  unfold call DirectState.call
  rcases hrequest : e.call.request (N.connections e.connection).client.sessionToken with _ | r
  · have hrequest' : e.call.request (N.direct.tokens e.connection) = none := hrequest
    simp only [hrequest, hrequest']
    refine ⟨?_, trivial, hupdate _ ⟨(hidle e.connection).client, (hidle e.connection).server⟩⟩
    simp only [direct, htokens]
  · have hrequest' : e.call.request (N.direct.tokens e.connection) = some r := hrequest
    simp only [hrequest, hrequest']
    obtain ⟨hread, hlength⟩ := hcarries.request r hrequest'
    have hdelivered : ∀ x ∈ (N.server.handleRequest E e.draw r).2, W.Delivers x := hcarries.responses r hrequest'
    obtain ⟨⟨hbuffer, hreads⟩, hserver⟩ := hidle e.connection
    have hserved : N.server.serve W E e.draw { (N.connections e.connection).server with
        reads := (N.connections e.connection).server.reads ++
          Read.cut e.requestCuts (frame (W.requestToVec r)) } =
        (((N.server.handleRequest E e.draw r).1, ⟨[], []⟩), (N.server.handleRequest E e.draw r).2) := by
      rw [hserver]
      exact serve_cut N.server e.draw hread hlength e.requestCuts
    have hexpects : ({ (N.connections e.connection).client with
        reads := (N.connections e.connection).client.reads ++
          Read.cut e.responseCuts (sendResponses W (N.server.handleRequest E e.draw r).2) } : Client).Expects W
        (N.server.handleRequest E e.draw r).2 := by
      refine ⟨?_, ?_⟩
      · rw [hreads]
        exact Read.succeed_cut _ _
      · rw [hbuffer, hreads]
        exact Read.stream_cut _ _
    obtain ⟨c', hreceived, hnone, htoken⟩ := hexpects.receive N.server e.draw hrequest hdelivered
    rw [hserved]
    dsimp only
    rw [hreceived]
    refine ⟨?_, rfl, hupdate _ ⟨hnone.nothing_left, rfl⟩⟩
    simp only [direct, htokens, htoken]

/-- Any number of calls. -/
lemma run_direct {N : Network} (hidle : ∀ i, (N.connections i).Idle) (events : List CallEvent)
    (hcarries : Along (DirectState.step W E) (CarriesTexts W E) N.direct events) :
    (events.foldl (step W E) N).direct = events.foldl (DirectState.step W E) N.direct ∧
      runRecords (step W E) (fun N e => [(N.call W E e).2]) N events =
        runRecords (DirectState.step W E) (fun D e => [(D.call W E e).2]) N.direct events ∧
      ∀ i, ((events.foldl (step W E) N).connections i).Idle := by
  induction events generalizing N with
  | nil => exact ⟨rfl, rfl, hidle⟩
  | cons e events ih =>
    obtain ⟨hdirect, hreply, hidle'⟩ := call_direct hidle hcarries.1
    have hrest : Along (DirectState.step W E) (CarriesTexts W E) (N.call W E e).1.direct events := by
      rw [hdirect]
      exact hcarries.2
    obtain ⟨hrun, hreplies, hidle''⟩ := ih hidle' hrest
    rw [hdirect] at hrun hreplies
    refine ⟨hrun, ?_, hidle''⟩
    have hcons : [(N.call W E e).2] ++ runRecords (step W E) (fun N e => [(N.call W E e).2]) (N.step W E e) events =
        [(N.direct.call W E e).2] ++
          runRecords (DirectState.step W E) (fun D e => [(D.call W E e).2]) (N.direct.step W E e) events := by
      rw [hreply]
      exact congrArg _ hreplies
    exact hcons

end Network

/-- The texts of the requests that the sample clients make. -/
def sampleRequests : List (Request × String) :=
  [(.ping, "\x7b\"type\":\"ping\"\x7d"),
    (.beginTransaction false none, "\x7b\"type\":\"begin\",\"readOnly\":false\x7d"),
    (.streamQuery "MATCH (n) RETURN n" none 100 none,
      "\x7b\"type\":\"streamQuery\",\"query\":\"MATCH (n) RETURN n\",\"chunkSize\":100\x7d")]

/-- The texts of the responses to them. -/
def sampleResponses : List (Response × String) :=
  [(.pong, "\x7b\"type\":\"pong\"\x7d"),
    (.transactionBegun 1, "\x7b\"type\":\"transactionBegun\",\"txId\":1\x7d"),
    (.streamStart 0 0, "\x7b\"type\":\"streamStart\",\"streamId\":0,\"totalRows\":0\x7d"),
    (.streamEnd 0 0, "\x7b\"type\":\"streamEnd\",\"streamId\":0,\"totalRows\":0\x7d")]

/-- The texts on the sample connections. -/
def sampleText : WireText where
  requestToVec
    | .ping => utf8 sampleRequests[0].2
    | .beginTransaction _ _ => utf8 sampleRequests[1].2
    | _ => utf8 sampleRequests[2].2
  requestFromSlice bytes := (sampleRequests.find? fun p => utf8 p.2 == bytes).map (·.1)
  invalidRequest _ := "expected value"
  ioError := "broken pipe"
  responseToVec
    | .pong => utf8 sampleResponses[0].2
    | .transactionBegun _ => utf8 sampleResponses[1].2
    | .streamStart _ _ => utf8 sampleResponses[2].2
    | _ => utf8 sampleResponses[3].2
  responseFromSlice bytes := (sampleResponses.find? fun p => utf8 p.2 == bytes).map (·.1)
  jsonRow := id

/-- A server without data and its clients, all of them idle. -/
def idleNetwork : Network := ⟨.new, fun _ => ⟨.new, ⟨[], []⟩⟩⟩

/-- Two clients call in turn; the bytes come in small pieces. -/
def sampleCalls : List CallEvent :=
  [⟨0, .beginWithOptions false, sampleDraw "", [0, 3], [1, 1, 4]⟩,
    ⟨1, .queryStreamInTx "MATCH (n) RETURN n" none 0, sampleDraw "", [7], [50, 2]⟩,
    ⟨0, .pingInternal, sampleDraw "", [], []⟩]

end Maharit
