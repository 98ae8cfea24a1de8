import MaharitDb.Server.MessageFraming

/-!
# The client

`maharit-client/src/lib.rs`: the calls of a client, each of which sends a request and reads its responses
from the connection, and the stream of a query whose rows come in chunks.  The bytes of a response may come
in any number of reads.  TLS, the pool of connections and connecting again are left out.
-/

namespace Maharit

open FrameFormat

/-! ## Messages -/

/-- `(n as u32).to_be_bytes()`. -/
def u32ToBeBytes (n : ℕ) : List UInt8 :=
  [.ofNat (n / 2 ^ 24), .ofNat (n / 2 ^ 16), .ofNat (n / 2 ^ 8), .ofNat n]

/-- A message behind its length, as `send_request` and `send_response` write it. -/
def frame (json : List UInt8) : List UInt8 := u32ToBeBytes json.length ++ json

lemma u32FromBeBytes_u32ToBeBytes {n : ℕ} (hn : n < 2 ^ 32) :
    u32FromBeBytes (.ofNat (n / 2 ^ 24)) (.ofNat (n / 2 ^ 16)) (.ofNat (n / 2 ^ 8)) (.ofNat n) = n := by
  simp only [u32FromBeBytes, UInt8.toNat_ofNat']
  omega

/-- Is there a complete response in the buffer of the client?  Its length is not limited. -/
def checkResponse : List UInt8 → FrameCheck UInt8 (List UInt8)
  | b₀ :: b₁ :: b₂ :: b₃ :: rest =>
      if rest.length ≥ u32FromBeBytes b₀ b₁ b₂ b₃ then
        .complete (rest.take (u32FromBeBytes b₀ b₁ b₂ b₃)) (rest.drop (u32FromBeBytes b₀ b₁ b₂ b₃))
      else .incomplete
  | _ => .incomplete

/-- The format of the responses. -/
def responseFormat : FrameFormat UInt8 (List UInt8) where
  check := checkResponse
  complete_append := by
    intro b m rest h x
    rcases b with _ | ⟨b₀, _ | ⟨b₁, _ | ⟨b₂, _ | ⟨b₃, tail⟩⟩⟩⟩
    case cons.cons.cons.cons =>
      simp only [checkResponse, List.cons_append] at h ⊢
      split at h
      · next hlen =>
        injection h with hm hrest
        subst hm hrest
        rw [if_pos (by rw [List.length_append]; omega), List.take_append_of_le_length hlen,
          List.drop_append_of_le_length hlen]
      · cases h
    all_goals cases h
  refused_append := by
    intro b h x
    rcases b with _ | ⟨b₀, _ | ⟨b₁, _ | ⟨b₂, _ | ⟨b₃, tail⟩⟩⟩⟩
    case cons.cons.cons.cons =>
      simp only [checkResponse] at h
      split at h <;> cases h
    all_goals cases h
  shorter := by
    intro b m rest h
    rcases b with _ | ⟨b₀, _ | ⟨b₁, _ | ⟨b₂, _ | ⟨b₃, tail⟩⟩⟩⟩
    case cons.cons.cons.cons =>
      simp only [checkResponse] at h
      split at h
      · injection h with hm hrest
        subst hrest
        simp only [List.length_drop, List.length_cons]
        omega
      · cases h
    all_goals cases h

lemma checkResponse_frame {json : List UInt8} (hjson : json.length < 2 ^ 32) (rest : List UInt8) :
    responseFormat.check (frame json ++ rest) = .complete json rest := by
  change checkResponse (frame json ++ rest) = .complete json rest
  simp only [frame, u32ToBeBytes, List.cons_append, List.nil_append, checkResponse,
    u32FromBeBytes_u32ToBeBytes hjson]
  rw [if_pos (by simp)]
  simp

lemma checkMessage_frame {json : List UInt8} (hjson : json.length ≤ maxMessageSize) (rest : List UInt8) :
    messageFormat.check (frame json ++ rest) = .complete json rest := by
  change checkMessage (frame json ++ rest) = .complete json rest
  have hlt : json.length < 2 ^ 32 := lt_of_le_of_lt hjson (by decide)
  simp only [frame, u32ToBeBytes, List.cons_append, List.nil_append, checkMessage,
    u32FromBeBytes_u32ToBeBytes hlt]
  rw [if_neg (by omega), if_pos (by simp)]
  simp

/-- The texts of requests and responses, as `serde_json` writes and reads them. -/
structure WireText where
  requestToVec : Request → List UInt8
  requestFromSlice : List UInt8 → Option Request
  /-- Why a text is no request. -/
  invalidRequest : List UInt8 → String
  /-- Why a read of the socket failed. -/
  ioError : String
  responseToVec : Response → List UInt8
  responseFromSlice : List UInt8 → Option Response
  /-- A row as its text reads. -/
  jsonRow : HashMap String Value → HashMap String Value

/-- A response as its text reads. -/
def Response.asJson (f : HashMap String Value → HashMap String Value) : Response → Response
  | .result rows => .result (rows.map f)
  | .streamChunk id index rows => .streamChunk id index (rows.map f)
  | r => r

/-! ## The client -/

inductive ClientError where
  | connection
  | server (message : String)
  | protocol (message : String)
  | serialization
  | timeout
  | connectionClosed
  deriving DecidableEq, Repr

/-- A client; `reads` are the reads of its socket that are still to come. -/
structure Client where
  buffer : List UInt8
  reads : List (Read UInt8 ReadError)
  sessionToken : Option String

namespace Client

/-- A client that is connected. -/
def new : Client := ⟨[], [], none⟩

section

variable (W : WireText)

/-- `receive_response`. -/
def receiveResponse (c : Client) : Client × Except ClientError Response :=
  match responseFormat.pull c.buffer c.reads with
  | (.message m, buffer, reads) =>
      ({ c with buffer := buffer, reads := reads },
        match W.responseFromSlice m with
        | some r => .ok r
        | none => .error .serialization)
  | (.failed .timedOut, buffer, reads) => ({ c with buffer := buffer, reads := reads }, .error .timeout)
  | (.failed .io, buffer, reads) => ({ c with buffer := buffer, reads := reads }, .error .connection)
  | (_, buffer, reads) => ({ c with buffer := buffer, reads := reads }, .error .connectionClosed)

/-- A response leaves less to be read. -/
lemma size_receiveResponse {c c' : Client} {r : Response} (h : c.receiveResponse W = (c', .ok r)) :
    size c'.buffer c'.reads < size c.buffer c.reads := by
  have hpull := pulls_pull responseFormat c.buffer c.reads
  unfold receiveResponse at h
  rcases hpulled : responseFormat.pull c.buffer c.reads with ⟨m | _ | _ | e, buffer, reads⟩
  case message =>
    rw [hpulled] at h hpull
    obtain rfl := congrArg Prod.fst h
    cases hpull with
    | message _ _ _ _ hsize => exact hsize
  case failed =>
    rw [hpulled] at h
    rcases e with _ | _ <;> cases congrArg Prod.snd h
  all_goals
    rw [hpulled] at h
    cases congrArg Prod.snd h

end

end Client

/-! ## Streams -/

/-- A streaming result. -/
structure StreamingResult where
  streamId : UInt64
  totalRows : Option ℕ
  rowsReceived : ℕ
  finished : Bool

/-- The streaming result that `query_stream_in_tx` returns. -/
def StreamingResult.start (streamId : UInt64) (totalRows : ℕ) : StreamingResult :=
  ⟨streamId, some totalRows, 0, false⟩

def streamIdMismatch (expected got : UInt64) : ClientError :=
  .protocol ("stream ID mismatch: expected " ++ toString expected ++ ", got " ++ toString got)

namespace Client

section

variable (W : WireText)

/-- `next_chunk`; nothing at the end of the stream. -/
def nextChunk (c : Client) (sr : StreamingResult) :
    (Client × StreamingResult) × Except ClientError (Option (List (HashMap String Value))) :=
  if sr.finished then ((c, sr), .ok none)
  else
    match c.receiveResponse W with
    | (c, .ok (.streamChunk id _ rows)) =>
        if id ≠ sr.streamId then ((c, sr), .error (streamIdMismatch sr.streamId id))
        else ((c, { sr with rowsReceived := sr.rowsReceived + rows.length }), .ok (some rows))
    | (c, .ok (.streamEnd id totalRows)) =>
        if id ≠ sr.streamId then ((c, sr), .error (streamIdMismatch sr.streamId id))
        else ((c, { sr with rowsReceived := totalRows, finished := true }), .ok none)
    | (c, .ok (.error message)) => ((c, sr), .error (.server message))
    | (c, .ok _) => ((c, sr), .error (.protocol "unexpected response during streaming"))
    | (c, .error e) => ((c, sr), .error e)

/-- A chunk leaves less to be read. -/
lemma size_nextChunk {c c' : Client} {sr sr' : StreamingResult} {rows : List (HashMap String Value)}
    (h : c.nextChunk W sr = ((c', sr'), .ok (some rows))) :
    size c'.buffer c'.reads < size c.buffer c.reads := by
  unfold nextChunk at h
  split at h
  · cases congrArg Prod.snd h
  · rcases hreceived : c.receiveResponse W with ⟨c'', e | r⟩
    · rw [hreceived] at h
      cases congrArg Prod.snd h
    · rw [hreceived] at h
      have hless := size_receiveResponse W hreceived
      rcases r with _ | _ | _ | _ | _ | _ | _ | _ | _ | ⟨id, index, chunk⟩ | ⟨id, totalRows⟩ | _ | _
      case streamChunk =>
        simp only at h
        split at h
        · cases congrArg Prod.snd h
        · obtain rfl := congrArg (fun r => r.1.1) h
          exact hless
      case streamEnd =>
        simp only at h
        split at h <;> cases congrArg Prod.snd h
      all_goals cases congrArg Prod.snd h

/-- `collect_all`, after the rows that came already. -/
def collectAll (c : Client) (sr : StreamingResult) (allRows : List (HashMap String Value)) :
    Client × Except ClientError (List (HashMap String Value)) :=
  match _h : c.nextChunk W sr with
  | ((c', sr'), .ok (some chunk)) => collectAll c' sr' (allRows ++ chunk)
  | ((c', _), .ok none) => (c', .ok allRows)
  | ((c', _), .error e) => (c', .error e)
termination_by size c.buffer c.reads
decreasing_by exact size_nextChunk W _h

end

end Client

/-! ## Calls -/

/-- A call of the client.  A stream is read to its end. -/
inductive ClientCall where
  | login (username password : String)
  | logout
  | queryInternal (query : String) (txId : Option TxId)
  | queryStreamInTx (query : String) (txId : Option TxId) (chunkSize : ℕ)
  | beginWithOptions (readOnly : Bool)
  | commit (txId : TxId)
  | rollback (txId : TxId)
  | pingInternal
  | stats

/-- What a call returns. -/
inductive Reply where
  | done
  | loggedIn (sessionToken role : String) (expiresAt : UInt64)
  | rows (rows : List (HashMap String Value))
  | transaction (txId : TxId)
  | stats (nodes edges : ℕ)

/-- The answer that a call expects, or the error of the server. -/
def answer (unexpected : String) (expected : Response → Option Reply) : Response → Except ClientError Reply
  | .error message => .error (.server message)
  | r =>
      match expected r with
      | some reply => .ok reply
      | none => .error (.protocol unexpected)

def loginAnswer : Response → Except ClientError Reply
  | .loggedIn sessionToken role expiresAt => .ok (.loggedIn sessionToken role expiresAt)
  | .authError message => .error (.server message)
  | .error message => .error (.server message)
  | _ => .error (.protocol "unexpected response type for login")

def queryAnswer : Response → Except ClientError Reply :=
  answer "unexpected response type" fun
    | .result rows => some (.rows rows)
    | _ => none

def beginAnswer : Response → Except ClientError Reply :=
  answer "expected transaction begun response" fun
    | .transactionBegun txId => some (.transaction txId)
    | _ => none

def commitAnswer : Response → Except ClientError Reply :=
  answer "expected committed response" fun
    | .committed _ => some .done
    | _ => none

def rollbackAnswer : Response → Except ClientError Reply :=
  answer "expected rolled back response" fun
    | .rolledBack _ => some .done
    | _ => none

def pingAnswer : Response → Except ClientError Reply :=
  answer "expected pong response" fun
    | .pong => some .done
    | _ => none

def statsAnswer : Response → Except ClientError Reply :=
  answer "expected stats response" fun
    | .stats nodes edges => some (.stats nodes edges)
    | _ => none

namespace ClientCall

/-- The request of a call; none when the server is not asked. -/
def request (token : Option String) : ClientCall → Option Request
  | login username password => some (.login username password)
  | logout => none
  | queryInternal query txId => some (.query query txId token)
  | queryStreamInTx query txId chunkSize =>
      some (.streamQuery query txId (if chunkSize = 0 then 100 else chunkSize) token)
  | beginWithOptions readOnly => some (.beginTransaction readOnly token)
  | commit txId => some (.commit txId token)
  | rollback txId => some (.rollback txId token)
  | pingInternal => some .ping
  | stats => some .stats

/-- How a call takes the first response to it. -/
def takesAnswer : ClientCall → Response → Except ClientError Reply
  | login _ _ => loginAnswer
  | logout => fun _ => .ok .done
  | queryInternal _ _ => queryAnswer
  | queryStreamInTx _ _ _ => fun
      | .error message => .error (.server message)
      | _ => .error (.protocol "expected StreamStart response")
  | beginWithOptions _ => beginAnswer
  | commit _ => commitAnswer
  | rollback _ => rollbackAnswer
  | pingInternal => pingAnswer
  | stats => statsAnswer

end ClientCall

namespace Client

variable (W : WireText)

/-- The token of a login is kept. -/
def keepToken (c : Client) : Except ClientError Reply → Client
  | .ok (.loggedIn sessionToken _ _) => { c with sessionToken := some sessionToken }
  | _ => c

/-- The second half of a call: its responses are read. -/
def receive (c : Client) (call : ClientCall) : Client × Except ClientError Reply :=
  match call, c.receiveResponse W with
  | .queryStreamInTx _ _ _, (c, .ok (.streamStart streamId totalRows)) =>
      (c.collectAll W (.start streamId totalRows) []).map id fun r => r.map .rows
  | call, (c, .ok r) => (c.keepToken (call.takesAnswer r), call.takesAnswer r)
  | _, (c, .error e) => (c, .error e)

end Client

end Maharit
