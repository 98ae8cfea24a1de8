import MaharitDb.Server.FollowerLsn

/-!
# The streams of a leader

A leader with any number of follower connections (`maharit-server/src/replication.rs`).  An append
holds the lock of the subscribers while it hands its entry to their queues one after the other; a
queue that is full makes it wait, and a follower that does not drain its queue in time loses its
subscription.  Each handler forwards its queue, sends heartbeats, and takes acknowledgements; all this
interleaves freely, and a connection can fail anywhere.

The invariant: what a connection has received, what is on its wire and what is in its queue are, in
this order, the entries of the log from the subscription on, and while the connection is subscribed
they go on to the end of the log (`Upto`).  So what a follower receives has no gap
(`stream_gap_free`).
-/

namespace Maharit

open Cluster

/-- The messages from the leader to a follower. -/
inductive StreamMessage where
  | handshakeAck
  | snapshot (entries : List WalEntryData)
  | walEntry (lsn : UInt64) (entry : WalEntryData)
  | heartbeat (lsn : UInt64)
  | shutdown

/-- Where the handler of a connection is. -/
inductive HandlerPhase where
  /-- The follower is authenticated. -/
  | authenticated
  /-- The handler is subscribed, and may send a snapshot. -/
  | subscribed
  /-- The handler is in its main loop. -/
  | running
  /-- The handler has returned. -/
  | ended
  deriving DecidableEq

/-- A connection to a follower. -/
structure FollowerConnection where
  phase : HandlerPhase
  /-- The queue of the handler. -/
  queue : List (UInt64 × WalEntryData)
  /-- What is sent and not received yet. -/
  wire : List StreamMessage
  /-- The last number that the follower acknowledged. -/
  lastLsn : UInt64
  /-- The follower still reads. -/
  reading : Bool
  /-- The entries that the follower has received. -/
  received : List (UInt64 × WalEntryData)
  /-- The length of the log when the handler subscribed. -/
  start : ℕ

/-- An append that holds the lock of the subscribers. -/
structure AppendInProgress where
  lsn : UInt64
  entry : WalEntryData
  /-- The subscribers that are to get the entry. -/
  remaining : List ℕ
  /-- Those that have got it. -/
  alive : List ℕ

/-- The leader, with its connections by number. -/
structure LeaderStream where
  lsn : UInt64
  /-- The entries that were given a number. -/
  log : List WalEntryData
  subscribers : List ℕ
  append : Option AppendInProgress
  conns : ℕ → Option FollowerConnection

/-- What can happen. -/
inductive StreamStep where
  /-- A follower connects and is authenticated. -/
  | connect (c : ℕ) (followerLsn : UInt64)
  | subscribe (c : ℕ)
  /-- The handler comes to its main loop, with or without having sent a snapshot. -/
  | startLoop (c : ℕ) (snapshot : Option (List WalEntryData))
  /-- A writer takes the lock and gives its entry a number. -/
  | beginAppend (entry : WalEntryData)
  /-- The append hands its entry to the next subscriber. -/
  | send
  /-- The next subscriber has not drained its queue in time. -/
  | sendTimeout
  /-- The append is done with the subscribers. -/
  | finishAppend
  /-- The append is abandoned while it waits. -/
  | cancelAppend
  /-- The handler takes the next entry off its queue and sends it, which may fail. -/
  | forward (c : ℕ) (sent : Bool)
  /-- The handler finds that the leader has dropped its queue. -/
  | queueClosed (c : ℕ)
  | heartbeat (c : ℕ) (sent : Bool)
  /-- An acknowledgement arrives. -/
  | ack (c : ℕ) (lsn : UInt64)
  /-- The handler returns: an unexpected message, a failed read or write, or the shutdown of the
  leader. -/
  | leave (c : ℕ) (shutdown : Bool)
  /-- The follower receives the next message. -/
  | receive (c : ℕ)
  /-- The follower stops reading: the connection is lost, or it cannot acknowledge. -/
  | lose (c : ℕ)

/-- The capacity of a queue. -/
def walQueueCapacity : ℕ := 1024

namespace FollowerConnection

/-- The handler still has its end of the queue. -/
def live (conn : FollowerConnection) : Bool := conn.phase = .subscribed || conn.phase = .running

/-- The handler returns, and its queue is dropped. -/
def close (conn : FollowerConnection) : FollowerConnection := { conn with phase := .ended, queue := [] }

/-- Send a message. -/
def push (conn : FollowerConnection) (m : StreamMessage) : FollowerConnection :=
  { conn with wire := conn.wire ++ [m] }

def startLoop (conn : FollowerConnection) (snapshot : Option (List WalEntryData)) :
    FollowerConnection :=
  if conn.phase = .subscribed then
    match snapshot with
    | some entries => { conn.push (.snapshot entries) with phase := .running }
    | none => { conn with phase := .running }
  else conn

def forward (conn : FollowerConnection) (sent : Bool) : FollowerConnection :=
  match conn.queue with
  | [] => conn
  | (lsn, entry) :: queue =>
      if conn.phase = .running then
        if sent then { conn.push (.walEntry lsn entry) with queue := queue } else conn.close
      else conn

def heartbeat (conn : FollowerConnection) (lsn : UInt64) (sent : Bool) : FollowerConnection :=
  if conn.phase = .running then
    if sent then conn.push (.heartbeat lsn) else conn.close
  else conn

def ack (conn : FollowerConnection) (lsn : UInt64) : FollowerConnection :=
  if conn.phase = .running then { conn with lastLsn := lsn } else conn

def leave (conn : FollowerConnection) (shutdown : Bool) : FollowerConnection :=
  (if shutdown && conn.phase = .running then conn.push .shutdown else conn).close

/-- The follower takes the next message. -/
def receive (conn : FollowerConnection) : FollowerConnection :=
  if conn.reading then
    match conn.wire with
    | [] => conn
    | .walEntry lsn entry :: wire => { conn with wire := wire, received := conn.received ++ [(lsn, entry)] }
    | .shutdown :: wire => { conn with wire := wire, reading := false }
    | _ :: wire => { conn with wire := wire }
  else conn

/-- A subscriber's queue takes an entry when the handler is there and there is room; nothing comes
back when the handler is gone. -/
def enqueue (conn : FollowerConnection) (lsn : UInt64) (entry : WalEntryData) :
    Option FollowerConnection :=
  if conn.live then some { conn with queue := conn.queue ++ [(lsn, entry)] } else none

end FollowerConnection

namespace LeaderStream

/-- A leader without followers. -/
def new : LeaderStream := ⟨0, [], [], none, fun _ => none⟩

/-- Change a connection. -/
def onConn (s : LeaderStream) (c : ℕ) (f : FollowerConnection → FollowerConnection) : LeaderStream :=
  { s with conns := Function.update s.conns c ((s.conns c).map f) }

/-- The connections that are to get the entry of the append in progress. -/
def due (s : LeaderStream) : List ℕ :=
  match s.append with
  | none => []
  | some p => p.remaining

/-- The connections that have got all entries. -/
def upToDate (s : LeaderStream) : List ℕ :=
  match s.append with
  | none => s.subscribers
  | some p => p.alive

/-- The connections to whose queues the leader can still send. -/
def senders (s : LeaderStream) : List ℕ := s.due ++ s.upToDate

/-- `append_wal_entry`: the entry goes to the next subscriber, unless its queue is full. -/
def send (s : LeaderStream) : LeaderStream :=
  match s.append with
  | some ⟨lsn, entry, c :: remaining, alive⟩ =>
      match s.conns c with
      | none => { s with append := some ⟨lsn, entry, remaining, alive⟩ }
      | some conn =>
          if conn.live && conn.queue.length ≥ walQueueCapacity then s
          else
            match conn.enqueue lsn entry with
            | some conn =>
                { s with append := some ⟨lsn, entry, remaining, alive ++ [c]⟩,
                         conns := Function.update s.conns c (some conn) }
            | none => { s with append := some ⟨lsn, entry, remaining, alive⟩ }
  | _ => s

def step (s : LeaderStream) : StreamStep → LeaderStream
  | .connect c followerLsn =>
      match s.conns c with
      | some _ => s
      | none =>
          { s with conns := Function.update s.conns c
                    (some ⟨.authenticated, [], [.handshakeAck], followerLsn, true, [], 0⟩) }
  | .subscribe c =>
      match s.append, s.conns c with
      | none, some conn =>
          if conn.phase = .authenticated then
            { s with subscribers := s.subscribers ++ [c],
                     conns := Function.update s.conns c
                      (some { conn with phase := .subscribed, start := s.log.length }) }
          else s
      | _, _ => s
  | .startLoop c snapshot => s.onConn c (·.startLoop snapshot)
  | .beginAppend entry =>
      match s.append with
      | some _ => s
      | none =>
          { s with lsn := s.lsn + 1, log := s.log ++ [entry], subscribers := [],
                   append := some ⟨s.lsn + 1, entry, s.subscribers, []⟩ }
  | .send => s.send
  | .sendTimeout =>
      match s.append with
      | some ⟨lsn, entry, c :: remaining, alive⟩ =>
          if ((s.conns c).any fun conn => conn.queue.length ≥ walQueueCapacity) then
            { s with append := some ⟨lsn, entry, remaining, alive⟩ }
          else s
      | _ => s
  | .finishAppend =>
      match s.append with
      | some ⟨_, _, [], alive⟩ => { s with append := none, subscribers := alive }
      | _ => s
  | .cancelAppend => { s with append := none, subscribers := if s.append.isSome then [] else s.subscribers }
  | .forward c sent => s.onConn c (·.forward sent)
  | .queueClosed c => s.onConn c fun conn =>
      if conn.phase = .running && conn.queue.isEmpty && c ∉ s.senders then conn.close else conn
  | .heartbeat c sent => s.onConn c (·.heartbeat s.lsn sent)
  | .ack c lsn => s.onConn c (·.ack lsn)
  | .leave c shutdown => s.onConn c (·.leave shutdown)
  | .receive c => s.onConn c (·.receive)
  | .lose c => s.onConn c ({ · with reading := false })

/-- The state after a run. -/
def run (steps : List StreamStep) : LeaderStream := steps.foldl step new

/-! ## Consecutive entries -/

/-- The stream consists of the entries of the log after the first `start` ones, up to the `k`-th
one. -/
def Upto (log : List WalEntryData) (start k : ℕ) (stream : List (UInt64 × WalEntryData)) : Prop :=
  start ≤ k ∧ stream = numbered start ((log.take k).drop start)

section Upto

variable {log : List WalEntryData} {start k : ℕ} {stream stream' : List (UInt64 × WalEntryData)}

lemma upto_nil (log : List WalEntryData) (k : ℕ) : Upto log k k [] :=
  ⟨le_rfl, by rw [List.drop_of_length_le (by simp)]; rfl⟩

/-- The log grows. -/
lemma Upto.append (h : Upto log start k stream) (hk : k ≤ log.length) (more : List WalEntryData) :
    Upto (log ++ more) start k stream := by
  obtain ⟨hle, hstream⟩ := h
  exact ⟨hle, by rw [List.take_append_of_le_length hk, hstream]⟩

/-- The next entry follows. -/
lemma Upto.next {old : List WalEntryData} {entry : WalEntryData}
    (h : Upto (old ++ [entry]) start old.length stream) :
    Upto (old ++ [entry]) start (old.length + 1) (stream ++ [(.ofNat (old.length + 1), entry)]) := by
  obtain ⟨hle, rfl⟩ := h
  refine ⟨by omega, ?_⟩
  have hall : (old ++ [entry]).take (old.length + 1) = old ++ [entry] :=
    List.take_of_length_le (by simp)
  rw [List.take_left' rfl, hall, List.drop_append_of_le_length hle, numbered_append,
    List.length_drop, Nat.add_sub_cancel' hle]
  rfl

lemma length_numbered (n : ℕ) (sent : List WalEntryData) : (numbered n sent).length = sent.length := by
  induction sent generalizing n with
  | nil => rfl
  | cons x sent ih => simp [numbered, ih]

lemma take_numbered (n m : ℕ) (sent : List WalEntryData) :
    (numbered n sent).take m = numbered n (sent.take m) := by
  induction sent generalizing n m with
  | nil => simp [numbered]
  | cons x sent ih =>
    cases m with
    | zero => rfl
    | succ m => simp only [numbered, List.take_succ_cons, ih]

/-- What is cut off at the end leaves consecutive entries. -/
lemma Upto.of_isPrefix (h : Upto log start k stream) (hsub : stream' <+: stream) :
    ∃ k' ≤ k, Upto log start k' stream' := by
  obtain ⟨hle, rfl⟩ := h
  have hstream := List.prefix_iff_eq_take.mp hsub
  rw [take_numbered, List.take_drop, List.take_take] at hstream
  by_cases hlen : start + stream'.length ≤ k
  · exact ⟨start + stream'.length, hlen, by omega, by rwa [Nat.min_eq_left hlen] at hstream⟩
  · exact ⟨k, le_rfl, hle, by rwa [Nat.min_eq_right (by omega)] at hstream⟩

/-- The numbers increase as long as they do not wrap around. -/
lemma pairwise_numbered (n : ℕ) (sent : List WalEntryData) (hbound : n + sent.length < 2 ^ 64) :
    (numbered n sent).Pairwise fun x y => x.1 < y.1 := by
  have hlater : ∀ sent n m, m ≤ n → n + sent.length < 2 ^ 64 →
      ∀ y ∈ numbered n sent, UInt64.ofNat m < y.1 := by
    intro sent
    induction sent with
    | nil => intro n m _ _ y hy; cases hy
    | cons x sent ih =>
      intro n m hm hn y hy
      rw [List.length_cons] at hn
      rcases List.mem_cons.mp hy with rfl | hy
      · rw [UInt64.lt_iff_toNat_lt, UInt64.toNat_ofNat_of_lt' (by rw [UInt64.size]; omega),
          UInt64.toNat_ofNat_of_lt' (by rw [UInt64.size]; omega)]
        omega
      · exact ih (n + 1) m (by omega) (by omega) y hy
  induction sent generalizing n with
  | nil => exact .nil
  | cons x sent ih =>
    rw [List.length_cons] at hbound
    exact .cons (hlater sent (n + 1) (n + 1) le_rfl (by omega)) (ih (n + 1) (by omega))

end Upto

end LeaderStream

/-! ## What a connection keeps -/

namespace FollowerConnection

/-- The entries among messages. -/
def entries (wire : List StreamMessage) : List (UInt64 × WalEntryData) :=
  wire.filterMap fun
    | .walEntry lsn entry => some (lsn, entry)
    | _ => none

lemma entries_append (wire wire' : List StreamMessage) :
    entries (wire ++ wire') = entries wire ++ entries wire' :=
  List.filterMap_append

/-- The entries that were handed to the connection and are not lost, in order. -/
def stream (conn : FollowerConnection) : List (UInt64 × WalEntryData) :=
  conn.received ++ entries conn.wire ++ conn.queue

/-- What every operation of a handler and its follower observes: entries are lost at the end only,
and with the handler. -/
structure Keeps (conn conn' : FollowerConnection) : Prop where
  start : conn'.start = conn.start
  stream : conn'.stream <+: conn.stream
  live : conn'.live → conn.live ∧ conn'.stream = conn.stream
  phase : conn'.phase = .authenticated → conn.phase = .authenticated

variable {conn : FollowerConnection}

lemma Keeps.rfl : conn.Keeps conn := ⟨.refl _, List.prefix_refl _, fun h => ⟨h, .refl _⟩, id⟩

lemma Keeps.trans {conn' conn'' : FollowerConnection} (h : conn.Keeps conn')
    (h' : conn'.Keeps conn'') : conn.Keeps conn'' where
  start := h'.start.trans h.start
  stream := h'.stream.trans h.stream
  live hlive := by
    obtain ⟨hlive', heq'⟩ := h'.live hlive
    obtain ⟨hlive, heq⟩ := h.live hlive'
    exact ⟨hlive, heq'.trans heq⟩
  phase hphase := h.phase (h'.phase hphase)

lemma keeps_close : conn.Keeps conn.close where
  start := rfl
  stream := by simp [stream, close]
  live h := by simp [live, close] at h
  phase h := by simp [close] at h

/-- A message that is not an entry. -/
lemma keeps_push {m : StreamMessage} (hm : entries [m] = []) : conn.Keeps (conn.push m) := by
  have hstream : (conn.push m).stream = conn.stream := by
    simp [stream, push, entries_append, hm]
  exact ⟨rfl, hstream ▸ List.prefix_refl _, fun h => ⟨h, hstream⟩, id⟩

lemma keeps_startLoop (snapshot : Option (List WalEntryData)) :
    conn.Keeps (conn.startLoop snapshot) := by
  unfold startLoop
  split
  · next hphase =>
    have hrun : ∀ conn' : FollowerConnection, conn'.phase = .subscribed →
        conn'.Keeps { conn' with phase := .running } := fun conn' h =>
      ⟨rfl, List.prefix_refl _, fun _ => ⟨by simp [live, h], rfl⟩, fun h => nomatch h⟩
    cases snapshot with
    | none => exact hrun conn hphase
    | some entries => exact (keeps_push rfl).trans (hrun (conn.push _) hphase)
  · exact .rfl

/-- The entry goes from the queue to the wire. -/
lemma keeps_forward (sent : Bool) : conn.Keeps (conn.forward sent) := by
  unfold forward
  cases hqueue : conn.queue with
  | nil => exact .rfl
  | cons x queue =>
    obtain ⟨lsn, entry⟩ := x
    dsimp only
    split
    · split
      · have hstream : stream { conn.push (.walEntry lsn entry) with queue := queue } =
            conn.stream := by
          simp [stream, push, hqueue, entries]
        exact ⟨rfl, hstream ▸ List.prefix_refl _, fun h => ⟨h, hstream⟩, id⟩
      · exact keeps_close
    · exact .rfl

lemma keeps_heartbeat (lsn : UInt64) (sent : Bool) : conn.Keeps (conn.heartbeat lsn sent) := by
  unfold heartbeat
  split
  · split
    · exact keeps_push rfl
    · exact keeps_close
  · exact .rfl

lemma keeps_ack (lsn : UInt64) : conn.Keeps (conn.ack lsn) := by
  unfold ack
  split
  · exact ⟨rfl, List.prefix_refl _, fun h => ⟨h, rfl⟩, id⟩
  · exact .rfl

lemma keeps_leave (shutdown : Bool) : conn.Keeps (conn.leave shutdown) := by
  unfold leave
  split
  · exact (keeps_push rfl).trans keeps_close
  · exact keeps_close

/-- The message goes from the wire to the follower. -/
lemma keeps_receive : conn.Keeps conn.receive := by
  have hsame : ∀ conn' : FollowerConnection, conn'.start = conn.start → conn'.stream = conn.stream →
      conn'.phase = conn.phase → conn.Keeps conn' := fun conn' hstart hstream hphase =>
    ⟨hstart, hstream ▸ List.prefix_refl _, fun h => ⟨by simpa [live, hphase] using h, hstream⟩,
      fun h => hphase ▸ h⟩
  unfold receive
  split
  · split
    · exact .rfl
    · next lsn entry wire hwire => exact hsame _ rfl (by simp [stream, hwire, entries]) rfl
    · next wire hwire => exact hsame _ rfl (by simp [stream, hwire, entries]) rfl
    · next m wire hentry _ hwire =>
      refine hsame _ rfl ?_ rfl
      cases m with
      | walEntry lsn entry => exact absurd rfl (hentry lsn entry)
      | _ => simp [stream, hwire, entries]
  · exact .rfl

end FollowerConnection

/-! ## The invariant -/

namespace LeaderStream

open FollowerConnection

section Senders

variable {s : LeaderStream} {p : AppendInProgress}

lemma due_of_none (h : s.append = none) : s.due = [] := by rw [due, h]

lemma upToDate_of_none (h : s.append = none) : s.upToDate = s.subscribers := by rw [upToDate, h]

lemma senders_of_none (h : s.append = none) : s.senders = s.subscribers := by
  rw [senders, due_of_none h, upToDate_of_none h, List.nil_append]

lemma due_of_some (h : s.append = some p) : s.due = p.remaining := by rw [due, h]

lemma upToDate_of_some (h : s.append = some p) : s.upToDate = p.alive := by rw [upToDate, h]

end Senders

/-- The invariant of a leader. -/
structure Inv (s : LeaderStream) : Prop where
  lsn : s.lsn = .ofNat s.log.length
  append : ∀ p, s.append = some p →
    p.lsn = s.lsn ∧ s.subscribers = [] ∧ ∃ old, s.log = old ++ [p.entry]
  nodup : s.senders.Nodup
  known : ∀ c ∈ s.senders, ∃ conn, s.conns c = some conn ∧ conn.phase ≠ .authenticated
  fresh : ∀ c conn, s.conns c = some conn → conn.phase = .authenticated → conn.stream = []
  stream : ∀ c conn, s.conns c = some conn → ∃ k ≤ s.log.length, Upto s.log conn.start k conn.stream
  upToDate : ∀ c conn, s.conns c = some conn → conn.live → c ∈ s.upToDate →
    Upto s.log conn.start s.log.length conn.stream
  due : ∀ c conn, s.conns c = some conn → conn.live → c ∈ s.due →
    Upto s.log conn.start (s.log.length - 1) conn.stream

variable {s s' : LeaderStream}

lemma inv_new : new.Inv where
  lsn := rfl
  append _ h := nomatch h
  nodup := .nil
  known _ h := nomatch h
  fresh _ _ h := nomatch h
  stream _ _ h := nomatch h
  upToDate _ _ h := nomatch h
  due _ _ h := nomatch h

/-- An operation of one handler or follower. -/
lemma Inv.onConn (hs : s.Inv) (c : ℕ) (f : FollowerConnection → FollowerConnection)
    (hf : ∀ conn : FollowerConnection, conn.Keeps (f conn)) : (s.onConn c f).Inv := by
  have hconn : ∀ d conn', (s.onConn c f).conns d = some conn' →
      ∃ conn, s.conns d = some conn ∧ conn.Keeps conn' := by
    intro d conn' h
    change Function.update s.conns c _ d = some conn' at h
    by_cases hd : d = c
    · subst hd
      rw [Function.update_self] at h
      obtain ⟨conn, hconn, rfl⟩ := Option.map_eq_some_iff.mp h
      exact ⟨conn, hconn, hf conn⟩
    · rw [Function.update_of_ne hd] at h
      exact ⟨conn', h, .rfl⟩
  refine ⟨hs.lsn, hs.append, hs.nodup, ?_, ?_, ?_, ?_, ?_⟩
  · intro d hd
    obtain ⟨conn, h, hphase⟩ := hs.known d hd
    by_cases hdc : d = c
    · subst hdc
      exact ⟨f conn, by simp [LeaderStream.onConn, h], fun h => hphase ((hf conn).phase h)⟩
    · exact ⟨conn, by simp [LeaderStream.onConn, hdc, h], hphase⟩
  · intro d conn' h hphase
    obtain ⟨conn, hconn, hkeeps⟩ := hconn d conn' h
    have hnil := hs.fresh d conn hconn (hkeeps.phase hphase)
    exact List.prefix_nil.mp (hnil ▸ hkeeps.stream)
  · intro d conn' h
    obtain ⟨conn, hconn, hkeeps⟩ := hconn d conn' h
    obtain ⟨k, hk, hupto⟩ := hs.stream d conn hconn
    obtain ⟨k', hk', hupto'⟩ := hupto.of_isPrefix hkeeps.stream
    exact ⟨k', hk'.trans hk, hkeeps.start ▸ hupto'⟩
  · intro d conn' h hlive hd
    obtain ⟨conn, hconn, hkeeps⟩ := hconn d conn' h
    obtain ⟨hlive, heq⟩ := hkeeps.live hlive
    rw [heq, hkeeps.start]
    exact hs.upToDate d conn hconn hlive hd
  · intro d conn' h hlive hd
    obtain ⟨conn, hconn, hkeeps⟩ := hconn d conn' h
    obtain ⟨hlive, heq⟩ := hkeeps.live hlive
    rw [heq, hkeeps.start]
    exact hs.due d conn hconn hlive hd

/-- Subscribers are dropped. -/
lemma Inv.drop (hs : s.Inv) (hlsn : s'.lsn = s.lsn) (hlog : s'.log = s.log)
    (hconns : s'.conns = s.conns)
    (happend : ∀ p, s'.append = some p →
      p.lsn = s.lsn ∧ s'.subscribers = [] ∧ ∃ old, s.log = old ++ [p.entry])
    (hdue : s'.due.Sublist s.due) (hupToDate : s'.upToDate.Sublist s.upToDate) : s'.Inv where
  lsn := by rw [hlsn, hlog, hs.lsn]
  append := by rw [hlog, hlsn]; exact happend
  nodup := hs.nodup.sublist (hdue.append hupToDate)
  known c hc := by rw [hconns]; exact hs.known c ((hdue.append hupToDate).subset hc)
  fresh := by rw [hconns]; exact hs.fresh
  stream := by rw [hconns, hlog]; exact hs.stream
  upToDate c conn h hlive hc := by
    rw [hlog]
    exact hs.upToDate c conn (hconns ▸ h) hlive (hupToDate.subset hc)
  due c conn h hlive hc := by
    rw [hlog]
    exact hs.due c conn (hconns ▸ h) hlive (hdue.subset hc)

/-- One connection is replaced, and it may become a subscriber that has all entries. -/
lemma Inv.replace (hs : s.Inv) {c : ℕ} {conn : FollowerConnection} (hlsn : s'.lsn = s.lsn)
    (hlog : s'.log = s.log) (hconns : s'.conns = Function.update s.conns c (some conn))
    (happend : ∀ p, s'.append = some p →
      p.lsn = s.lsn ∧ s'.subscribers = [] ∧ ∃ old, s.log = old ++ [p.entry])
    (hnodup : s'.senders.Nodup) (hdue : ∀ d ∈ s'.due, d ∈ s.due ∧ d ≠ c)
    (hupToDate : ∀ d ∈ s'.upToDate, d ∈ s.upToDate ∨ d = c)
    (hfresh : conn.phase = .authenticated → conn.stream = [] ∧ c ∉ s'.upToDate)
    (hstream : ∃ k ≤ s.log.length, Upto s.log conn.start k conn.stream)
    (hall : conn.live → c ∈ s'.upToDate → Upto s.log conn.start s.log.length conn.stream) :
    s'.Inv := by
  have hconn : ∀ d conn', s'.conns d = some conn' →
      (d = c ∧ conn' = conn) ∨ (d ≠ c ∧ s.conns d = some conn') := by
    intro d conn' h
    rw [hconns] at h
    by_cases hd : d = c
    · subst hd
      rw [Function.update_self] at h
      exact .inl ⟨rfl, (Option.some.inj h).symm⟩
    · rw [Function.update_of_ne hd] at h
      exact .inr ⟨hd, h⟩
  refine ⟨by rw [hlsn, hlog, hs.lsn], by rw [hlog, hlsn]; exact happend, hnodup, ?_, ?_, ?_, ?_, ?_⟩
  · intro d hd
    by_cases hdc : d = c
    · subst hdc
      refine ⟨conn, by rw [hconns, Function.update_self], fun h => ?_⟩
      rcases List.mem_append.mp hd with hd | hd
      · exact (hdue d hd).2 rfl
      · exact (hfresh h).2 hd
    · have hold : d ∈ s.senders := by
        rcases List.mem_append.mp hd with hd | hd
        · exact List.mem_append_left _ (hdue d hd).1
        · exact List.mem_append_right _ ((hupToDate d hd).resolve_right hdc)
      rw [hconns, Function.update_of_ne hdc]
      exact hs.known d hold
  · intro d conn' h hphase
    rcases hconn d conn' h with ⟨rfl, rfl⟩ | ⟨-, h⟩
    · exact (hfresh hphase).1
    · exact hs.fresh d conn' h hphase
  · intro d conn' h
    rw [hlog]
    rcases hconn d conn' h with ⟨rfl, rfl⟩ | ⟨-, h⟩
    · exact hstream
    · exact hs.stream d conn' h
  · intro d conn' h hlive hd
    rw [hlog]
    rcases hconn d conn' h with ⟨rfl, rfl⟩ | ⟨hne, h⟩
    · exact hall hlive hd
    · exact hs.upToDate d conn' h hlive ((hupToDate d hd).resolve_right hne)
  · intro d conn' h hlive hd
    rw [hlog]
    rcases hconn d conn' h with ⟨rfl, rfl⟩ | ⟨-, h⟩
    · exact absurd rfl (hdue d hd).2
    · exact hs.due d conn' h hlive (hdue d hd).1

lemma Inv.connect (hs : s.Inv) (c : ℕ) (followerLsn : UInt64) :
    (s.step (.connect c followerLsn)).Inv := by
  unfold step
  dsimp only
  cases hconn : s.conns c with
  | some conn => exact hs
  | none =>
    have hnot : c ∉ s.senders := by
      intro hc
      obtain ⟨conn, h, -⟩ := hs.known c hc
      exact absurd (hconn.symm.trans h) nofun
    exact hs.replace rfl rfl rfl hs.append hs.nodup
      (fun d hd => ⟨hd, fun h => hnot (List.mem_append_left _ (h ▸ hd))⟩)
      (fun d hd => .inl hd) (fun _ => ⟨rfl, fun h => hnot (List.mem_append_right _ h)⟩)
      ⟨0, Nat.zero_le _, upto_nil _ 0⟩ fun h => nomatch h

lemma Inv.subscribe (hs : s.Inv) (c : ℕ) : (s.step (.subscribe c)).Inv := by
  unfold step
  dsimp only
  split
  · next conn happend hconn =>
    split
    · next hphase =>
      have hnil := hs.fresh c conn hconn hphase
      have hsenders := senders_of_none happend
      have hnot : c ∉ s.subscribers := by
        intro hc
        obtain ⟨conn', h, hne⟩ := hs.known c (hsenders ▸ hc)
        obtain rfl := Option.some.inj (hconn.symm.trans h)
        exact hne hphase
      have hupToDate := upToDate_of_none happend
      have hnodup : s.subscribers.Nodup := hsenders ▸ hs.nodup
      have hupto : Upto s.log s.log.length s.log.length
          (FollowerConnection.stream { conn with phase := .subscribed, start := s.log.length }) := by
        have hsame : FollowerConnection.stream
            { conn with phase := .subscribed, start := s.log.length } = conn.stream := rfl
        rw [hsame, hnil]
        exact upto_nil _ _
      refine hs.replace rfl rfl rfl (fun p h => ?_) ?_ ?_ ?_ (fun h => nomatch h)
        ⟨_, le_rfl, hupto⟩ fun _ _ => hupto
      · exact absurd (happend.symm.trans h) nofun
      · have hnew : (s.subscribers ++ [c]).Nodup :=
          List.nodup_append.mpr ⟨hnodup, List.nodup_singleton c, by
            intro a ha b hb hab
            rw [List.mem_singleton.mp hb] at hab
            exact hnot (hab ▸ ha)⟩
        simpa only [senders_of_none, happend] using hnew
      · intro d hd
        simp only [due_of_none, happend, List.not_mem_nil] at hd
      · intro d hd
        simp only [upToDate_of_none, happend, List.mem_append, List.mem_singleton] at hd
        rwa [hupToDate]
    · exact hs
  · exact hs

lemma Inv.beginAppend (hs : s.Inv) (entry : WalEntryData) : (s.step (.beginAppend entry)).Inv := by
  unfold step
  dsimp only
  cases happend : s.append with
  | some p => exact hs
  | none =>
    have hupToDate := upToDate_of_none happend
    have hsenders := senders_of_none happend
    refine ⟨?_, ?_, ?_, ?_, hs.fresh, ?_, ?_, ?_⟩
    · dsimp only
      rw [hs.lsn, List.length_append, UInt64.ofNat_add]
      rfl
    · intro p hp
      obtain rfl := Option.some.inj hp
      exact ⟨rfl, rfl, s.log, rfl⟩
    · have hnodup : s.subscribers.Nodup := hsenders ▸ hs.nodup
      change (s.subscribers ++ []).Nodup
      rwa [List.append_nil]
    · intro c hc
      change c ∈ s.subscribers ++ [] at hc
      rw [List.append_nil] at hc
      exact hs.known c (hsenders ▸ hc)
    · intro c conn h
      obtain ⟨k, hk, hupto⟩ := hs.stream c conn h
      refine ⟨k, ?_, hupto.append hk [entry]⟩
      simpa using Nat.le_succ_of_le hk
    · intro c conn h hlive hc
      cases hc
    · intro c conn h hlive hc
      have hall := hs.upToDate c conn h hlive (hupToDate ▸ hc)
      simpa using hall.append le_rfl [entry]

lemma Inv.send (hs : s.Inv) : s.send.Inv := by
  unfold LeaderStream.send
  split
  · next lsn entry c remaining alive happend =>
    obtain ⟨hlsn, hsubscribers, old, hold⟩ := hs.append _ happend
    have hdue : s.due = c :: remaining := due_of_some happend
    have hupToDate : s.upToDate = alive := upToDate_of_some happend
    -- The subscriber does not get the entry.
    have hskip : Inv { s with append := some ⟨lsn, entry, remaining, alive⟩ } := by
      refine hs.drop rfl rfl rfl ?_ (hdue ▸ List.sublist_cons_self c remaining)
        (hupToDate ▸ List.Sublist.refl alive)
      intro p hp
      obtain rfl := Option.some.inj hp
      exact ⟨hlsn, hsubscribers, old, hold⟩
    cases hconn : s.conns c with
    | none => exact hskip
    | some conn =>
      dsimp only
      split
      · exact hs
      · unfold enqueue
        cases hlive : conn.live with
        | false => exact hskip
        | true =>
          have hlen : s.log.length = old.length + 1 := by simp [hold]
          have hbehind := hs.due c conn hconn hlive (hdue ▸ List.mem_cons_self)
          rw [hlen, Nat.add_sub_cancel, hold] at hbehind
          have hnumber : lsn = .ofNat (old.length + 1) := by rw [← hlen, ← hs.lsn]; exact hlsn
          have hupto : Upto s.log conn.start s.log.length
              (FollowerConnection.stream { conn with queue := conn.queue ++ [(lsn, entry)] }) := by
            have hnext := hbehind.next
            rw [← hold, ← hlen] at hnext
            simpa [FollowerConnection.stream, hnumber, hlen] using hnext
          have hperm : (remaining ++ (alive ++ [c])).Perm s.senders := by
            rw [senders, hdue, hupToDate, ← List.append_assoc]
            exact List.perm_append_singleton c (remaining ++ alive)
          have hnodup : (c :: remaining).Nodup := hdue ▸ (List.nodup_append.mp hs.nodup).1
          refine hs.replace rfl rfl rfl ?_ (hperm.symm.nodup hs.nodup) ?_ ?_ ?_ ⟨_, le_rfl, hupto⟩
            fun _ _ => hupto
          · intro p hp
            obtain rfl := Option.some.inj hp
            exact ⟨hlsn, hsubscribers, old, hold⟩
          · intro d hd
            refine ⟨hdue ▸ List.mem_cons_of_mem _ hd, ?_⟩
            rintro rfl
            exact (List.nodup_cons.mp hnodup).1 hd
          · intro d hd
            rw [hupToDate]
            simpa [LeaderStream.upToDate] using hd
          · intro hphase
            exact absurd hlive (by simp [live, show conn.phase = .authenticated from hphase])
  · exact hs

lemma Inv.sendTimeout (hs : s.Inv) : (s.step .sendTimeout).Inv := by
  unfold step
  dsimp only
  split
  · next lsn entry c remaining alive happend =>
    obtain ⟨hlsn, hsubscribers, hold⟩ := hs.append _ happend
    split
    · refine hs.drop rfl rfl rfl ?_ ?_ ?_
      · intro p hp
        obtain rfl := Option.some.inj hp
        exact ⟨hlsn, hsubscribers, hold⟩
      · rw [due_of_some happend]
        exact List.sublist_cons_self c remaining
      · rw [upToDate_of_some happend]
        exact List.Sublist.refl alive
    · exact hs
  · exact hs

lemma Inv.finishAppend (hs : s.Inv) : (s.step .finishAppend).Inv := by
  unfold step
  dsimp only
  split
  · next lsn entry alive happend =>
    refine hs.drop rfl rfl rfl (fun p hp => nomatch hp) (List.nil_sublist _) ?_
    rw [upToDate_of_some happend]
    exact List.Sublist.refl alive
  · exact hs

lemma Inv.cancelAppend (hs : s.Inv) : (s.step .cancelAppend).Inv := by
  refine hs.drop rfl rfl rfl (fun p hp => nomatch hp) (List.nil_sublist _) ?_
  change (if s.append.isSome then [] else s.subscribers).Sublist s.upToDate
  cases happend : s.append with
  | none => rw [upToDate_of_none happend]; exact List.Sublist.refl _
  | some p => exact List.nil_sublist _

lemma Inv.step (hs : s.Inv) (x : StreamStep) : (s.step x).Inv := by
  cases x with
  | connect c followerLsn => exact hs.connect c followerLsn
  | subscribe c => exact hs.subscribe c
  | startLoop c snapshot => exact hs.onConn c _ fun _ => keeps_startLoop snapshot
  | beginAppend entry => exact hs.beginAppend entry
  | send => exact hs.send
  | sendTimeout => exact hs.sendTimeout
  | finishAppend => exact hs.finishAppend
  | cancelAppend => exact hs.cancelAppend
  | forward c sent => exact hs.onConn c _ fun _ => keeps_forward sent
  | queueClosed c =>
    refine hs.onConn c _ fun conn => ?_
    split
    · exact keeps_close
    · exact .rfl
  | heartbeat c sent => exact hs.onConn c _ fun _ => keeps_heartbeat s.lsn sent
  | ack c lsn => exact hs.onConn c _ fun _ => keeps_ack lsn
  | leave c shutdown => exact hs.onConn c _ fun _ => keeps_leave shutdown
  | receive c => exact hs.onConn c _ fun _ => keeps_receive
  | lose c =>
    exact hs.onConn c _ fun _ => ⟨rfl, List.prefix_refl _, fun h => ⟨h, rfl⟩, id⟩

lemma inv_run (steps : List StreamStep) : (run steps).Inv :=
  List.foldlRecOn steps step inv_new fun _ hs x _ => hs.step x

/-- What a follower has received on a connection is the part of the log from its subscription on, in
order and without gap; the numbers increase until they wrap around.  As long as the handler is
subscribed, what is on the way goes on to the end of the log. -/
theorem stream_gap_free (steps : List StreamStep) (c : ℕ) (conn : FollowerConnection)
    (h : (run steps).conns c = some conn) :
    (∃ k ≤ (run steps).log.length, conn.start ≤ k ∧
      conn.received = numbered conn.start (((run steps).log.take k).drop conn.start) ∧
      (k < 2 ^ 64 → conn.received.Pairwise fun x y => x.1 < y.1)) ∧
    (conn.live → c ∈ (run steps).upToDate →
      conn.stream = numbered conn.start ((run steps).log.drop conn.start)) := by
  have hinv := inv_run steps
  refine ⟨?_, ?_⟩
  · obtain ⟨k, hk, hupto⟩ := hinv.stream c conn h
    have hreceived : conn.received <+: conn.stream := by
      rw [FollowerConnection.stream, List.append_assoc]
      exact List.prefix_append _ _
    obtain ⟨k', hk', hle, heq⟩ := hupto.of_isPrefix hreceived
    refine ⟨k', hk'.trans hk, hle, heq, fun hbound => ?_⟩
    rw [heq]
    refine pairwise_numbered _ _ ?_
    rw [List.length_drop, List.length_take]
    omega
  · intro hlive hc
    obtain ⟨-, heq⟩ := hinv.upToDate c conn h hlive hc
    rwa [List.take_length] at heq

/-- A follower that has received one entry. -/
theorem stream_gap_free_one :
    ∃ k ≤ 1, 0 ≤ k ∧
      [((1 : UInt64), WalEntryData.deleteNode 7)] =
        numbered 0 (([WalEntryData.deleteNode 7].take k).drop 0) ∧
      (k < 2 ^ 64 → [((1 : UInt64), WalEntryData.deleteNode 7)].Pairwise fun x y => x.1 < y.1) :=
  (stream_gap_free
    [.connect 0 0, .subscribe 0, .startLoop 0 none, .beginAppend (.deleteNode 7), .send,
      .finishAppend, .forward 0 true, .receive 0, .receive 0]
    0 ⟨.running, [], [], 0, true, [(1, .deleteNode 7)], 0⟩ rfl).1

/-- One entry after the other is appended, forwarded and received. -/
def streamSteps (entry : WalEntryData) (n : ℕ) : List StreamStep :=
  [.connect 0 0, .subscribe 0, .startLoop 0 none, .receive 0] ++
    (List.replicate n
      [.beginAppend entry, .send, .finishAppend, .forward 0 true, .receive 0]).flatten

/-- The state after `n` entries. -/
def streamed (entry : WalEntryData) (n : ℕ) : LeaderStream where
  lsn := .ofNat n
  log := List.replicate n entry
  subscribers := [0]
  append := none
  conns := Function.update (fun _ => none) 0
    (some ⟨.running, [], [], 0, true, numbered 0 (List.replicate n entry), 0⟩)

lemma step_streamed (entry : WalEntryData) (n : ℕ) :
    [.beginAppend entry, .send, .finishAppend, .forward 0 true, .receive 0].foldl step
      (streamed entry n) = streamed entry (n + 1) := by
  have hnext : numbered 0 (List.replicate n entry ++ [entry]) =
      numbered 0 (List.replicate n entry) ++ [(.ofNat n + 1, entry)] := by
    rw [numbered_append, List.length_replicate, Nat.zero_add]
    simp [numbered]
  simp [streamed, step, LeaderStream.send, enqueue, live, walQueueCapacity, LeaderStream.onConn,
    FollowerConnection.forward, FollowerConnection.push, FollowerConnection.receive, hnext,
    List.replicate_succ']

lemma run_streamSteps (entry : WalEntryData) (n : ℕ) : run (streamSteps entry n) = streamed entry n := by
  induction n with
  | zero => simp [run, streamSteps, streamed, step, new, LeaderStream.onConn, FollowerConnection.startLoop,
      FollowerConnection.receive, numbered]
  | succ n ih =>
    have hsplit : streamSteps entry (n + 1) = streamSteps entry n ++
        [.beginAppend entry, .send, .finishAppend, .forward 0 true, .receive 0] := by
      simp [streamSteps, List.replicate_succ']
    rw [hsplit, run, List.foldl_append]
    change List.foldl step (run (streamSteps entry n)) _ = _
    rw [ih, step_streamed]

/-- After 2^64 entries the numbers start again with 0. -/
theorem stream_wraps :
    ¬ ∀ (steps : List StreamStep) (c : ℕ) (conn : FollowerConnection),
      (run steps).conns c = some conn → conn.received.Pairwise fun x y => x.1 < y.1 := by
  intro hall
  have hentry := hall (streamSteps (.deleteNode 7) (2 ^ 64 - 1 + 1)) 0 _ (by rw [run_streamSteps]; rfl)
  rw [List.replicate_succ', numbered_append, List.length_replicate, List.pairwise_append] at hentry
  obtain ⟨-, -, hlt⟩ := hentry
  have hfirst : ((1 : UInt64), WalEntryData.deleteNode 7) ∈
      numbered 0 (List.replicate (2 ^ 64 - 1) (.deleteNode 7)) := List.mem_cons_self
  have hlast := hlt _ hfirst _ List.mem_cons_self
  exact absurd hlast (by decide)

end LeaderStream

end Maharit
