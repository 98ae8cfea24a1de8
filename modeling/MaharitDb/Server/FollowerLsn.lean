import MaharitDb.Server.SnapshotConverges

/-!
# One leader and one follower

The leader executes calls, appends what they log to its log and queues it for the subscribed follower;
the follower connects, is sent a snapshot when it announces sequence number zero, applies what arrives
and keeps the number of the last entry (`maharit-server/src/replication.rs`).  The connection may be
lost at any time, and what is under way is lost with it.

The follower's number is meant to describe its state: `LsnDescribes`.  A subscription starts with the
next entry that is appended, whatever number the follower announces, and a snapshot does not move the
number.  So the property holds along the runs in which no entry is missed and no snapshot brings
anything (`lsn_describes`).
-/

namespace Maharit

open UndoLog GuardedRun

/-- `ReplicationMessage`: the messages that change a follower. -/
inductive ReplicationMessage where
  | walEntry (lsn : UInt64) (entry : WalEntryData)
  | snapshot (entries : List WalEntryData)

/-- A connection, as `handle_follower_connection` serves it. -/
structure Connection where
  /-- The number in the handshake. -/
  followerLsn : UInt64
  /-- The handler has not come past the snapshot yet. -/
  snapshotDue : Bool
  /-- The leader still sends to the queue. -/
  subscribed : Bool
  /-- The queue of the subscription. -/
  queue : List (UInt64 × WalEntryData)
  /-- What is sent and not received yet. -/
  wire : List ReplicationMessage

/-- The state of the leader and the follower. -/
structure Cluster where
  /-- The calls the leader has executed. -/
  calls : List WriteCall
  /-- The graph of the leader. -/
  graph : ConcurrentGraph
  /-- Recorded entries that are not appended yet. -/
  pending : List WalEntryData
  /-- The appended entries. -/
  log : List WalEntryData
  /-- The sequence number of the leader. -/
  lsn : UInt64
  /-- The graph that snapshots are taken of. -/
  snapshotGraph : Option Graph
  connection : Option Connection
  /-- The graph of the follower. -/
  follower : ConcurrentGraph
  /-- The sequence number of the follower. -/
  currentLsn : UInt64

/-- What can happen. -/
inductive ClusterStep where
  /-- The leader executes a call. -/
  | write (c : WriteCall)
  /-- The leader appends the next entry; `drained` is whether the queue of the follower takes it in
  time. -/
  | appendWalEntry (drained : Bool)
  /-- The graph that snapshots are taken of is changed. -/
  | setSnapshotGraph (g : Graph)
  /-- The follower connects and is subscribed. -/
  | connect
  /-- The handler comes to the snapshot. -/
  | sendSnapshot
  /-- The handler sends the next entry of the queue. -/
  | forward
  /-- The follower receives the next message. -/
  | receive
  /-- The connection is lost. -/
  | disconnect

namespace Connection

/-- The leader's part of `append_wal_entry`: a queue that is not drained in time is dropped. -/
def enqueue (c : Connection) (lsn : UInt64) (entry : WalEntryData) (drained : Bool) : Connection :=
  if c.subscribed then
    if drained then { c with queue := c.queue ++ [(lsn, entry)] } else { c with subscribed := false }
  else c

/-- A snapshot is sent to a follower that announces number zero, if there is a graph to take it of. -/
def sendSnapshot (J : JsonText) (snapshotGraph : Option Graph) (c : Connection) : Connection :=
  if c.snapshotDue then
    let sent := if c.followerLsn = 0 then
      (snapshotGraph.map fun g => ReplicationMessage.snapshot (graphToSnapshotEntries J g)).toList else []
    { c with snapshotDue := false, wire := c.wire ++ sent }
  else c

/-- The handler sends entries once it has come past the snapshot. -/
def forward (c : Connection) : Connection :=
  match c.snapshotDue, c.queue with
  | false, (lsn, entry) :: queue => { c with queue := queue, wire := c.wire ++ [.walEntry lsn entry] }
  | _, _ => c

end Connection

namespace Cluster

/-- The leader and the follower at the start. -/
def new (snapshotGraph : Option Graph) : Cluster where
  calls := []
  graph := .new
  pending := []
  log := []
  lsn := 0
  snapshotGraph := snapshotGraph
  connection := none
  follower := .new
  currentLsn := 0

/-- `append_wal_entry`. -/
def appendWalEntry (s : Cluster) (drained : Bool) : Cluster :=
  match s.pending with
  | [] => s
  | entry :: pending =>
      let newLsn := s.lsn + 1
      { s with pending := pending, log := s.log ++ [entry], lsn := newLsn,
               connection := s.connection.map fun c => c.enqueue newLsn entry drained }

/-- The follower connects with the number of the last entry it applied. -/
def connect (s : Cluster) : Cluster :=
  match s.connection with
  | some _ => s
  | none => { s with connection := some ⟨s.currentLsn, true, true, [], []⟩ }

/-- `run_follower_receive_loop`: a message arrives. -/
def apply (J : JsonText) (s : Cluster) : ReplicationMessage → Cluster
  | .walEntry lsn entry => { s with follower := applyWalEntry J s.follower entry, currentLsn := lsn }
  | .snapshot entries => { s with follower := entries.foldl (applyWalEntry J) s.follower }

def receive (J : JsonText) (s : Cluster) : Cluster :=
  match s.connection with
  | none => s
  | some c =>
      match c.wire with
      | [] => s
      | m :: wire => { s with connection := some { c with wire := wire } }.apply J m

def step (J : JsonText) (s : Cluster) : ClusterStep → Cluster
  | .write c =>
      { s with calls := s.calls ++ [c], graph := c.apply s.graph,
               pending := s.pending ++ RecordingGraph.walEntries J s.graph c }
  | .appendWalEntry drained => s.appendWalEntry drained
  | .setSnapshotGraph g => { s with snapshotGraph := s.snapshotGraph.map fun _ => g }
  | .connect => s.connect
  | .sendSnapshot => { s with connection := s.connection.map (·.sendSnapshot J s.snapshotGraph) }
  | .forward => { s with connection := s.connection.map (·.forward) }
  | .receive => s.receive J
  | .disconnect => { s with connection := none }

/-- The number of the follower describes its state: its graph is that of the leader after as many log
entries. -/
def LsnDescribes (J : JsonText) (s : Cluster) : Prop :=
  s.follower.SameStore (leaderAfter J .new s.calls s.currentLsn.toNat)

/-- The steps that keep it so: a call replicates, the log is not longer than its numbers, a follower
connects when it has every entry of the log, and the snapshot that it is sent is empty. -/
def Keeps (J : JsonText) (s : Cluster) : ClusterStep → Prop
  | .write c => c.Replicates J s.graph
  | .appendWalEntry _ => s.log.length + 1 < 2 ^ 64
  | .connect => s.connection = none → s.currentLsn = s.lsn
  | .sendSnapshot => ∀ c, s.connection = some c → c.snapshotDue → c.followerLsn = 0 →
      ∀ g, s.snapshotGraph = some g → graphToSnapshotEntries J g = []
  | _ => True

/-! ## The invariant -/

/-- The messages for a part of a log, numbered from `n + 1` on. -/
def numbered (n : ℕ) : List WalEntryData → List (UInt64 × WalEntryData)
  | [] => []
  | x :: xs => (.ofNat (n + 1), x) :: numbered (n + 1) xs

lemma numbered_append (n : ℕ) (xs ys : List WalEntryData) :
    numbered n (xs ++ ys) = numbered n xs ++ numbered (n + xs.length) ys := by
  induction xs generalizing n with
  | nil => rfl
  | cons x xs ih =>
    rw [List.cons_append, numbered, ih, numbered, List.cons_append, List.length_cons,
      Nat.add_right_comm, Nat.add_assoc]

/-- The entries on the wire; a snapshot there is empty. -/
def Carries : List ReplicationMessage → List (UInt64 × WalEntryData) → Prop
  | [], xs => xs = []
  | .walEntry lsn entry :: wire, xs => ∃ rest, xs = (lsn, entry) :: rest ∧ Carries wire rest
  | .snapshot entries :: wire, xs => entries = [] ∧ Carries wire xs

lemma Carries.append {wire wire' : List ReplicationMessage} {xs xs' : List (UInt64 × WalEntryData)}
    (h : Carries wire xs) (h' : Carries wire' xs') : Carries (wire ++ wire') (xs ++ xs') := by
  induction wire generalizing xs with
  | nil =>
    rw [show xs = [] from h]
    exact h'
  | cons m wire ih =>
    cases m with
    | walEntry lsn entry =>
      obtain ⟨rest, rfl, hrest⟩ := h
      exact ⟨rest ++ xs', rfl, ih hrest⟩
    | snapshot entries => exact ⟨h.1, ih h.2⟩

/-- What is under way on a connection are the entries that follow the follower's number, and a
subscription gets every further one. -/
structure InFlight (log : List WalEntryData) (n : ℕ) (c : Connection) : Prop where
  carries : ∃ sent queued later, log.drop n = sent ++ queued ++ later ∧
    Carries c.wire (numbered n sent) ∧ c.queue = numbered (n + sent.length) queued ∧
    (c.subscribed → later = [])

/-- The invariant of the cluster. -/
structure Inv (J : JsonText) (s : Cluster) : Prop where
  graph : s.graph = WriteCall.run .new s.calls
  calls : Along WriteCall.apply (fun g c => c.Replicates J g) .new s.calls
  log : s.log ++ s.pending = runRecords WriteCall.apply (RecordingGraph.walEntries J) .new s.calls
  lsn : s.lsn = .ofNat s.log.length
  bound : s.log.length < 2 ^ 64
  current : s.currentLsn.toNat ≤ s.log.length
  follower : s.follower = (s.log.take s.currentLsn.toNat).foldl (applyWalEntry J) .new
  connection : ∀ c, s.connection = some c → InFlight s.log s.currentLsn.toNat c

lemma inv_new (J : JsonText) (snapshotGraph : Option Graph) : (new snapshotGraph).Inv J where
  graph := rfl
  calls := trivial
  log := rfl
  lsn := rfl
  bound := by simp [new]
  current := by simp [new]
  follower := rfl
  connection := by simp [new]

section Inv

variable {J : JsonText} {s : Cluster}

lemma Inv.write (hs : s.Inv J) {c : WriteCall} (hc : c.Replicates J s.graph) :
    (s.step J (.write c)).Inv J where
  graph := by
    simp only [step, WriteCall.run_append, WriteCall.run_cons, WriteCall.run_nil, hs.graph]
  calls := by
    refine along_append.mpr ⟨hs.calls, ?_, trivial⟩
    rw [hs.graph] at hc
    exact hc
  log := by
    simp only [step, runRecords_append, ← List.append_assoc, hs.log]
    rw [hs.graph]
    simp [runRecords, WriteCall.run]
  lsn := hs.lsn
  bound := hs.bound
  current := hs.current
  follower := hs.follower
  connection := hs.connection

/-- A further entry reaches the queue of a subscription. -/
lemma InFlight.enqueue {log : List WalEntryData} {n : ℕ} {c : Connection} (h : InFlight log n c)
    (hn : n ≤ log.length) (entry : WalEntryData) (drained : Bool) :
    InFlight (log ++ [entry]) n (c.enqueue (.ofNat (log.length + 1)) entry drained) := by
  obtain ⟨sent, queued, later, hlog, hwire, hqueue, hopen⟩ := h.carries
  have hdrop : (log ++ [entry]).drop n = log.drop n ++ [entry] := List.drop_append_of_le_length hn
  have hkept : ∀ c' : Connection, c'.wire = c.wire → c'.queue = c.queue → c'.subscribed = false →
      InFlight (log ++ [entry]) n c' := by
    intro c' hw hq hclosed
    refine ⟨sent, queued, later ++ [entry], ?_, hw ▸ hwire, hq ▸ hqueue, fun h => ?_⟩
    · rw [hdrop, hlog, List.append_assoc (sent ++ queued)]
    · rw [hclosed] at h
      cases h
  unfold Connection.enqueue
  split
  · next hsub =>
    split
    · -- the entry is the next one after those in the queue
      have hlater := hopen hsub
      subst hlater
      rw [List.append_nil] at hlog
      have hlen : n + sent.length + queued.length = log.length := by
        have := congrArg List.length hlog
        rw [List.length_drop, List.length_append] at this
        omega
      refine ⟨sent, queued ++ [entry], [], ?_, hwire, ?_, fun _ => rfl⟩
      · rw [hdrop, hlog, List.append_nil, List.append_assoc]
      · simp only [numbered_append, hqueue, hlen, numbered]
    · exact hkept _ rfl rfl rfl
  · next hsub => exact hkept c rfl rfl (by simpa using hsub)

lemma Inv.appendWalEntry (hs : s.Inv J) (drained : Bool) (hbound : s.log.length + 1 < 2 ^ 64) :
    (s.appendWalEntry drained).Inv J := by
  unfold Cluster.appendWalEntry
  cases hpending : s.pending with
  | nil => exact hs
  | cons entry pending =>
    have hlsn : s.lsn + 1 = UInt64.ofNat (s.log.length + 1) := by
      rw [hs.lsn, UInt64.ofNat_add]
      rfl
    refine ⟨hs.graph, hs.calls, ?_, ?_, ?_, ?_, ?_, ?_⟩
    · simp only [List.append_assoc, List.singleton_append]
      rw [← hpending]
      exact hs.log
    · simpa using hlsn
    · simpa using hbound
    · simpa using hs.current.trans (Nat.le_succ _)
    · simp only
      rw [List.take_append_of_le_length hs.current]
      exact hs.follower
    · intro c hc
      obtain ⟨c₀, hc₀, rfl⟩ := Option.map_eq_some_iff.mp hc
      rw [hlsn]
      exact (hs.connection c₀ hc₀).enqueue hs.current entry drained

lemma Inv.connect (hs : s.Inv J) (hcaught : s.connection = none → s.currentLsn = s.lsn) :
    s.connect.Inv J := by
  unfold Cluster.connect
  cases hconn : s.connection with
  | some c => exact hs
  | none =>
    have hnumber : s.currentLsn.toNat = s.log.length := by
      rw [hcaught hconn, hs.lsn, UInt64.toNat_ofNat', Nat.mod_eq_of_lt hs.bound]
    refine ⟨hs.graph, hs.calls, hs.log, hs.lsn, hs.bound, hs.current, hs.follower, ?_⟩
    rintro c ⟨⟩
    exact ⟨[], [], [], by simp [hnumber], rfl, rfl, fun _ => rfl⟩

/-- A change of the connection that keeps what is under way. -/
lemma Inv.withConnection (hs : s.Inv J) {f : Connection → Connection}
    (hf : ∀ c, s.connection = some c → InFlight s.log s.currentLsn.toNat c →
      InFlight s.log s.currentLsn.toNat (f c)) :
    { s with connection := s.connection.map f }.Inv J := by
  refine ⟨hs.graph, hs.calls, hs.log, hs.lsn, hs.bound, hs.current, hs.follower, ?_⟩
  intro c hc
  obtain ⟨c₀, hc₀, rfl⟩ := Option.map_eq_some_iff.mp hc
  exact hf c₀ hc₀ (hs.connection c₀ hc₀)

lemma InFlight.sendSnapshot {log : List WalEntryData} {n : ℕ} {c : Connection} (h : InFlight log n c)
    {snapshotGraph : Option Graph} (hempty : c.snapshotDue → c.followerLsn = 0 →
      ∀ g, snapshotGraph = some g → graphToSnapshotEntries J g = []) :
    InFlight log n (c.sendSnapshot J snapshotGraph) := by
  unfold Connection.sendSnapshot
  split
  · next hdue =>
    obtain ⟨sent, queued, later, hlog, hwire, hqueue, hopen⟩ := h.carries
    refine ⟨sent, queued, later, hlog, ?_, hqueue, hopen⟩
    rw [← List.append_nil (numbered n sent)]
    refine hwire.append ?_
    split
    · next hzero =>
      cases hg : snapshotGraph with
      | none => rfl
      | some g => exact ⟨hempty hdue hzero g hg, rfl⟩
    · rfl
  · exact h

lemma InFlight.forward {log : List WalEntryData} {n : ℕ} {c : Connection} (h : InFlight log n c) :
    InFlight log n c.forward := by
  unfold Connection.forward
  split
  · next lsn entry queue _ hcqueue =>
    obtain ⟨sent, queued, later, hlog, hwire, hqueue, hopen⟩ := h.carries
    cases queued with
    | nil =>
      rw [hcqueue] at hqueue
      cases hqueue
    | cons x queued =>
      rw [hcqueue, numbered] at hqueue
      obtain ⟨hhead, rfl⟩ := List.cons.inj hqueue
      obtain ⟨rfl, rfl⟩ := Prod.mk.inj hhead
      refine ⟨sent ++ [entry], queued, later, by simpa using hlog, ?_, ?_, hopen⟩
      · rw [numbered_append]
        exact hwire.append ⟨[], rfl, rfl⟩
      · simp [Nat.add_assoc]
  · exact h

/-- The entry that arrives is the next one of the log. -/
lemma InFlight.receiveEntry {log : List WalEntryData} {n : ℕ} {c : Connection} (h : InFlight log n c)
    {lsn : UInt64} {entry : WalEntryData} {wire : List ReplicationMessage}
    (hc : c.wire = .walEntry lsn entry :: wire) :
    lsn = .ofNat (n + 1) ∧ log[n]? = some entry ∧ InFlight log (n + 1) { c with wire := wire } := by
  obtain ⟨sent, queued, later, hlog, hwire, hqueue, hopen⟩ := h.carries
  rw [hc] at hwire
  obtain ⟨rest, hnumbered, hrest⟩ := hwire
  cases sent with
  | nil => cases hnumbered
  | cons x sent =>
    obtain ⟨hhead, rfl⟩ := List.cons.inj hnumbered
    obtain ⟨rfl, rfl⟩ := Prod.mk.inj hhead
    refine ⟨rfl, ?_, sent, queued, later, ?_, hrest, ?_, hopen⟩
    · have hget := congrArg (·[0]?) hlog
      simpa [List.getElem?_drop] using hget
    · have htail := congrArg List.tail hlog
      simpa [List.tail_drop] using htail
    · rw [List.length_cons, ← Nat.add_assoc, Nat.add_right_comm] at hqueue
      exact hqueue

lemma Inv.receive (hs : s.Inv J) : (s.receive J).Inv J := by
  unfold Cluster.receive
  cases hconn : s.connection with
  | none => exact hs
  | some c =>
    have hflight := hs.connection c hconn
    cases hwire : c.wire with
    | nil => simpa only [hwire] using hs
    | cons m wire =>
      simp only [hwire]
      cases m with
      | walEntry lsn entry =>
        obtain ⟨rfl, hget, hrest⟩ := hflight.receiveEntry hwire
        have hlt : s.currentLsn.toNat < s.log.length := (List.getElem?_eq_some_iff.mp hget).1
        have hnext : (UInt64.ofNat (s.currentLsn.toNat + 1)).toNat = s.currentLsn.toNat + 1 := by
          rw [UInt64.toNat_ofNat']
          exact Nat.mod_eq_of_lt (lt_of_le_of_lt hlt hs.bound)
        refine ⟨hs.graph, hs.calls, hs.log, hs.lsn, hs.bound, ?_, ?_, ?_⟩
        · simp only [apply, hnext]
          exact hlt
        · simp only [apply, hnext, List.take_add_one, hget, Option.toList_some, List.foldl_append]
          rw [hs.follower]
          rfl
        · simp only [apply, hnext]
          rintro c' ⟨⟩
          exact hrest
      | snapshot entries =>
        obtain ⟨sent, queued, later, hlog, hcarries, hqueue, hopen⟩ := hflight.carries
        rw [hwire] at hcarries
        obtain ⟨rfl, hcarries⟩ := hcarries
        refine ⟨hs.graph, hs.calls, hs.log, hs.lsn, hs.bound, hs.current, hs.follower, ?_⟩
        rintro c' ⟨⟩
        exact ⟨sent, queued, later, hlog, hcarries, hqueue, hopen⟩

/-- Every step that meets the condition keeps the invariant. -/
theorem Inv.step (hs : s.Inv J) {a : ClusterStep} (ha : s.Keeps J a) : (s.step J a).Inv J := by
  cases a with
  | write c => exact hs.write ha
  | appendWalEntry drained => exact hs.appendWalEntry drained ha
  | setSnapshotGraph g =>
    exact ⟨hs.graph, hs.calls, hs.log, hs.lsn, hs.bound, hs.current, hs.follower, hs.connection⟩
  | connect => exact hs.connect ha
  | sendSnapshot => exact hs.withConnection fun c hc hflight => hflight.sendSnapshot (ha c hc)
  | forward => exact hs.withConnection fun c hc hflight => hflight.forward
  | receive => exact hs.receive
  | disconnect =>
    exact ⟨hs.graph, hs.calls, hs.log, hs.lsn, hs.bound, hs.current, hs.follower, by simp [Cluster.step]⟩

/-- The follower of the first entries of the log has the graph of the leader after them. -/
theorem Inv.lsnDescribes (hJ : J.Faithful) (hs : s.Inv J) : s.LsnDescribes J := by
  have hlength : s.currentLsn.toNat ≤
      (runRecords WriteCall.apply (RecordingGraph.walEntries J) .new s.calls).length := by
    rw [← hs.log, List.length_append]
    exact hs.current.trans (Nat.le_add_right _ _)
  obtain ⟨pre, rest, hcalls, hstate, hlen⟩ :=
    RecordingGraph.exists_leaderAfter J .new s.calls hlength
  have hprefix : s.log.take s.currentLsn.toNat =
      runRecords WriteCall.apply (RecordingGraph.walEntries J) .new pre := by
    have htake := congrArg (List.take s.currentLsn.toNat) hs.log
    rw [List.take_append_of_le_length hs.current, hcalls, runRecords_append, ← hlen,
      List.take_left] at htake
    rw [← hlen, htake]
  have hrun := hs.calls
  rw [hcalls] at hrun
  obtain ⟨a, b, hfollower⟩ := applyWalEntry_run hJ ConcurrentGraph.adjacencyLive_new 0 0
    (along_append.mp hrun).1
  have hnew : ConcurrentGraph.new.withCounters 0 0 = ConcurrentGraph.new := rfl
  rw [hnew] at hfollower
  unfold LsnDescribes
  rw [hs.follower, hprefix, hfollower, hstate]
  exact ⟨rfl, fun _ _ => Iff.rfl, fun _ _ => Iff.rfl, fun _ _ => Iff.rfl⟩

end Inv

end Cluster

/-- **The follower's number describes its state** in every run whose steps keep it so. -/
theorem lsn_describes {J : JsonText} (hJ : J.Faithful) (snapshotGraph : Option Graph)
    (steps : List ClusterStep)
    (hsteps : Along (Cluster.step J) (Cluster.Keeps J) (.new snapshotGraph) steps) :
    (steps.foldl (Cluster.step J) (.new snapshotGraph)).LsnDescribes J :=
  (inv_foldl (fun _ _ hs ha => hs.step ha) (Cluster.inv_new J snapshotGraph) hsteps).lsnDescribes hJ

/-- A follower that is away while nothing is written. -/
def caughtUpSteps : List ClusterStep :=
  [.connect, .sendSnapshot, .receive, .write (.createNodeWithLabels ["P"]), .appendWalEntry true,
    .forward, .receive, .disconnect, .connect, .sendSnapshot,
    .write (.setNodeProperty 0 "name" (.string "a")), .appendWalEntry true, .forward, .receive]

theorem lsn_describes_caughtUpSteps :
    (caughtUpSteps.foldl (Cluster.step (logJson ⟨fun _ => "0.0", fun _ => "0"⟩))
      (.new (some .new))).LsnDescribes (logJson ⟨fun _ => "0.0", fun _ => "0"⟩) := by
  refine lsn_describes (logJson_faithful _) _ _ ?_
  refine ⟨fun _ => rfl, ?_, trivial, ?_, ?_, trivial, trivial, trivial, fun _ => by decide +kernel, ?_,
    fun _ => trivial, ?_, trivial, trivial, trivial⟩
  · rintro c ⟨⟩ - - g ⟨⟩
    rfl
  · change (_ : NodeId) ∉ (_ : HashMap NodeId Node)
    decide
  · change (_ : ℕ) < _
    decide
  · rintro c ⟨⟩ - hzero
    cases hzero
  · change (_ : ℕ) < _
    decide

/-- A follower that is away while a node is created, and comes back. -/
def missedSteps : List ClusterStep :=
  [.connect, .sendSnapshot, .write (.createNodeWithLabels ["P"]), .appendWalEntry true, .forward,
    .receive, .disconnect, .write (.createNodeWithLabels ["Q"]), .appendWalEntry true, .connect,
    .sendSnapshot, .write (.createNodeWithLabels ["R"]), .appendWalEntry true, .forward, .receive]

/-- A follower that loads a snapshot. -/
def snapshotSteps : List ClusterStep :=
  [.write (.createNodeWithLabels ["P"]), .appendWalEntry true, .setSnapshotGraph (singleNode ["P"]),
    .connect, .sendSnapshot, .receive]

/-- The follower that was away ends with number three and without the second node; the follower of the
snapshot ends with the node and number zero. -/
theorem lsn_of_missedSteps :
    let J := logJson ⟨fun _ => "0.0", fun _ => "0"⟩
    let s := missedSteps.foldl (Cluster.step J) (.new none)
    let s' := snapshotSteps.foldl (Cluster.step J) (.new (some .new))
    (s.currentLsn = 3 ∧ ¬ s.LsnDescribes J) ∧ s'.currentLsn = 0 ∧ ¬ s'.LsnDescribes J := by
  intro J s s'
  refine ⟨⟨by decide +kernel, fun h => ?_⟩, by decide +kernel, fun h => ?_⟩
  · have hnode := congrArg (fun G : GraphContent => (G.nodes 1).isSome) h.content
    exact absurd hnode (by decide +kernel)
  · have hnode := congrArg (fun G : GraphContent => (G.nodes 0).isSome) h.content
    exact absurd hnode (by decide +kernel)

end Maharit
