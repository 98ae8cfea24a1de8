import MaharitDb.Core.Dijkstra

/-!
# A*

`AStar::find_path` of `maharit-core/src/traversal.rs`.  Nodes are taken in the order of the weight so far plus what the
heuristic says of the rest, and a node that has been taken is closed for good: an edge to it is passed over, also when it
offers a smaller weight.  With a heuristic that never overestimates but is not consistent this loses shortest paths.
-/

namespace Maharit

open Walks BestFirst

/-- `AStarEntry`. -/
structure AStarEntry (W : Type) where
  node : NodeId
  gScore : W
  fScore : W
deriving DecidableEq

/-- The state of `find_path` between two turns of its loop. -/
structure AStarState (W : Type) where
  gScores : HashMap NodeId W
  previous : HashMap NodeId (NodeId × EdgeId)
  heap : List (AStarEntry W)
  closed : HashSet NodeId

/-- The heap of the entries; the one of least estimate comes first. -/
abbrev AStarHeap (W : Type) [LE W] := MinHeap (AStarEntry W) W AStarEntry.fScore

variable {W : Type} [AddCommGroup W] [LinearOrder W]

namespace AStarState

/-- An edge of the node that was taken. -/
def relax (weightFn : Edge → W) (heuristic : NodeId → NodeId → W) (stop : NodeId) (entry : AStarEntry W)
    (s : AStarState W) (edge : Edge) : AStarState W :=
  let neighbor := edge.toNode
  if neighbor ∈ s.closed then s
  else
    let tentativeG := entry.gScore + weightFn edge
    if isBelow tentativeG (s.gScores.lookup neighbor) then
      { s with
        gScores := s.gScores.insert neighbor tentativeG
        previous := s.previous.insert neighbor (entry.node, edge.id)
        heap := ⟨neighbor, tentativeG, tentativeG + heuristic neighbor stop⟩ :: s.heap }
    else s

/-- One turn of the loop; its result is the weight of the target and what has been noted. -/
def step (g : Graph) (heap : AStarHeap W) (weightFn : Edge → W) (heuristic : NodeId → NodeId → W) (stop : NodeId)
    (s : AStarState W) : AStarState W ⊕ Option (W × HashMap NodeId (NodeId × EdgeId)) :=
  match heap.pop s.heap with
  | none => .inr none
  | some (entry, rest) =>
      if entry.node = stop then .inr (some (entry.gScore, s.previous))
      else if entry.node ∈ s.closed then .inl { s with heap := rest }
      else
        .inl ((g.getOutgoingEdges entry.node).foldl (relax weightFn heuristic stop entry)
          { s with heap := rest, closed := s.closed.add entry.node })

/-- The state before the loop. -/
def start (heuristic : NodeId → NodeId → W) (start stop : NodeId) : AStarState W where
  gScores := AList.insert start 0 ∅
  previous := ∅
  heap := [⟨start, 0, heuristic start stop⟩]
  closed := ∅

end AStarState

/-- `AStar::find_path`. -/
def Graph.aStarPath (g : Graph) (heap : AStarHeap W) (weightFn : Edge → W) (heuristic : NodeId → NodeId → W) (fuel : ℕ)
    (start stop : NodeId) : Option (Option (WeightedPath W)) :=
  if start = stop then some (some ⟨[start], [], 0⟩)
  else
    Loop.run (AStarState.step g heap weightFn heuristic stop) fuel (AStarState.start heuristic start stop) >>= fun
      | none => some none
      | some (gScore, previous) =>
          (reconstructPath (fun v => previous.lookup v) start stop gScore fuel).map some

namespace AStarState

/-- The entries of the heap as pairs. -/
def entries (s : AStarState W) : List (NodeId × W) := s.heap.map fun entry => (entry.node, entry.gScore)

/-- The search from `source` for `stop` when the edges of `pending` remain. -/
structure Inv (g : Graph) (weightFn : Edge → W) (heuristic : NodeId → NodeId → W) (source stop : NodeId)
    (pending : NodeId → Edge → Prop) (s : AStarState W) : Prop where
  search : BestFirst.Inv (g.arcs weightFn) source (· ∈ s.closed) pending (fun v => s.gScores.lookup v)
    (fun v => s.previous.lookup v) s.entries
  scores : ∀ entry ∈ s.heap, entry.fScore = entry.gScore + heuristic entry.node stop
  waits : stop ∉ s.closed

variable {g : Graph} {weightFn : Edge → W} {heuristic : NodeId → NodeId → W} {source stop : NodeId}

/-- Before the loop. -/
lemma inv_start : Inv g weightFn heuristic source stop NonePending (start heuristic source stop) where
  search := by
    have hclosed : (fun v : NodeId => v ∈ (start heuristic source stop).closed) = fun _ => False := by
      funext v
      exact eq_false (AList.notMem_empty v)
    rw [hclosed]
    refine BestFirst.Inv.init (fun v d => ?_) fun v => rfl
    show (AList.insert source 0 (∅ : HashMap NodeId W)).lookup v = some d ↔ _
    rw [HashMap.lookup_insert_ite]
    by_cases hv : v = source
    · simp [hv, eq_comm]
    · simp [hv]
  scores entry hentry := by
    rw [List.mem_singleton.mp hentry]
    exact (zero_add _).symm
  waits := AList.notMem_empty stop

/-- The entry that is taken has the least estimate. -/
lemma Inv.least {s : AStarState W} {pending : NodeId → Edge → Prop}
    (hs : s.Inv g weightFn heuristic source stop pending) {heap : AStarHeap W} {entry : AStarEntry W}
    {rest : List (AStarEntry W)} (hpop : heap.pop s.heap = some (entry, rest)) :
    s.entries.Perm ((entry.node, entry.gScore) :: { s with heap := rest }.entries) ∧
      ∀ x ∈ s.entries, entry.gScore + heuristic entry.node stop ≤ x.2 + heuristic x.1 stop := by
  have hperm := heap.perm _ _ _ hpop
  refine ⟨hperm.map _, fun x hx => ?_⟩
  obtain ⟨other, hother, rfl⟩ := List.mem_map.mp hx
  have hle := heap.least _ _ _ hpop other hother
  rwa [hs.scores entry (hperm.mem_iff.mpr List.mem_cons_self), hs.scores other hother] at hle

lemma closed_add (closed : HashSet NodeId) (v : NodeId) :
    (fun x : NodeId => x = v ∨ x ∈ closed) = (· ∈ closed.add v) := by
  funext x
  exact propext (HashSet.mem_add ..).symm

/-- Closing the node that is taken out. -/
lemma Inv.close {s : AStarState W} (hs : s.Inv g weightFn heuristic source stop NonePending) {heap : AStarHeap W}
    {entry : AStarEntry W} {rest : List (AStarEntry W)} (hpop : heap.pop s.heap = some (entry, rest))
    (hnode : entry.node ≠ stop) (hd : s.gScores.lookup entry.node = some entry.gScore) :
    ({ s with heap := rest, closed := s.closed.add entry.node } : AStarState W).Inv g weightFn heuristic source stop
      (Pending entry.node (g.getOutgoingEdges entry.node)) := by
  have hsearch := hs.search.close (hs.least hpop).1 hd
  rw [closed_add] at hsearch
  refine ⟨hsearch, fun other hother => ?_, fun hmem => ?_⟩
  · exact hs.scores other ((heap.perm _ _ _ hpop).mem_iff.mpr (List.mem_cons_of_mem _ hother))
  · rcases (HashSet.mem_add ..).mp hmem with heq | hmem
    · exact hnode heq.symm
    · exact hs.waits hmem

variable [IsOrderedAddMonoid W]

/-- An edge of the node that was taken. -/
lemma Inv.relax (hA : (g.arcs weightFn).Nonneg) {entry : AStarEntry W} {edge : Edge} {rest : List Edge}
    {s : AStarState W} (hs : s.Inv g weightFn heuristic source stop (Pending entry.node (edge :: rest)))
    (hclosed : entry.node ∈ s.closed) (hd : s.gScores.lookup entry.node = some entry.gScore)
    (he : edge ∈ g.getOutgoingEdges entry.node) :
    (s.relax weightFn heuristic stop entry edge).Inv g weightFn heuristic source stop (Pending entry.node rest) ∧
      (s.relax weightFn heuristic stop entry edge).closed = s.closed ∧
      (s.relax weightFn heuristic stop entry edge).gScores.lookup entry.node = some entry.gScore := by
  unfold AStarState.relax
  dsimp only
  by_cases hopen : edge.toNode ∈ s.closed
  · rw [if_pos hopen]
    obtain ⟨d', hd'⟩ := hs.search.known _ hopen
    exact ⟨⟨hs.search.keep hd hd' (.inl hopen), hs.scores, hs.waits⟩, rfl, hd⟩
  · rw [if_neg hopen]
    cases hbelow : isBelow (entry.gScore + weightFn edge) (s.gScores.lookup edge.toNode) with
    | false =>
      obtain ⟨d', hle, hd'⟩ := isBelow_eq_false hbelow
      exact ⟨⟨hs.search.keep hd hd' (.inr hle), hs.scores, hs.waits⟩, rfl, hd⟩
    | true =>
      have hne : entry.node ≠ edge.toNode := fun heq => hopen (heq ▸ hclosed)
      simp only [if_true]
      refine ⟨⟨?_, fun other hother => ?_, hs.waits⟩, trivial, ?_⟩
      · exact hs.search.improve hA hclosed he hd hopen (isBelow_eq_true hbelow)
          (fun x => HashMap.lookup_insert_ite ..) fun x => HashMap.lookup_insert_ite ..
      · rcases List.mem_cons.mp hother with rfl | hother
        · rfl
        · exact hs.scores other hother
      · rw [HashMap.lookup_insert_ite, if_neg hne]
        exact hd

/-- The edges of the node that was taken. -/
lemma Inv.foldl (hA : (g.arcs weightFn).Nonneg) {entry : AStarEntry W} {rest : List Edge} {s : AStarState W}
    (hs : s.Inv g weightFn heuristic source stop (Pending entry.node rest)) (hclosed : entry.node ∈ s.closed)
    (hd : s.gScores.lookup entry.node = some entry.gScore)
    (hrest : ∀ edge ∈ rest, edge ∈ g.getOutgoingEdges entry.node) :
    (rest.foldl (AStarState.relax weightFn heuristic stop entry) s).Inv g weightFn heuristic source stop NonePending ∧
      (rest.foldl (AStarState.relax weightFn heuristic stop entry) s).closed = s.closed := by
  induction rest generalizing s with
  | nil => exact ⟨⟨hs.search.done, hs.scores, hs.waits⟩, rfl⟩
  | cons edge rest ih =>
    obtain ⟨hnext, hsame, hd'⟩ := hs.relax hA hclosed hd (hrest edge List.mem_cons_self)
    have hrec := ih hnext (hsame ▸ hclosed) hd' fun e he => hrest e (List.mem_cons_of_mem _ he)
    exact ⟨hrec.1, hrec.2.trans hsame⟩

/-- The nodes that are not closed, and then the entries. -/
def rank (g : Graph) (source : NodeId) (s : AStarState W) : ℕ ×ₗ ℕ :=
  toLex (Loop.unseen (source :: g.nodeIds) s.closed, s.heap.length)

/-- A turn of the loop. -/
lemma Inv.step (h : g.Adjacent) (hA : (g.arcs weightFn).Nonneg) {s s' : AStarState W}
    (hs : s.Inv g weightFn heuristic source stop NonePending) {heap : AStarHeap W}
    (hstep : s.step g heap weightFn heuristic stop = .inl s') :
    s'.Inv g weightFn heuristic source stop NonePending ∧ s'.rank g source < s.rank g source := by
  unfold AStarState.step at hstep
  cases hpop : heap.pop s.heap with
  | none =>
    rw [hpop] at hstep
    cases hstep
  | some popped =>
    obtain ⟨entry, rest⟩ := popped
    rw [hpop] at hstep
    dsimp only at hstep
    obtain ⟨hperm, hleast⟩ := hs.least hpop
    have hheap := heap.perm _ _ _ hpop
    have hmem : (entry.node, entry.gScore) ∈ s.entries := hperm.mem_iff.mpr List.mem_cons_self
    have hscores : ∀ other ∈ rest, other.fScore = other.gScore + heuristic other.node stop := fun other hother =>
      hs.scores other (hheap.mem_iff.mpr (List.mem_cons_of_mem _ hother))
    by_cases hnode : entry.node = stop
    · rw [if_pos hnode] at hstep
      cases hstep
    · rw [if_neg hnode] at hstep
      by_cases hclosed : entry.node ∈ s.closed
      · rw [if_pos hclosed] at hstep
        obtain rfl := Sum.inl.inj hstep
        have hshorter : rest.length < s.heap.length := by
          rw [hheap.length_eq]
          exact Nat.lt_succ_self _
        exact ⟨⟨hs.search.skip hperm hclosed, hscores, hs.waits⟩,
          Prod.Lex.toLex_lt_toLex.mpr (.inr ⟨rfl, hshorter⟩)⟩
      · rw [if_neg hclosed] at hstep
        obtain rfl := Sum.inl.inj hstep
        have hd := hs.search.pop_eq (fun v => heuristic v stop) hmem hleast hclosed
        have hlive : entry.node ∈ source :: g.nodeIds := by
          obtain ⟨es, htrace, -⟩ := hs.search.traced _ _ hd
          rcases h.walk_cases htrace.walk with heq | hmem
          · exact heq ▸ List.mem_cons_self
          · exact List.mem_cons_of_mem _ hmem
        obtain ⟨hfold, hsame⟩ := (hs.close hpop hnode hd).foldl hA ((HashSet.mem_add ..).mpr (.inl rfl)) hd fun e he => he
        refine ⟨hfold, Prod.Lex.toLex_lt_toLex.mpr (.inl ?_)⟩
        rw [hsame]
        exact Loop.unseen_insert_lt () hlive hclosed

/-- What the loop comes to: no path, or the state in which it takes the target. -/
lemma outcome (h : g.Adjacent) (hA : (g.arcs weightFn).Nonneg) (heap : AStarHeap W)
    (heuristic : NodeId → NodeId → W) (source stop : NodeId) :
    ∃ r, WithFuel (fun fuel => Loop.run (step g heap weightFn heuristic stop) fuel (start heuristic source stop))
        (· = some r) ∧
      match r with
      | none => ∀ es, ¬ (g.arcs weightFn).Walk source es stop
      | some found => ∃ s entry rest, Loop.Reached (step g heap weightFn heuristic stop) (start heuristic source stop) s ∧
          heap.pop s.heap = some (entry, rest) ∧ entry.node = stop ∧ found = (entry.gScore, s.previous) := by
  obtain ⟨r, hr, hrun⟩ := Loop.run_withFuel_history (step g heap weightFn heuristic stop)
    (fun (_ : Unit) s => Loop.Reached (step g heap weightFn heuristic stop) (start heuristic source stop) s ∧
      s.Inv g weightFn heuristic source stop NonePending)
    (fun r => match r with
      | none => ∀ es, ¬ (g.arcs weightFn).Walk source es stop
      | some found => ∃ s entry rest, Loop.Reached (step g heap weightFn heuristic stop) (start heuristic source stop) s ∧
          heap.pop s.heap = some (entry, rest) ∧ entry.node = stop ∧ found = (entry.gScore, s.previous))
    (fun _ s => s.rank g source)
    (fun _ s s' hs hstep => by
      obtain ⟨hreached, hs⟩ := hs
      obtain ⟨hs', hlt⟩ := hs.step h hA hstep
      exact ⟨(), ⟨hreached.tail hstep, hs'⟩, hlt⟩)
    (fun _ s r hs hstep => by
      obtain ⟨hreached, hs⟩ := hs
      unfold AStarState.step at hstep
      cases hpop : heap.pop s.heap with
      | none =>
        rw [hpop] at hstep
        obtain rfl := Sum.inr.inj hstep
        have hsearch := hs.search
        rw [entries, heap.pop_eq_none _ hpop, List.map_nil] at hsearch
        exact fun es hwalk => hs.waits (hsearch.closed_of_walk hwalk)
      | some popped =>
        obtain ⟨entry, rest⟩ := popped
        rw [hpop] at hstep
        dsimp only at hstep
        by_cases hnode : entry.node = stop
        · rw [if_pos hnode] at hstep
          obtain rfl := Sum.inr.inj hstep
          exact ⟨s, entry, rest, hreached, hpop, hnode, rfl⟩
        · rw [if_neg hnode] at hstep
          split at hstep <;> cases hstep)
    (h := ()) ⟨.refl, inv_start⟩
  exact ⟨r, hrun, hr⟩

/-- Every state of the run satisfies the invariant. -/
lemma inv_of_reached (h : g.Adjacent) (hA : (g.arcs weightFn).Nonneg) {heap : AStarHeap W} {s : AStarState W}
    (hs : Loop.Reached (step g heap weightFn heuristic stop) (start heuristic source stop) s) :
    s.Inv g weightFn heuristic source stop NonePending := by
  induction hs with
  | refl => exact inv_start
  | tail _ hstep ih => exact (ih.step h hA hstep).1

/-- The target is taken with the weight that it carries. -/
lemma Inv.target {s : AStarState W} (hs : s.Inv g weightFn heuristic source stop NonePending) {heap : AStarHeap W}
    {entry : AStarEntry W} {rest : List (AStarEntry W)} (hpop : heap.pop s.heap = some (entry, rest))
    (hnode : entry.node = stop) : s.gScores.lookup stop = some entry.gScore := by
  obtain ⟨hperm, hleast⟩ := hs.least hpop
  have hd := hs.search.pop_eq (fun v => heuristic v stop) (hperm.mem_iff.mpr List.mem_cons_self) hleast
    (hnode ▸ hs.waits)
  rwa [hnode] at hd

end AStarState

namespace Graph

/-- When the target is taken, the nodes before it on some path of least weight have been closed, each with the weight of
the path up to it. -/
def ClosedInTime (g : Graph) (heap : AStarHeap W) (weightFn : Edge → W) (heuristic : NodeId → NodeId → W)
    (start stop : NodeId) : Prop :=
  ∀ s entry rest, Loop.Reached (AStarState.step g heap weightFn heuristic stop) (AStarState.start heuristic start stop) s →
    heap.pop s.heap = some (entry, rest) → entry.node = stop →
    ∃ nodes es, WalksTo g.EdgeLink start stop nodes es ∧
      (∀ nodes' es', WalksTo g.EdgeLink start stop nodes' es' → (es.map weightFn).sum ≤ (es'.map weightFn).sum) ∧
      ∀ before e after, es = before ++ e :: after →
        e.fromNode ∈ s.closed ∧ s.gScores.lookup e.fromNode = some (before.map weightFn).sum

/-- `AStar::find_path` returns a path of least weight, or none exactly when there is none. -/
def AStarFindsLeast (g : Graph) (heap : AStarHeap W) (weightFn : Edge → W) (heuristic : NodeId → NodeId → W)
    (start stop : NodeId) : Prop :=
  ∃ result, WithFuel (fun fuel => g.aStarPath heap weightFn heuristic fuel start stop) (· = some result) ∧
    g.FindsLeastPath weightFn start stop result

variable [IsOrderedAddMonoid W]

/-- With a consistent heuristic the nodes are closed with their least weights. -/
lemma settled_of_reached {g : Graph} {heap : AStarHeap W} {weightFn : Edge → W} {heuristic : NodeId → NodeId → W}
    {start stop : NodeId} (h : g.Adjacent) (hA : (g.arcs weightFn).Nonneg)
    (hconsistent : Consistent (g.arcs weightFn) fun v => heuristic v stop) {s : AStarState W}
    (hs : Loop.Reached (AStarState.step g heap weightFn heuristic stop) (AStarState.start heuristic start stop) s) :
    ∃ level, Settled (g.arcs weightFn) (fun v => heuristic v stop) (· ∈ s.closed) level (fun v => s.gScores.lookup v)
      s.entries := by
  have hrelax : ∀ (entry : AStarEntry W) (rest : List Edge) (s : AStarState W),
      s.Inv g weightFn heuristic start stop (Pending entry.node rest) → entry.node ∈ s.closed →
      s.gScores.lookup entry.node = some entry.gScore → (∀ e ∈ rest, e ∈ g.getOutgoingEdges entry.node) →
      Settled (g.arcs weightFn) (fun v => heuristic v stop) (· ∈ s.closed)
        (entry.gScore + heuristic entry.node stop) (fun v => s.gScores.lookup v) s.entries →
      Settled (g.arcs weightFn) (fun v => heuristic v stop)
        (· ∈ (rest.foldl (AStarState.relax weightFn heuristic stop entry) s).closed)
        (entry.gScore + heuristic entry.node stop)
        (fun v => (rest.foldl (AStarState.relax weightFn heuristic stop entry) s).gScores.lookup v)
        (rest.foldl (AStarState.relax weightFn heuristic stop entry) s).entries := by
    intro entry rest
    induction rest with
    | nil => exact fun s _ _ _ _ hsettled => hsettled
    | cons e rest ih =>
      intro s hs hclosed hd hrest hsettled
      have he := hrest e List.mem_cons_self
      obtain ⟨hs', hsame, hd'⟩ := hs.relax hA hclosed hd he
      refine ih _ hs' (hsame ▸ hclosed) hd' (fun x hx => hrest x (List.mem_cons_of_mem _ hx)) ?_
      unfold AStarState.relax
      dsimp only
      split
      · exact hsettled
      · next hopen =>
        split
        · refine hsettled.improve hconsistent he rfl hopen fun x hx => ?_
          exact (HashMap.lookup_insert_ite ..).trans (if_neg hx)
        · exact hsettled
  induction hs with
  | refl =>
    refine ⟨heuristic start stop, fun v _ hv => absurd hv (AList.notMem_empty v), fun x hx => ?_,
      fun u _ hu => absurd hu (AList.notMem_empty u)⟩
    rw [List.mem_singleton.mp hx]
    exact (zero_add _).ge
  | @tail s s' hreached hstep ih =>
    obtain ⟨level, hsettled⟩ := ih
    have hs := AStarState.inv_of_reached h hA hreached
    unfold AStarState.step at hstep
    cases hpop : heap.pop s.heap with
    | none =>
      rw [hpop] at hstep
      cases hstep
    | some popped =>
      obtain ⟨entry, rest⟩ := popped
      rw [hpop] at hstep
      dsimp only at hstep
      obtain ⟨hperm, hleast⟩ := hs.least hpop
      by_cases hnode : entry.node = stop
      · rw [if_pos hnode] at hstep
        cases hstep
      · rw [if_neg hnode] at hstep
        by_cases hclosed : entry.node ∈ s.closed
        · rw [if_pos hclosed] at hstep
          obtain rfl := Sum.inl.inj hstep
          exact ⟨level, hsettled.skip hperm⟩
        · rw [if_neg hclosed] at hstep
          obtain rfl := Sum.inl.inj hstep
          have hd := hs.search.pop_eq (fun v => heuristic v stop) (hperm.mem_iff.mpr List.mem_cons_self) hleast hclosed
          refine ⟨_, hrelax entry _ _ (hs.close hpop hnode hd) ((HashSet.mem_add ..).mpr (.inl rfl)) hd
            (fun e he => he) ?_⟩
          have hclose := hsettled.close hconsistent hs.search hperm hleast hd hclosed
          rwa [AStarState.closed_add] at hclose

/-- A consistent heuristic closes the nodes in time. -/
theorem closedInTime_of_consistent {g : Graph} (heap : AStarHeap W) {weightFn : Edge → W}
    {heuristic : NodeId → NodeId → W} {start stop : NodeId} (h : g.Adjacent) (hA : (g.arcs weightFn).Nonneg)
    (hconsistent : Consistent (g.arcs weightFn) fun v => heuristic v stop) :
    g.ClosedInTime heap weightFn heuristic start stop := by
  intro s entry rest hreached hpop hnode
  have hs := AStarState.inv_of_reached h hA hreached
  obtain ⟨level, hsettled⟩ := settled_of_reached h hA hconsistent hreached
  obtain ⟨-, hleast⟩ := hs.least hpop
  obtain ⟨es, htrace, hcost⟩ := hs.search.traced _ _ (hs.target hpop hnode)
  refine ⟨_, es, (h.walksTo_arcs weightFn).mpr ⟨rfl, htrace.walk⟩, fun nodes' es' hwalk' => ?_,
    fun before e after hsplit => ?_⟩
  · have hwalk := ((h.walksTo_arcs weightFn).mp hwalk').2
    exact hcost.le.trans (hsettled.least_of_pop hconsistent hs.search hleast (hnode ▸ hs.waits) (hnode ▸ hwalk))
  · obtain ⟨x, -, he, hclosed, hcarried⟩ := htrace.carried hs.search.linked hsplit
    rw [((h.mem_outgoing x e).mp he).2]
    exact ⟨hclosed, hcarried⟩

/-! ## A heuristic that is admissible but not consistent -/

/-- The heuristic never overestimates what remains to the target. -/
def Admissible (g : Graph) (weightFn : Edge → W) (heuristic : NodeId → NodeId → W) (stop : NodeId) : Prop :=
  ∀ v nodes es, WalksTo g.EdgeLink v stop nodes es → heuristic v stop ≤ (es.map weightFn).sum

omit [IsOrderedAddMonoid W] in
/-- A result stays the result with more fuel. -/
lemma aStarPath_of_le {g : Graph} {heap : AStarHeap W} {weightFn : Edge → W} {heuristic : NodeId → NodeId → W}
    {start stop : NodeId} {n m : ℕ} {r : Option (WeightedPath W)}
    (hr : g.aStarPath heap weightFn heuristic n start stop = some r) (hle : n ≤ m) :
    g.aStarPath heap weightFn heuristic m start stop = some r := by
  unfold Graph.aStarPath at hr ⊢
  split at hr
  · next heq => rwa [if_pos heq]
  · next heq =>
    rw [if_neg heq]
    obtain ⟨found, hrun, hback⟩ := Option.bind_eq_some_iff.mp hr
    refine Option.bind_eq_some_iff.mpr ⟨found, Loop.run_of_le hrun hle, ?_⟩
    cases found with
    | none => exact hback
    | some found =>
      obtain ⟨path, hpath, rfl⟩ := Option.map_eq_some_iff.mp hback
      obtain ⟨read, hread, rfl⟩ := Option.map_eq_some_iff.mp hpath
      exact Option.map_eq_some_iff.mpr ⟨_, Option.map_eq_some_iff.mpr ⟨read, Loop.run_of_le hread hle, rfl⟩, rfl⟩

/-- A road to the end that meets the detour over another node on its way. -/
def crossroads : Graph :=
  ofCalls [.createNodeWithLabels ["City"], .createNodeWithLabels ["City"], .createNodeWithLabels ["City"],
    .createNodeWithLabels ["City"], .createEdge 0 1 "ROAD", .createEdge 0 2 "ROAD", .createEdge 1 2 "ROAD",
    .createEdge 2 3 "ROAD"]

/-- The detour is the shorter way to where the roads meet. -/
def crossroadsWeight (e : Edge) : ℤ := if e.id = 0 ∨ e.id = 2 then 1 else 3

/-- Exact on the detour, and nothing elsewhere. -/
def crossroadsHeuristic (v _stop : NodeId) : ℤ := if v = 1 then 4 else 0

/-- What remains from each node. -/
def crossroadsRest (v : NodeId) : ℤ := if v = 0 then 5 else if v = 1 then 4 else if v = 2 then 3 else 0

end Graph

end Maharit
