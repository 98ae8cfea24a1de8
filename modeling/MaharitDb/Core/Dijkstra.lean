import Mathlib.Data.Prod.Lex
import MaharitDb.Core.WeightedPath

/-!
# Dijkstra's algorithm

`Dijkstra::find_path` and `Dijkstra::distances_from` of `maharit-core/src/traversal.rs`.  Both take nodes from a heap in
the order of their distances and pass over entries that have become stale; the first also notes the edges and ends when
it takes the target.  The distances are vectors over the slots of the nodes, where `none` is infinity.
-/

namespace Maharit

open Walks BestFirst

/-- `DijkstraEntry`. -/
structure DijkstraEntry (W : Type) where
  node : NodeId
  distance : W
deriving DecidableEq

/-- The state of `find_path` between two turns of its loop. -/
structure DijkstraState (W : Type) where
  distances : List (Option W)
  previous : List (Option (NodeId × EdgeId))
  heap : List (DijkstraEntry W)

/-- The heap of the entries; the one of least distance comes first. -/
abbrev DijkstraHeap (W : Type) [LE W] := MinHeap (DijkstraEntry W) W DijkstraEntry.distance

variable {W : Type} [AddCommGroup W] [LinearOrder W]

/-- A shorter path to the node has been found since the entry was made. -/
def isStale (distances : List (Option W)) (entry : DijkstraEntry W) : Bool :=
  match distances.getD entry.node.toNat none with
  | some d => decide (d < entry.distance)
  | none => false

namespace DijkstraState

/-- An edge of the node that was taken. -/
def relax (weightFn : Edge → W) (entry : DijkstraEntry W) (s : DijkstraState W) (edge : Edge) : DijkstraState W :=
  let nextDistance := entry.distance + weightFn edge
  let neighbor := edge.toNode.toNat
  if isBelow nextDistance (s.distances.getD neighbor none) then
    { distances := s.distances.set neighbor (some nextDistance)
      previous := s.previous.set neighbor (some (entry.node, edge.id))
      heap := ⟨edge.toNode, nextDistance⟩ :: s.heap }
  else s

/-- A node that is not the target. -/
def turn (g : Graph) (weightFn : Edge → W) (entry : DijkstraEntry W) (s : DijkstraState W) : DijkstraState W :=
  if isStale s.distances entry then s
  else (g.getOutgoingEdges entry.node).foldl (relax weightFn entry) s

/-- One turn of the loop of `find_path`; its result is the distance of the target and what has been noted. -/
def step (g : Graph) (heap : DijkstraHeap W) (weightFn : Edge → W) (stop : NodeId) (s : DijkstraState W) :
    DijkstraState W ⊕ Option (W × List (Option (NodeId × EdgeId))) :=
  match heap.pop s.heap with
  | none => .inr none
  | some (entry, rest) =>
      if entry.node = stop then .inr (some (entry.distance, s.previous))
      else .inl (turn g weightFn entry { s with heap := rest })

/-- The state before the loop. -/
def start (g : Graph) (start : NodeId) : DijkstraState W where
  distances := (List.replicate g.nodes.length none).set start.toNat (some 0)
  previous := List.replicate g.nodes.length none
  heap := [⟨start, 0⟩]

end DijkstraState

namespace Graph

/-- `Dijkstra::find_path`; a start node without a slot makes it panic. -/
def dijkstraPath (g : Graph) (heap : DijkstraHeap W) (weightFn : Edge → W) (fuel : ℕ) (start stop : NodeId) :
    Option (Option (WeightedPath W)) :=
  if start = stop then some (some ⟨[start], [], 0⟩)
  else if g.nodes.length ≤ start.toNat then none
  else
    Loop.run (DijkstraState.step g heap weightFn stop) fuel (DijkstraState.start g start) >>= fun
      | none => some none
      | some (distance, previous) =>
          (reconstructPath (fun v => previous.getD v.toNat none) start stop distance fuel).map some

/-- An edge of the node that was taken, when only the distances are wanted. -/
def relaxDistance (weightFn : Edge → W) (entry : DijkstraEntry W) (s : List (Option W) × List (DijkstraEntry W))
    (edge : Edge) : List (Option W) × List (DijkstraEntry W) :=
  let nextDistance := entry.distance + weightFn edge
  let neighbor := edge.toNode.toNat
  if neighbor < s.1.length ∧ isBelow nextDistance (s.1.getD neighbor none) then
    (s.1.set neighbor (some nextDistance), ⟨edge.toNode, nextDistance⟩ :: s.2)
  else s

/-- One turn of the loop of `distances_from`. -/
def distancesStep (g : Graph) (heap : DijkstraHeap W) (weightFn : Edge → W)
    (s : List (Option W) × List (DijkstraEntry W)) : List (Option W) × List (DijkstraEntry W) ⊕ List (Option W) :=
  match heap.pop s.2 with
  | none => .inr s.1
  | some (entry, rest) =>
      if s.1.length ≤ entry.node.toNat ∨ isStale s.1 entry then .inl (s.1, rest)
      else .inl ((g.getOutgoingEdges entry.node).foldl (relaxDistance weightFn entry) (s.1, rest))

/-- The finite distances of the live nodes. -/
def finiteDistances (g : Graph) (distances : List (Option W)) : HashMap NodeId W :=
  g.nodeIds.foldl (fun m id =>
    match distances.getD id.toNat none with
    | some d => m.insert id d
    | none => m) ∅

/-- `Dijkstra::distances_from`. -/
def dijkstraDistances (g : Graph) (heap : DijkstraHeap W) (weightFn : Edge → W) (fuel : ℕ) (start : NodeId) :
    Option (HashMap NodeId W) :=
  (Loop.run (distancesStep g heap weightFn) fuel
    ((List.replicate g.nodes.length none).set start.toNat (some 0), [⟨start, 0⟩])).map g.finiteDistances

end Graph

/-! ## The invariant of the search -/

namespace DijkstraState

/-- The distance of a node. -/
def dist (s : DijkstraState W) (v : NodeId) : Option W := s.distances.getD v.toNat none

/-- The edge noted at a node. -/
def prev (s : DijkstraState W) (v : NodeId) : Option (NodeId × EdgeId) := s.previous.getD v.toNat none

/-- The entries of the heap as pairs. -/
def entries (s : DijkstraState W) : List (NodeId × W) := s.heap.map fun entry => (entry.node, entry.distance)

/-- The search from `source` when the nodes of `closed` have been taken and the edges of `pending` remain. -/
structure Inv (g : Graph) (weightFn : Edge → W) (source : NodeId) (closed : HashSet NodeId) (level : W)
    (pending : NodeId → Edge → Prop) (s : DijkstraState W) : Prop where
  slots : s.distances.length = g.nodes.length ∧ s.previous.length = g.nodes.length
  search : BestFirst.Inv (g.arcs weightFn) source (· ∈ closed) pending s.dist s.prev s.entries
  settled : Settled (g.arcs weightFn) (fun _ => 0) (· ∈ closed) level s.dist s.entries

/-- The entry that is taken has the least distance. -/
lemma least_entries {heap : DijkstraHeap W} {s : DijkstraState W} {entry : DijkstraEntry W}
    {rest : List (DijkstraEntry W)} (hpop : heap.pop s.heap = some (entry, rest)) :
    s.entries.Perm ((entry.node, entry.distance) :: { s with heap := rest }.entries) ∧
      ∀ x ∈ s.entries, entry.distance + 0 ≤ x.2 + 0 := by
  refine ⟨(heap.perm _ _ _ hpop).map _, fun x hx => ?_⟩
  obtain ⟨other, hother, rfl⟩ := List.mem_map.mp hx
  rw [add_zero, add_zero]
  exact heap.least _ _ _ hpop other hother

variable {g : Graph} {weightFn : Edge → W} {source : NodeId} {closed : HashSet NodeId} {level : W}

/-- Before the loop. -/
lemma inv_start (hsource : source.toNat < g.nodes.length) :
    Inv g weightFn source ∅ 0 NonePending (start g source) := by
  have hdist : ∀ v, (start g source : DijkstraState W).dist v = if v = source then some 0 else none := by
    intro v
    rw [dist, start, Graph.getD_set_uint _ _ _ _ _ (by simpa using hsource)]
    refine if_congr Iff.rfl rfl ?_
    rw [List.getD_eq_getElem?_getD, List.getElem?_replicate]
    split <;> rfl
  have hprev : ∀ v, (start g source : DijkstraState W).prev v = none := by
    intro v
    rw [prev, start, List.getD_eq_getElem?_getD, List.getElem?_replicate]
    split <;> rfl
  have hnone : ∀ v : NodeId, v ∉ (∅ : HashSet NodeId) := fun v => AList.notMem_empty v
  have hinit : BestFirst.Inv (g.arcs weightFn) source (fun _ => False) NonePending (start g source).dist
      (start g source).prev [(source, 0)] := BestFirst.Inv.init (fun v d => by
    rw [hdist]
    by_cases hv : v = source
    · simp [hv, eq_comm]
    · simp [hv]) hprev
  refine ⟨by simp [start], ?_, fun v _ hv => absurd hv (hnone v), fun x hx => ?_, fun u _ hu => absurd hu (hnone u)⟩
  · have hclosed : (fun v : NodeId => v ∈ (∅ : HashSet NodeId)) = fun _ => False := by
      funext v
      exact eq_false (hnone v)
    rw [hclosed]
    exact hinit
  · rw [List.mem_singleton.mp hx]
    exact (zero_add (0 : W)).ge

/-- The edges of a node that was taken before lead to no shorter path. -/
lemma Inv.foldl_closed {s : DijkstraState W} (hs : s.Inv g weightFn source closed level NonePending)
    {entry : DijkstraEntry W} (hclosed : entry.node ∈ closed) (hd : s.dist entry.node = some entry.distance)
    {rest : List Edge} (hrest : ∀ edge ∈ rest, edge ∈ g.getOutgoingEdges entry.node) :
    rest.foldl (DijkstraState.relax weightFn entry) s = s := by
  induction rest with
  | nil => rfl
  | cons edge rest ih =>
    have he := hrest edge List.mem_cons_self
    obtain ⟨d', hd', hor⟩ := hs.search.relaxed _ _ hclosed hd edge he id
    have hle : d' ≤ entry.distance + weightFn edge :=
      hor.elim (fun hc => hs.settled.final _ _ hclosed hd edge he hc d' hd') id
    have hsame : s.relax weightFn entry edge = s := by
      unfold DijkstraState.relax
      dsimp only
      have hbelow : isBelow (entry.distance + weightFn edge) (s.distances.getD edge.toNode.toNat none) = false := by
        rw [show s.distances.getD edge.toNode.toNat none = some d' from hd']
        exact decide_eq_false (not_lt.mpr hle)
      rw [hbelow]
      rfl
    rw [List.foldl_cons, hsame]
    exact ih fun e he => hrest e (List.mem_cons_of_mem _ he)

variable [IsOrderedAddMonoid W]

/-- An edge of the node that was taken. -/
lemma Inv.relax (h : g.Adjacent) (hA : (g.arcs weightFn).Nonneg) {entry : DijkstraEntry W} {edge : Edge}
    {rest : List Edge} {s : DijkstraState W} (hs : s.Inv g weightFn source closed level (Pending entry.node (edge :: rest)))
    (hclosed : entry.node ∈ closed) (hlevel : level = entry.distance + 0) (hd : s.dist entry.node = some entry.distance)
    (he : edge ∈ g.getOutgoingEdges entry.node) :
    (s.relax weightFn entry edge).Inv g weightFn source closed level (Pending entry.node rest) ∧
      (s.relax weightFn entry edge).dist entry.node = some entry.distance := by
  have htarget : edge.toNode.toNat < g.nodes.length :=
    Graph.toNat_lt_of_getNode ((h.mem_nodeIds _).mp (h.toNode_mem edge ((h.mem_outgoing _ _).mp he).1))
  unfold DijkstraState.relax
  dsimp only
  cases hbelow : isBelow (entry.distance + weightFn edge) (s.distances.getD edge.toNode.toNat none) with
  | false =>
    obtain ⟨d', hle, hd'⟩ := isBelow_eq_false hbelow
    exact ⟨⟨hs.slots, hs.search.keep hd hd' (.inr hle), hs.settled⟩, hd⟩
  | true =>
    have hless := isBelow_eq_true hbelow
    have hopen : edge.toNode ∉ closed := by
      intro hmem
      obtain ⟨d', hd'⟩ := hs.search.known _ hmem
      exact absurd (hless d' hd') (not_lt.mpr (hs.settled.final _ _ hclosed hd edge he hmem d' hd'))
    have hne : entry.node ≠ edge.toNode := fun heq => hopen (heq ▸ hclosed)
    simp only [if_true]
    set s' : DijkstraState W :=
      { distances := s.distances.set edge.toNode.toNat (some (entry.distance + weightFn edge))
        previous := s.previous.set edge.toNode.toNat (some (entry.node, edge.id))
        heap := ⟨edge.toNode, entry.distance + weightFn edge⟩ :: s.heap } with hs'
    have hdist' : ∀ x, s'.dist x = if x = edge.toNode then some (entry.distance + weightFn edge) else s.dist x :=
      fun x => Graph.getD_set_uint _ _ _ _ _ (hs.slots.1 ▸ htarget)
    have hprev' : ∀ x, s'.prev x = if x = edge.toNode then some (entry.node, edge.id) else s.prev x :=
      fun x => Graph.getD_set_uint _ _ _ _ _ (hs.slots.2 ▸ htarget)
    refine ⟨⟨?_, ?_, ?_⟩, ?_⟩
    · rw [hs', List.length_set, List.length_set]
      exact hs.slots
    · exact hs.search.improve hA hclosed he hd hopen hless hdist' hprev'
    · exact hs.settled.improve (Graph.consistent_zero hA) he hlevel hopen fun x hx =>
        (hdist' x).trans (if_neg hx)
    · rw [hdist', if_neg hne]
      exact hd

/-- The edges of the node that was taken. -/
lemma Inv.foldl (h : g.Adjacent) (hA : (g.arcs weightFn).Nonneg) {entry : DijkstraEntry W} {rest : List Edge}
    {s : DijkstraState W} (hs : s.Inv g weightFn source closed level (Pending entry.node rest))
    (hclosed : entry.node ∈ closed) (hlevel : level = entry.distance + 0) (hd : s.dist entry.node = some entry.distance)
    (hrest : ∀ edge ∈ rest, edge ∈ g.getOutgoingEdges entry.node) :
    (rest.foldl (DijkstraState.relax weightFn entry) s).Inv g weightFn source closed level NonePending := by
  induction rest generalizing s with
  | nil => exact ⟨hs.slots, hs.search.done, hs.settled⟩
  | cons edge rest ih =>
    obtain ⟨hnext, hd'⟩ := hs.relax h hA hclosed hlevel hd (hrest edge List.mem_cons_self)
    exact ih hnext hd' fun e he => hrest e (List.mem_cons_of_mem _ he)

/-- The nodes that have not been taken, and then the entries. -/
def rank (g : Graph) (closed : HashSet NodeId) (heap : List (DijkstraEntry W)) : ℕ ×ₗ ℕ :=
  toLex (Loop.unseen g.nodeIds closed, heap.length)

/-- A turn of the loop. -/
lemma Inv.turn (h : g.Adjacent) (hA : (g.arcs weightFn).Nonneg) (hsource : source ∈ g.nodeIds) {s : DijkstraState W}
    (hs : s.Inv g weightFn source closed level NonePending) {heap : DijkstraHeap W} {entry : DijkstraEntry W}
    {rest : List (DijkstraEntry W)} (hpop : heap.pop s.heap = some (entry, rest)) :
    ∃ closed' level', (DijkstraState.turn g weightFn entry { s with heap := rest }).Inv g weightFn source closed' level'
        NonePending ∧
      rank g closed' (DijkstraState.turn g weightFn entry { s with heap := rest }).heap < rank g closed s.heap ∧
      ∀ v ∈ closed', v = entry.node ∨ v ∈ closed := by
  obtain ⟨hperm, hleast⟩ := least_entries hpop
  have hshorter : rest.length < s.heap.length := by
    rw [(heap.perm _ _ _ hpop).length_eq]
    exact Nat.lt_succ_self _
  have hmem : (entry.node, entry.distance) ∈ s.entries := hperm.mem_iff.mpr List.mem_cons_self
  by_cases hclosed : entry.node ∈ closed
  · have hskip : ({ s with heap := rest } : DijkstraState W).Inv g weightFn source closed level NonePending :=
      ⟨hs.slots, hs.search.skip hperm hclosed, hs.settled.skip hperm⟩
    have hsame : DijkstraState.turn g weightFn entry { s with heap := rest } = { s with heap := rest } := by
      unfold DijkstraState.turn
      split
      · rfl
      · next hstale =>
        obtain ⟨d', hle, hd'⟩ := hs.search.bound _ _ hmem
        have hd : s.dist entry.node = some entry.distance := by
          rw [hd']
          have hnot : ¬ d' < entry.distance := by
            intro hlt
            refine hstale ?_
            rw [isStale, show s.distances.getD entry.node.toNat none = some d' from hd']
            exact decide_eq_true hlt
          rw [le_antisymm hle (not_lt.mp hnot)]
        exact hskip.foldl_closed hclosed hd fun e he => he
    rw [hsame]
    exact ⟨closed, level, hskip, Prod.Lex.toLex_lt_toLex.mpr (.inr ⟨rfl, hshorter⟩), fun v hv => .inr hv⟩
  · have hd : s.dist entry.node = some entry.distance :=
      hs.search.pop_eq (fun _ => 0) hmem hleast hclosed
    have hlive : entry.node ∈ g.nodeIds := by
      obtain ⟨es, htrace, -⟩ := hs.search.traced _ _ hd
      exact h.walk_mem htrace.walk hsource
    have hfresh : isStale s.distances entry = false := by
      rw [isStale, show s.distances.getD entry.node.toNat none = some entry.distance from hd]
      exact decide_eq_false (lt_irrefl _)
    have hsets : (fun x : NodeId => x = entry.node ∨ x ∈ closed) = (· ∈ closed.add entry.node) := by
      funext x
      exact propext (HashSet.mem_add ..).symm
    have hclose : ({ s with heap := rest } : DijkstraState W).Inv g weightFn source (closed.add entry.node)
        (entry.distance + 0) (Pending entry.node (g.getOutgoingEdges entry.node)) := by
      have hsearch := hs.search.close hperm hd
      have hsettled := hs.settled.close (Graph.consistent_zero hA) hs.search hperm hleast hd hclosed
      rw [hsets] at hsearch hsettled
      exact ⟨hs.slots, hsearch, hsettled⟩
    have hfold := hclose.foldl h hA ((HashSet.mem_add ..).mpr (.inl rfl)) rfl hd fun e he => he
    have hturn : DijkstraState.turn g weightFn entry { s with heap := rest } =
        (g.getOutgoingEdges entry.node).foldl (DijkstraState.relax weightFn entry) { s with heap := rest } := by
      unfold DijkstraState.turn
      simp [hfresh]
    rw [hturn]
    refine ⟨closed.add entry.node, _, hfold, ?_, fun v hv => (HashSet.mem_add ..).mp hv⟩
    exact Prod.Lex.toLex_lt_toLex.mpr (.inl (Loop.unseen_insert_lt () hlive hclosed))

end DijkstraState

namespace Graph

variable {g : Graph} {weightFn : Edge → W} {start : NodeId}

/-- Without the noted edges the edges of a node do the same. -/
lemma foldl_relaxDistance {entry : DijkstraEntry W} {edges : List Edge} {s : DijkstraState W}
    (hedges : ∀ e ∈ edges, e.toNode.toNat < s.distances.length) :
    edges.foldl (relaxDistance weightFn entry) (s.distances, s.heap) =
      ((edges.foldl (DijkstraState.relax weightFn entry) s).distances,
        (edges.foldl (DijkstraState.relax weightFn entry) s).heap) := by
  induction edges generalizing s with
  | nil => rfl
  | cons e edges ih =>
    have he := hedges e List.mem_cons_self
    have hone : relaxDistance weightFn entry (s.distances, s.heap) e =
        ((s.relax weightFn entry e).distances, (s.relax weightFn entry e).heap) := by
      unfold relaxDistance DijkstraState.relax
      dsimp only
      cases hbelow : isBelow (entry.distance + weightFn e) (s.distances.getD e.toNode.toNat none) with
      | false => simp
      | true => simp [he]
    have hlength : (s.relax weightFn entry e).distances.length = s.distances.length := by
      unfold DijkstraState.relax
      dsimp only
      split
      · exact List.length_set
      · rfl
    rw [List.foldl_cons, hone, List.foldl_cons]
    refine ih fun e' he' => ?_
    rw [hlength]
    exact hedges e' (List.mem_cons_of_mem _ he')

omit [AddCommGroup W] [LinearOrder W] in
/-- The finite distances of the live nodes. -/
lemma lookup_finiteDistances (distances : List (Option W)) (v : NodeId) :
    (g.finiteDistances distances).lookup v = if v ∈ g.nodeIds then distances.getD v.toNat none else none := by
  have hfold : ∀ (ids : List NodeId) (m : HashMap NodeId W),
      (ids.foldl (fun m id =>
        match distances.getD id.toNat none with
        | some d => m.insert id d
        | none => m) m).lookup v = if v ∈ ids then (distances.getD v.toNat none).or (m.lookup v) else m.lookup v := by
    intro ids
    induction ids with
    | nil => simp
    | cons id ids ih =>
      intro m
      have hone : (match distances.getD id.toNat none with
          | some d => m.insert id d
          | none => m).lookup v = if v = id then (distances.getD v.toNat none).or (m.lookup v) else m.lookup v := by
        by_cases hv : v = id
        · subst hv
          cases distances.getD v.toNat none with
          | none => simp
          | some d => simp
        · cases distances.getD id.toNat none with
          | none => simp [hv]
          | some d => simp [hv]
      rw [List.foldl_cons, ih, hone]
      by_cases hv : v = id
      · cases distances.getD v.toNat none <;> simp [hv]
      · simp [hv]
  rw [finiteDistances, hfold]
  simp

variable [IsOrderedAddMonoid W]

/-! ## The shortest path -/

lemma Adjacent.toNat_lt (h : g.Adjacent) {v : NodeId} (hv : v ∈ g.nodeIds) : v.toNat < g.nodes.length :=
  toNat_lt_of_getNode ((h.mem_nodeIds v).mp hv)

theorem Adjacent.dijkstraPath (h : g.Adjacent) (hA : (g.arcs weightFn).Nonneg) (heap : DijkstraHeap W)
    (hstart : start ∈ g.nodeIds) (stop : NodeId) :
    ∃ result, g.FindsLeastPath weightFn start stop result ∧
      WithFuel (fun fuel => g.dijkstraPath heap weightFn fuel start stop) (· = some result) := by
  unfold Graph.dijkstraPath
  by_cases heq : start = stop
  · subst heq
    have htrivial : WalksTo g.EdgeLink start start [start] [] := ⟨trivial, rfl, rfl⟩
    refine ⟨some ⟨[start], [], 0⟩, ⟨⟨fun _ => ⟨_, _, htrivial⟩, fun _ => rfl⟩, fun path hpath => ?_⟩,
      WithFuel.of_forall fun _ => if_pos rfl⟩
    obtain rfl := Option.some.inj hpath
    refine ⟨⟨[], htrivial, rfl, rfl⟩, fun nodes es hwalk => ?_⟩
    exact ((h.walksTo_arcs weightFn).mp hwalk).2.cost_nonneg hA
  · have hslot := h.toNat_lt hstart
    simp only [if_neg heq, if_neg (not_le.mpr hslot)]
    obtain ⟨r, hr, hrun⟩ := Loop.run_withFuel_history (DijkstraState.step g heap weightFn stop)
      (fun (γ : HashSet NodeId × W) s => stop ∉ γ.1 ∧ s.Inv g weightFn start γ.1 γ.2 NonePending)
      (fun r => match r with
        | none => ∀ es, ¬ (g.arcs weightFn).Walk start es stop
        | some (d, previous) => ∃ dist es,
            (g.arcs weightFn).Trace dist (fun v => previous.getD v.toNat none) start stop es ∧
              (g.arcs weightFn).cost es = d ∧ ∀ es', (g.arcs weightFn).Walk start es' stop → d ≤ (g.arcs weightFn).cost es')
      (fun γ s => DijkstraState.rank g γ.1 s.heap)
      (fun γ s s' hs hstep => by
        obtain ⟨hstop, hs⟩ := hs
        unfold DijkstraState.step at hstep
        cases hpop : heap.pop s.heap with
        | none =>
          rw [hpop] at hstep
          cases hstep
        | some popped =>
          obtain ⟨entry, rest⟩ := popped
          rw [hpop] at hstep
          dsimp only at hstep
          by_cases hnode : entry.node = stop
          · rw [if_pos hnode] at hstep
            cases hstep
          · rw [if_neg hnode] at hstep
            obtain rfl := Sum.inl.inj hstep
            obtain ⟨closed', level', hs', hlt, hsub⟩ := hs.turn h hA hstart hpop
            refine ⟨(closed', level'), ⟨fun hmem => ?_, hs'⟩, hlt⟩
            rcases hsub stop hmem with hsame | hmem
            · exact hnode hsame.symm
            · exact hstop hmem)
      (fun γ s r hs hstep => by
        obtain ⟨hstop, hs⟩ := hs
        unfold DijkstraState.step at hstep
        cases hpop : heap.pop s.heap with
        | none =>
          rw [hpop] at hstep
          obtain rfl := Sum.inr.inj hstep
          have hempty : s.entries = [] := by
            rw [DijkstraState.entries, heap.pop_eq_none _ hpop, List.map_nil]
          have hsearch := hs.search
          rw [hempty] at hsearch
          exact fun es hwalk => hstop (hsearch.closed_of_walk hwalk)
        | some popped =>
          obtain ⟨entry, rest⟩ := popped
          rw [hpop] at hstep
          dsimp only at hstep
          by_cases hnode : entry.node = stop
          · rw [if_pos hnode] at hstep
            obtain rfl := Sum.inr.inj hstep
            obtain ⟨hperm, hleast⟩ := DijkstraState.least_entries hpop
            have hmem : (entry.node, entry.distance) ∈ s.entries := hperm.mem_iff.mpr List.mem_cons_self
            have hopen : entry.node ∉ γ.1 := hnode ▸ hstop
            have hd := hs.search.pop_eq (fun _ => 0) hmem hleast hopen
            obtain ⟨es, htrace, hcost⟩ := hs.search.traced _ _ hd
            rw [hnode] at htrace
            refine ⟨s.dist, es, htrace, hcost, fun es' hwalk => ?_⟩
            exact hs.settled.least_of_pop (consistent_zero hA) hs.search hleast hopen (hnode ▸ hwalk)
          · rw [if_neg hnode] at hstep
            cases hstep)
      (h := (∅, 0)) ⟨AList.notMem_empty stop, DijkstraState.inv_start hslot⟩
    cases r with
    | none =>
      have hunreachable : ¬ ∃ nodes es, WalksTo g.EdgeLink start stop nodes es := by
        rw [h.exists_walksTo_iff weightFn]
        exact fun ⟨es, hwalk⟩ => hr es hwalk
      exact ⟨none, ⟨iff_of_false (fun hsome => by cases hsome) hunreachable, fun path hpath => by cases hpath⟩,
        Loop.bind_withFuel hrun (WithFuel.of_forall fun _ => rfl)⟩
    | some found =>
      obtain ⟨d, previous⟩ := found
      obtain ⟨dist, es, htrace, rfl, hleast⟩ := hr
      obtain ⟨path, hwalk, hedges, hweight, hback⟩ := h.reconstruct htrace
      refine ⟨some path, ⟨⟨fun _ => ⟨_, _, hwalk⟩, fun _ => rfl⟩, fun path' hpath => ?_⟩,
        Loop.bind_withFuel hrun ?_⟩
      · obtain rfl := Option.some.inj hpath
        refine ⟨⟨es, hwalk, hedges, hweight⟩, fun nodes es' hwalk' => ?_⟩
        rw [hweight]
        exact hleast es' ((h.walksTo_arcs weightFn).mp hwalk').2
      · exact WithFuel.map (f := Option.map some) (R := (· = some (some path))) hback fun r hr => by
          rw [hr, Option.map_some]

/-! ## The distances -/

theorem Adjacent.dijkstraDistances (h : g.Adjacent) (hA : (g.arcs weightFn).Nonneg) (heap : DijkstraHeap W)
    (hstart : start ∈ g.nodeIds) :
    ∃ distances, WithFuel (fun fuel => g.dijkstraDistances heap weightFn fuel start) (· = some distances) ∧
      (∀ v d, distances.lookup v = some d → ∃ es, (g.arcs weightFn).Walk start es v ∧ (g.arcs weightFn).cost es = d) ∧
      ∀ v es, (g.arcs weightFn).Walk start es v → ∃ d ≤ (g.arcs weightFn).cost es, distances.lookup v = some d := by
  obtain ⟨distances, ⟨hsound, hleast⟩, hrun⟩ := Loop.run_withFuel_history (distancesStep g heap weightFn)
    (fun (γ : HashSet NodeId × W) t => ∃ s : DijkstraState W, (s.distances, s.heap) = t ∧
      s.Inv g weightFn start γ.1 γ.2 NonePending)
    (fun distances : List (Option W) =>
      (∀ v d, distances.getD v.toNat none = some d →
        ∃ es, (g.arcs weightFn).Walk start es v ∧ (g.arcs weightFn).cost es = d) ∧
      ∀ v es, (g.arcs weightFn).Walk start es v →
        ∃ d ≤ (g.arcs weightFn).cost es, distances.getD v.toNat none = some d)
    (fun γ t => DijkstraState.rank g γ.1 t.2)
    (fun γ t t' hs hstep => by
      obtain ⟨s, rfl, hs⟩ := hs
      unfold distancesStep at hstep
      cases hpop : heap.pop s.heap with
      | none =>
        rw [hpop] at hstep
        cases hstep
      | some popped =>
        obtain ⟨entry, rest⟩ := popped
        rw [hpop] at hstep
        obtain ⟨closed', level', hs', hlt, -⟩ := hs.turn h hA hstart hpop
        have hproj : t' = ((DijkstraState.turn g weightFn entry { s with heap := rest }).distances,
            (DijkstraState.turn g weightFn entry { s with heap := rest }).heap) := by
          have hlive : entry.node.toNat < s.distances.length := by
            obtain ⟨d, -, hd⟩ := hs.search.bound entry.node entry.distance
              ((DijkstraState.least_entries hpop).1.mem_iff.mpr List.mem_cons_self)
            obtain ⟨es, htrace, -⟩ := hs.search.traced _ _ hd
            rw [hs.slots.1]
            exact h.toNat_lt (h.walk_mem htrace.walk hstart)
          unfold DijkstraState.turn
          dsimp only at hstep ⊢
          cases hstale : isStale s.distances entry with
          | true =>
            rw [if_pos (.inr hstale)] at hstep
            exact (Sum.inl.inj hstep).symm
          | false =>
            have hgo : ¬ (s.distances.length ≤ entry.node.toNat ∨ isStale s.distances entry = true) := by
              rw [hstale]
              simpa using hlive
            rw [if_neg hgo] at hstep
            refine (Sum.inl.inj hstep).symm.trans ?_
            refine foldl_relaxDistance (s := { s with heap := rest }) fun e he => ?_
            show e.toNode.toNat < s.distances.length
            rw [hs.slots.1]
            exact h.toNat_lt (h.toNode_mem e ((h.mem_outgoing _ e).mp he).1)
        refine ⟨(closed', level'), ⟨_, hproj.symm, hs'⟩, ?_⟩
        rw [hproj]
        exact hlt)
    (fun γ t r hs hstep => by
      obtain ⟨s, rfl, hs⟩ := hs
      unfold distancesStep at hstep
      cases hpop : heap.pop s.heap with
      | none =>
        rw [hpop] at hstep
        obtain rfl := Sum.inr.inj hstep
        have hempty : s.entries = [] := by
          rw [DijkstraState.entries, heap.pop_eq_none _ hpop, List.map_nil]
        have hsearch := hs.search
        have hsettled := hs.settled
        rw [hempty] at hsearch hsettled
        refine ⟨fun v d hd => ?_, fun v es hwalk => hsettled.least_of_empty hsearch hwalk⟩
        obtain ⟨es, htrace, hcost⟩ := hsearch.traced v d hd
        exact ⟨es, htrace.walk, hcost⟩
      | some popped =>
        obtain ⟨entry, rest⟩ := popped
        rw [hpop] at hstep
        dsimp only at hstep
        split at hstep <;> cases hstep)
    (h := (∅, 0)) ⟨DijkstraState.start g start, rfl, DijkstraState.inv_start (h.toNat_lt hstart)⟩
  refine ⟨g.finiteDistances distances, ?_, fun v d hd => ?_, fun v es hwalk => ?_⟩
  · exact WithFuel.map (f := Option.map g.finiteDistances) (R := (· = some (g.finiteDistances distances))) hrun
      fun r hr => by rw [hr, Option.map_some]
  · rw [lookup_finiteDistances] at hd
    split at hd
    · exact hsound v d hd
    · cases hd
  · obtain ⟨d, hle, hd⟩ := hleast v es hwalk
    refine ⟨d, hle, ?_⟩
    rw [lookup_finiteDistances, if_pos (h.walk_mem hwalk hstart), hd]

/-- `Dijkstra::find_path` returns a path exactly when the target is reachable, and then one of least weight;
`Dijkstra::distances_from` has the same weight for the target, and none when there is no path. -/
theorem dijkstra_optimal (g : Graph) (heap : DijkstraHeap W) (weightFn : Edge → W) (start stop : NodeId)
    (hg : g.Built) (hweight : ∀ e ∈ g.allEdges, 0 ≤ weightFn e) (hstart : start ∈ g.nodeIds) :
    ∃ result distances,
      WithFuel (fun fuel => g.dijkstraPath heap weightFn fuel start stop) (· = some result) ∧
      WithFuel (fun fuel => g.dijkstraDistances heap weightFn fuel start) (· = some distances) ∧
      g.FindsLeastPath weightFn start stop result ∧ distances.lookup stop = result.map WeightedPath.totalWeight := by
  have h := hg.adjacent
  have hA := h.nonneg hweight
  obtain ⟨result, hresult, hpath⟩ := h.dijkstraPath hA heap hstart stop
  obtain ⟨distances, hdistances, hsound, hleast⟩ := h.dijkstraDistances hA heap hstart
  refine ⟨result, distances, hpath, hdistances, hresult, ?_⟩
  obtain ⟨hsome, hbest⟩ := hresult
  cases result with
  | none =>
    cases hlookup : distances.lookup stop with
    | none => rfl
    | some d =>
      obtain ⟨es, hwalk, -⟩ := hsound stop d hlookup
      have hreach := (h.exists_walksTo_iff weightFn).mpr ⟨es, hwalk⟩
      cases hsome.mpr hreach
  | some path =>
    obtain ⟨⟨es, hwalk, -, hweight⟩, hless⟩ := hbest path rfl
    obtain ⟨d, hle, hd⟩ := hleast stop es ((h.walksTo_arcs weightFn).mp hwalk).2
    obtain ⟨es', hwalk', hcost⟩ := hsound stop d hd
    have hge := hless _ es' ((h.walksTo_arcs weightFn).mpr ⟨rfl, hwalk'⟩)
    rw [hd, Option.map_some, le_antisymm (hle.trans hweight.ge) (hge.trans hcost.le)]

/-- Two roads to the end: the one over another node is the shorter one. -/
def detour : Graph :=
  ofCalls [.createNodeWithLabels ["City"], .createNodeWithLabels ["City"], .createNodeWithLabels ["City"],
    .createEdge 0 2 "ROAD", .createEdge 0 1 "ROAD", .createEdge 1 2 "ROAD"]

/-- The direct road is long. -/
def detourWeight (e : Edge) : ℚ := if e.id = 0 then 5 else 1

theorem dijkstra_optimal_detour :
    ∃ result distances,
      WithFuel (fun fuel => detour.dijkstraPath (MinHeap.first _) detourWeight fuel 0 2) (· = some result) ∧
      WithFuel (fun fuel => detour.dijkstraDistances (MinHeap.first _) detourWeight fuel 0) (· = some distances) ∧
      detour.FindsLeastPath detourWeight 0 2 result ∧
      distances.lookup 2 = result.map WeightedPath.totalWeight :=
  dijkstra_optimal detour (MinHeap.first _) detourWeight 0 2 (built_ofCalls _ (by decide))
    (fun e _ => by
      unfold detourWeight
      split <;> norm_num)
    (by decide)

end Graph

end Maharit
