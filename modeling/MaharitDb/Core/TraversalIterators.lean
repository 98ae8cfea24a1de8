import MaharitDb.Lib.Loop
import MaharitDb.Lib.WalkDistance
import MaharitDb.Core.Adjacency

/-!
# The traversal iterators

`BfsIterator` and `DfsIterator` of `maharit-core/src/traversal.rs`.  The two differ only in the end of their list of
entries at which they put a new one.  Both mark a node when they put it into the list, at the depth of that moment; with
a depth limit the depth-first iterator may mark a node too deep and then never goes on from it.
-/

namespace Maharit

open Walks

/-- The direction in which edges are followed. -/
inductive Direction where
  | outgoing
  | incoming
  | both
  deriving DecidableEq, Repr

/-- The configuration of a traversal. -/
structure Traversal where
  graph : Graph
  start : NodeId
  direction : Direction
  maxDepth : Option ℕ
  edgeFilter : Option (Edge → Bool)
  nodeFilter : Option (Node → Bool)

/-- An iterator between two calls of `next`: the entries that wait, with their depths, the next one first. -/
structure TraversalIterator where
  entries : List (NodeId × ℕ)
  visited : HashSet NodeId

namespace Traversal

/-- `Traversal::new`. -/
def new (graph : Graph) (start : NodeId) : Traversal := ⟨graph, start, .outgoing, none, none, none⟩

/-- The nodes that `push_neighbors` pushes. -/
def neighbors (t : Traversal) (id : NodeId) : List NodeId :=
  let passes := fun edge => t.edgeFilter.all fun f => f edge
  (if t.direction = .outgoing ∨ t.direction = .both then
    ((t.graph.getOutgoingEdges id).filter passes).map Edge.toNode else []) ++
  (if t.direction = .incoming ∨ t.direction = .both then
    ((t.graph.getIncomingEdges id).filter passes).map Edge.fromNode else [])

/-- Whether the node exists and passes the node filter. -/
def visits (t : Traversal) (id : NodeId) : Bool :=
  (t.graph.getNode id).any fun n => t.nodeFilter.all fun f => f n

/-- Whether the depth limit lets the search go on below a depth. -/
def goesOn (t : Traversal) (depth : ℕ) : Bool := t.maxDepth.all fun max => depth < max

/-- Push one neighbor, where `put` puts an entry into the list. -/
def pushNeighbor (put : NodeId × ℕ → List (NodeId × ℕ) → List (NodeId × ℕ)) (depth : ℕ) (it : TraversalIterator)
    (neighbor : NodeId) : TraversalIterator :=
  if neighbor ∈ it.visited then it
  else ⟨put (neighbor, depth + 1) it.entries, it.visited.add neighbor⟩

/-- `next`. -/
def next (put : NodeId × ℕ → List (NodeId × ℕ) → List (NodeId × ℕ)) (t : Traversal) :
    List (NodeId × ℕ) → HashSet NodeId → Option ((NodeId × ℕ) × TraversalIterator)
  | [], _ => none
  | (id, depth) :: entries, visited =>
      if t.maxDepth.any fun max => decide (max < depth) then next put t entries visited
      else if !t.visits id then next put t entries visited
      else
        let it : TraversalIterator :=
          if t.goesOn depth then (t.neighbors id).foldl (pushNeighbor put depth) ⟨entries, visited⟩
          else ⟨entries, visited⟩
        some ((id, depth), it)

/-- The iterator before its first call. -/
def iterator (t : Traversal) : TraversalIterator := ⟨[(t.start, 0)], HashSet.add ∅ t.start⟩

/-- `BfsIterator::next`: the entries are a queue. -/
def bfsNext (t : Traversal) (it : TraversalIterator) : Option ((NodeId × ℕ) × TraversalIterator) :=
  next (fun entry queue => queue ++ [entry]) t it.entries it.visited

/-- `DfsIterator::next`: the entries are a stack. -/
def dfsNext (t : Traversal) (it : TraversalIterator) : Option ((NodeId × ℕ) × TraversalIterator) :=
  next (fun entry stack => entry :: stack) t it.entries it.visited

/-- Call `next` until there is nothing left. -/
def collectStep (next : TraversalIterator → Option ((NodeId × ℕ) × TraversalIterator)) :
    TraversalIterator × List (NodeId × ℕ) → (TraversalIterator × List (NodeId × ℕ)) ⊕ List (NodeId × ℕ)
  | (it, items) =>
      match next it with
      | some (item, it') => .inl (it', items ++ [item])
      | none => .inr items

/-- What the breadth-first iterator yields. -/
def bfs (t : Traversal) (fuel : ℕ) : Option (List (NodeId × ℕ)) :=
  Loop.run (collectStep t.bfsNext) fuel (t.iterator, [])

/-- What the depth-first iterator yields. -/
def dfs (t : Traversal) (fuel : ℕ) : Option (List (NodeId × ℕ)) :=
  Loop.run (collectStep t.dfsNext) fuel (t.iterator, [])

/-- A step along an edge. -/
def Link (t : Traversal) (u : NodeId) (_ : Unit) (v : NodeId) : Prop := v ∈ t.neighbors u

/-- So many edges lead from the start node to the node. -/
def Reaches (t : Traversal) : ℕ → NodeId → Prop := Walks.Reaches t.Link t.start

/-- The node can be reached within the depth limit. -/
def Within (t : Traversal) (v : NodeId) : Prop := ∃ k, t.Reaches k v ∧ ∀ max ∈ t.maxDepth, k ≤ max

/-- The traversal starts at a live node of a graph that was built, and has no node filter. -/
structure Plain (t : Traversal) : Prop where
  built : t.graph.Built
  start : t.start ∈ t.graph.nodeIds
  nodeFilter : t.nodeFilter = none

variable {t : Traversal} {put : NodeId × ℕ → List (NodeId × ℕ) → List (NodeId × ℕ)}

lemma Plain.neighbors_mem (h : t.Plain) {u v : NodeId} (hv : v ∈ t.neighbors u) : v ∈ t.graph.nodeIds := by
  have hg := h.built.adjacent
  rcases List.mem_append.mp hv with hv | hv
  · split at hv
    · obtain ⟨e, he, rfl⟩ := List.mem_map.mp hv
      exact hg.toNode_mem e ((hg.mem_outgoing u e).mp (List.mem_of_mem_filter he)).1
    · cases hv
  · split at hv
    · obtain ⟨e, he, rfl⟩ := List.mem_map.mp hv
      exact hg.fromNode_mem e ((hg.mem_incoming u e).mp (List.mem_of_mem_filter he)).1
    · cases hv

lemma Plain.reaches_mem (h : t.Plain) {k : ℕ} {v : NodeId} (hv : t.Reaches k v) : v ∈ t.graph.nodeIds := by
  cases k with
  | zero => exact (show v = t.start from hv) ▸ h.start
  | succ k =>
    obtain ⟨u, e, hu, hlink⟩ := hv
    exact h.neighbors_mem hlink

lemma Plain.visits (h : t.Plain) {v : NodeId} (hv : v ∈ t.graph.nodeIds) : t.visits v = true := by
  rw [h.built.adjacent.mem_nodeIds] at hv
  obtain ⟨n, hn⟩ := Option.isSome_iff_exists.mp hv
  rw [Traversal.visits, hn, h.nodeFilter]
  rfl

lemma goesOn_iff {depth : ℕ} : t.goesOn depth = true ↔ ∀ max ∈ t.maxDepth, depth < max := by
  rw [goesOn, Option.all_eq_true]
  simp

/-! ## One call -/

/-- The neighbors that are new are put into the list, each of them once. -/
lemma foldl_pushNeighbor (put : NodeId × ℕ → List (NodeId × ℕ) → List (NodeId × ℕ)) (depth : ℕ) (vs : List NodeId) (it : TraversalIterator) :
    ∃ new : List NodeId, new.Nodup ∧ (∀ v, v ∈ new ↔ v ∈ vs ∧ v ∉ it.visited) ∧
      (∀ v, v ∈ (vs.foldl (pushNeighbor put depth) it).visited ↔ v ∈ vs ∨ v ∈ it.visited) ∧
      (vs.foldl (pushNeighbor put depth) it).entries = new.foldl (fun l v => put (v, depth + 1) l) it.entries := by
  induction vs generalizing it with
  | nil => exact ⟨[], List.nodup_nil, fun v => by simp, fun v => by simp, rfl⟩
  | cons u vs ih =>
    obtain ⟨new, hnodup, hnew, hvisited, hentries⟩ := ih (pushNeighbor put depth it u)
    rw [List.foldl_cons]
    by_cases hu : u ∈ it.visited
    · have hsame : pushNeighbor put depth it u = it := if_pos hu
      rw [hsame] at hnew hvisited hentries ⊢
      refine ⟨new, hnodup, fun v => ?_, fun v => ?_, hentries⟩
      · rw [hnew, List.mem_cons]
        refine and_congr_left fun hv => ⟨.inr, fun hor => hor.resolve_left ?_⟩
        rintro rfl
        exact hv hu
      · rw [hvisited, List.mem_cons]
        constructor
        · tauto
        · rintro ((rfl | hv) | hv)
          · exact .inr hu
          · exact .inl hv
          · exact .inr hv
    · have hpush : pushNeighbor put depth it u = ⟨put (u, depth + 1) it.entries, it.visited.add u⟩ := if_neg hu
      rw [hpush] at hnew hvisited hentries ⊢
      dsimp only at hnew hvisited hentries
      refine ⟨u :: new, List.nodup_cons.mpr ⟨fun hmem => ?_, hnodup⟩, fun v => ?_, fun v => ?_, hentries⟩
      · exact ((hnew u).mp hmem).2 ((HashSet.mem_add ..).mpr (.inl rfl))
      · rw [List.mem_cons, hnew, HashSet.mem_add, List.mem_cons]
        by_cases hvu : v = u
        · simp [hvu, hu]
        · simp [hvu]
      · rw [hvisited, HashSet.mem_add, List.mem_cons]
        tauto

/-- The iterator after some calls; `items` are the entries that it has yielded. -/
structure Walked (t : Traversal) (items : List (NodeId × ℕ)) (it : TraversalIterator) : Prop where
  nodup : ((items ++ it.entries).map Prod.fst).Nodup
  visited : ∀ v, v ∈ it.visited ↔ ∃ x ∈ items ++ it.entries, x.1 = v
  reaches : ∀ x ∈ items ++ it.entries, t.Reaches x.2 x.1
  within : ∀ x ∈ items ++ it.entries, ∀ max ∈ t.maxDepth, x.2 ≤ max
  expanded : ∀ v, v ∈ it.visited ↔ v = t.start ∨ ∃ x ∈ items, t.goesOn x.2 = true ∧ v ∈ t.neighbors x.1

lemma walked_iterator (t : Traversal) : t.Walked [] t.iterator where
  nodup := by simp [iterator]
  visited v := by simp [iterator, eq_comm]
  reaches x hx := by
    rw [List.nil_append, iterator, List.mem_singleton] at hx
    rw [hx]
    exact rfl
  within x hx max hmax := by
    rw [List.nil_append, iterator, List.mem_singleton] at hx
    rw [hx]
    exact Nat.zero_le _
  expanded v := by simp [iterator]

/-- A new entry is put somewhere into the list. -/
lemma foldl_put_perm (hput : ∀ x l, (put x l).Perm (x :: l)) (depth : ℕ) (new : List NodeId)
    (entries : List (NodeId × ℕ)) :
    (new.foldl (fun l v => put (v, depth) l) entries).Perm (new.map (fun v => (v, depth)) ++ entries) := by
  induction new generalizing entries with
  | nil => exact List.Perm.refl _
  | cons v new ih =>
    refine (ih (put (v, depth) entries)).trans ?_
    refine (List.Perm.append_left _ (hput (v, depth) entries)).trans ?_
    simp

/-- The nodes that are not marked yet, and then the entries. -/
def rank (t : Traversal) (it : TraversalIterator) : ℕ ×ₗ ℕ :=
  toLex (Loop.unseen t.graph.nodeIds it.visited, it.entries.length)

/-- What one call does. -/
lemma Walked.next (h : t.Plain) (hput : ∀ x l, (put x l).Perm (x :: l)) {items : List (NodeId × ℕ)}
    {id : NodeId} {depth : ℕ} {rest : List (NodeId × ℕ)} {visited : HashSet NodeId}
    (hw : t.Walked items ⟨(id, depth) :: rest, visited⟩) :
    ∃ (it : TraversalIterator) (new : List NodeId),
      Traversal.next put t ((id, depth) :: rest) visited = some ((id, depth), it) ∧
      it.entries = new.foldl (fun l v => put (v, depth + 1) l) rest ∧
      t.Walked (items ++ [(id, depth)]) it ∧ t.rank it < t.rank ⟨(id, depth) :: rest, visited⟩ := by
  have hhead : (id, depth) ∈ items ++ (id, depth) :: rest := List.mem_append_right _ List.mem_cons_self
  have hreach : t.Reaches depth id := hw.reaches _ hhead
  have hlive := h.reaches_mem hreach
  have hdeep : ¬ (t.maxDepth.any fun max => decide (max < depth)) = true := by
    rw [Option.any_eq_true]
    rintro ⟨max, hmax, hlt⟩
    exact absurd (hw.within _ hhead max hmax) (Nat.not_le.mpr (of_decide_eq_true hlt))
  -- whether it goes on or not, some new neighbors are put into the list
  obtain ⟨it, new, hit, hnodup, hnew, hvisited, hentries⟩ : ∃ (it : TraversalIterator) (new : List NodeId),
      Traversal.next put t ((id, depth) :: rest) visited = some ((id, depth), it) ∧ new.Nodup ∧
      (∀ v, v ∈ new ↔ (t.goesOn depth = true ∧ v ∈ t.neighbors id) ∧ v ∉ visited) ∧
      (∀ v, v ∈ it.visited ↔ (t.goesOn depth = true ∧ v ∈ t.neighbors id) ∨ v ∈ visited) ∧
      it.entries = new.foldl (fun l v => put (v, depth + 1) l) rest := by
    rw [Traversal.next, if_neg hdeep, h.visits hlive]
    cases hgoes : t.goesOn depth with
    | true =>
      obtain ⟨new, hnodup, hnew, hvisited, hentries⟩ :=
        foldl_pushNeighbor put depth (t.neighbors id) ⟨rest, visited⟩
      exact ⟨_, new, rfl, hnodup, fun v => by simpa using hnew v, fun v => by simpa using hvisited v, hentries⟩
    | false =>
      exact ⟨⟨rest, visited⟩, [], rfl, List.nodup_nil, fun v => by simp, fun v => by simp, rfl⟩
  have hperm : (items ++ [(id, depth)] ++ it.entries).Perm
      (new.map (fun v => (v, depth + 1)) ++ (items ++ (id, depth) :: rest)) := by
    rw [hentries]
    refine (List.Perm.append_left _ (foldl_put_perm hput (depth + 1) new rest)).trans ?_
    refine List.perm_append_comm_assoc _ _ _ |>.trans (List.Perm.append_left _ (List.Perm.of_eq ?_))
    simp
  have hmem : ∀ x, x ∈ items ++ [(id, depth)] ++ it.entries ↔
      (x.1 ∈ new ∧ x.2 = depth + 1) ∨ x ∈ items ++ (id, depth) :: rest := by
    intro x
    rw [hperm.mem_iff, List.mem_append, List.mem_map]
    refine or_congr_left ⟨?_, fun hx => ⟨x.1, hx.1, Prod.ext rfl hx.2.symm⟩⟩
    rintro ⟨v, hv, rfl⟩
    exact ⟨hv, rfl⟩
  refine ⟨it, new, hit, hentries, ⟨?_, fun v => ?_, fun x hx => ?_, fun x hx max hmax => ?_, fun v => ?_⟩, ?_⟩
  · rw [(hperm.map Prod.fst).nodup_iff, List.map_append, List.map_map]
    refine List.nodup_append.mpr ⟨hnodup.map fun _ _ heq => heq, hw.nodup, fun u hu v hv huv => ?_⟩
    obtain ⟨w, hw', rfl⟩ := List.mem_map.mp hu
    obtain ⟨x, hx, rfl⟩ := List.mem_map.mp hv
    exact ((hnew w).mp hw').2 ((hw.visited w).mpr ⟨x, hx, huv.symm⟩)
  · rw [hvisited, hw.visited]
    constructor
    · rintro (hv | ⟨x, hx, rfl⟩)
      · by_cases hseen : v ∈ visited
        · obtain ⟨x, hx, hxv⟩ := (hw.visited v).mp hseen
          exact ⟨x, (hmem x).mpr (.inr hx), hxv⟩
        · exact ⟨(v, depth + 1), (hmem _).mpr (.inl ⟨(hnew v).mpr ⟨hv, hseen⟩, rfl⟩), rfl⟩
      · exact ⟨x, (hmem x).mpr (.inr hx), rfl⟩
    · rintro ⟨x, hx, rfl⟩
      rcases (hmem x).mp hx with ⟨hx, -⟩ | hx
      · exact .inl ((hnew _).mp hx).1
      · exact .inr ⟨x, hx, rfl⟩
  · rcases (hmem x).mp hx with ⟨hx, hdepth⟩ | hx
    · rw [hdepth]
      exact ⟨id, (), hreach, ((hnew _).mp hx).1.2⟩
    · exact hw.reaches x hx
  · rcases (hmem x).mp hx with ⟨hx, hdepth⟩ | hx
    · rw [hdepth]
      exact goesOn_iff.mp ((hnew _).mp hx).1.1 max hmax
    · exact hw.within x hx max hmax
  · rw [hvisited, hw.expanded]
    constructor
    · rintro (hmore | hv | ⟨x, hx, hmore⟩)
      · exact .inr ⟨_, List.mem_append_right _ (List.mem_singleton_self _), hmore⟩
      · exact .inl hv
      · exact .inr ⟨x, List.mem_append_left _ hx, hmore⟩
    · rintro (hv | ⟨x, hx, hmore⟩)
      · exact .inr (.inl hv)
      · rcases List.mem_append.mp hx with hx | hx
        · exact .inr (.inr ⟨x, hx, hmore⟩)
        · rw [List.mem_singleton.mp hx] at hmore
          exact .inl hmore
  · cases new with
    | nil =>
      have hsame : Loop.unseen t.graph.nodeIds it.visited = Loop.unseen t.graph.nodeIds visited := by
        refine Loop.unseen_congr _ fun v => ?_
        rw [hvisited]
        refine ⟨fun hv => hv.elim (fun hmore => ?_) fun hv => hv, .inr⟩
        by_contra hseen
        exact List.not_mem_nil ((hnew v).mpr ⟨hmore, hseen⟩)
      refine Prod.Lex.toLex_lt_toLex.mpr (.inr ⟨hsame, ?_⟩)
      rw [hentries]
      exact Nat.lt_succ_self _
    | cons v new =>
      obtain ⟨hmore, hfresh⟩ := (hnew v).mp List.mem_cons_self
      refine Prod.Lex.toLex_lt_toLex.mpr (.inl ?_)
      exact Loop.unseen_lt (fun u hu => (hvisited u).mpr (.inr hu)) (h.neighbors_mem hmore.2) hfresh
        ((hvisited v).mpr (.inl hmore))

/-! ## All calls -/

/-- The rule for all calls: `Extra` is what is known beyond `Walked`. -/
lemma Walked.collect (h : t.Plain) (put : NodeId × ℕ → List (NodeId × ℕ) → List (NodeId × ℕ))
    (hput : ∀ x l, (put x l).Perm (x :: l)) (Extra : List (NodeId × ℕ) → TraversalIterator → Prop)
    (hstep : ∀ items id depth rest visited it (new : List NodeId), t.Walked items ⟨(id, depth) :: rest, visited⟩ →
      Extra items ⟨(id, depth) :: rest, visited⟩ →
      Traversal.next put t ((id, depth) :: rest) visited = some ((id, depth), it) →
      it.entries = new.foldl (fun l v => put (v, depth + 1) l) rest → t.Walked (items ++ [(id, depth)]) it →
      Extra (items ++ [(id, depth)]) it)
    {items : List (NodeId × ℕ)} {it : TraversalIterator} (hw : t.Walked items it) (hextra : Extra items it) :
    ∃ items', (∃ visited, t.Walked items' ⟨[], visited⟩ ∧ Extra items' ⟨[], visited⟩) ∧
      WithFuel (fun fuel => Loop.run (collectStep fun it => Traversal.next put t it.entries it.visited) fuel
        (it, items)) (· = some items') := by
  have hwf : WellFounded fun r r' : TraversalIterator × List (NodeId × ℕ) => t.rank r.1 < t.rank r'.1 :=
    InvImage.wf (fun r : TraversalIterator × List (NodeId × ℕ) => t.rank r.1) wellFounded_lt
  let Stands := fun r : TraversalIterator × List (NodeId × ℕ) => t.Walked r.2 r.1 ∧ Extra r.2 r.1
  refine Loop.run_withFuel Stands _ hwf (fun r r' hr hcall => ?_) (fun r items' hr hdone => ?_) ⟨hw, hextra⟩
  · obtain ⟨⟨entries, visited⟩, items⟩ := r
    obtain ⟨hw, hextra⟩ := hr
    cases entries with
    | nil => cases hcall
    | cons x rest =>
      obtain ⟨it', new, hnext, hentries, hw', hlt⟩ := hw.next h hput
      rw [collectStep, hnext] at hcall
      obtain rfl := Sum.inl.inj hcall
      exact ⟨⟨hw', hstep _ _ _ _ _ _ new hw hextra hnext hentries hw'⟩, hlt⟩
  · obtain ⟨⟨entries, visited⟩, items⟩ := r
    obtain ⟨hw, hextra⟩ := hr
    cases entries with
    | nil =>
      obtain rfl := Sum.inr.inj hdone
      exact ⟨visited, hw, hextra⟩
    | cons x rest =>
      obtain ⟨it', new, hnext, -⟩ := hw.next h hput
      rw [collectStep, hnext] at hdone
      cases hdone

/-- What the calls have yielded in the end: the start node, and the neighbors of the nodes from which they went on. -/
lemma Walked.mem_items {items : List (NodeId × ℕ)} {visited : HashSet NodeId} (hw : t.Walked items ⟨[], visited⟩)
    (v : NodeId) :
    (∃ x ∈ items, x.1 = v) ↔ v = t.start ∨ ∃ x ∈ items, t.goesOn x.2 = true ∧ v ∈ t.neighbors x.1 := by
  rw [← hw.expanded, hw.visited, List.append_nil]

/-! ## Breadth first -/

/-- The queue is sorted by depth, and the neighbors of what has been yielded are at most one deeper. -/
structure Level (t : Traversal) (items : List (NodeId × ℕ)) (it : TraversalIterator) : Prop where
  root : (t.start, 0) ∈ items ++ it.entries
  sorted : (items ++ it.entries).Pairwise fun x y => x.2 ≤ y.2
  spread : ∀ x ∈ it.entries, ∀ y ∈ items ++ it.entries, y.2 ≤ x.2 + 1
  near : ∀ x ∈ items, t.goesOn x.2 = true → ∀ v ∈ t.neighbors x.1, ∃ y ∈ items ++ it.entries, y.1 = v ∧ y.2 ≤ x.2 + 1

lemma level_iterator (t : Traversal) : t.Level [] t.iterator where
  root := by simp [iterator]
  sorted := by simp [iterator]
  spread x hx y hy := by
    rw [List.nil_append, iterator, List.mem_singleton] at hy
    rw [hy]
    exact Nat.zero_le _
  near x hx := absurd hx List.not_mem_nil

lemma Level.next {items : List (NodeId × ℕ)} {id : NodeId} {depth : ℕ} {rest : List (NodeId × ℕ)}
    {visited : HashSet NodeId} {it : TraversalIterator} {new : List NodeId}
    (hl : t.Level items ⟨(id, depth) :: rest, visited⟩)
    (hentries : it.entries = new.foldl (fun l v => l ++ [(v, depth + 1)]) rest)
    (hw : t.Walked (items ++ [(id, depth)]) it) : t.Level (items ++ [(id, depth)]) it := by
  have hqueue : it.entries = rest ++ new.map fun v => (v, depth + 1) := by
    rw [hentries]
    clear hentries hw hl
    induction new generalizing rest with
    | nil => simp
    | cons v new ih => rw [List.foldl_cons, ih, List.map_cons, List.append_assoc, List.singleton_append]
  have hall : items ++ [(id, depth)] ++ it.entries =
      (items ++ (id, depth) :: rest) ++ new.map fun v => (v, depth + 1) := by
    rw [hqueue]
    simp
  have hdeep : ∀ y ∈ items ++ [(id, depth)] ++ it.entries, y.2 ≤ depth + 1 := by
    intro y hy
    rw [hall] at hy
    rcases List.mem_append.mp hy with hy | hy
    · exact hl.spread _ List.mem_cons_self y hy
    · obtain ⟨v, -, rfl⟩ := List.mem_map.mp hy
      exact le_rfl
  have hrest : ∀ x ∈ rest, depth ≤ x.2 := by
    have hsorted := (List.pairwise_append.mp hl.sorted).2.1
    exact (List.pairwise_cons.mp hsorted).1
  refine ⟨?_, ?_, fun x hx y hy => ?_, fun x hx hgoes v hv => ?_⟩
  · rw [hall]
    exact List.mem_append_left _ hl.root
  · rw [hall]
    refine List.pairwise_append.mpr ⟨hl.sorted, List.pairwise_map.mpr (List.pairwise_of_forall fun _ _ => le_rfl),
      fun x hx y hy => ?_⟩
    obtain ⟨v, -, rfl⟩ := List.mem_map.mp hy
    exact hl.spread _ List.mem_cons_self x hx
  · have hle := hdeep y hy
    have hge : depth ≤ x.2 := by
      rw [hqueue] at hx
      rcases List.mem_append.mp hx with hx | hx
      · exact hrest x hx
      · obtain ⟨v, -, rfl⟩ := List.mem_map.mp hx
        exact Nat.le_succ _
    omega
  · rcases List.mem_append.mp hx with hx | hx
    · obtain ⟨y, hy, hyv, hle⟩ := hl.near x hx hgoes v hv
      refine ⟨y, ?_, hyv, hle⟩
      rw [hall]
      exact List.mem_append_left _ hy
    · have hmet : v ∈ it.visited :=
        (hw.expanded v).mpr (.inr ⟨x, List.mem_append_right _ hx, hgoes, hv⟩)
      obtain ⟨y, hy, hyv⟩ := (hw.visited v).mp hmet
      rw [List.mem_singleton.mp hx]
      exact ⟨y, hy, hyv, hdeep y hy⟩

/-- The breadth-first iterator yields the nodes within the depth limit, each once and at its distance. -/
lemma Plain.bfs (h : t.Plain) :
    ∃ items, WithFuel (fun fuel => t.bfs fuel) (· = some items) ∧ (items.map Prod.fst).Nodup ∧
      (∀ v, v ∈ items.map Prod.fst ↔ t.Within v) ∧ (∀ x ∈ items, IsDist t.Link t.start x.2 x.1) ∧
      items.Pairwise fun x y => x.2 ≤ y.2 := by
  obtain ⟨items, ⟨visited, hw, hl⟩, hrun⟩ := (walked_iterator t).collect h
    (fun entry queue => queue ++ [entry]) (fun x l => by simp) t.Level
    (fun items id depth rest visited it new _ hl _ hentries hw => hl.next hentries hw) (level_iterator t)
  have hmet : ∀ j v, IsDist t.Link t.start j v → (∀ max ∈ t.maxDepth, j ≤ max) → (v, j) ∈ items := by
    intro j
    induction j with
    | zero =>
      intro v hv _
      rw [isDist_zero.mp hv]
      simpa using hl.root
    | succ j ih =>
      intro v hv hmax
      obtain ⟨-, u, e, hu, hlink⟩ := isDist_succ.mp hv
      have hux := ih u hu fun max hmem => (Nat.le_succ j).trans (hmax max hmem)
      have hgoes : t.goesOn j = true := goesOn_iff.mpr hmax
      obtain ⟨y, hy, rfl, hle⟩ := hl.near (u, j) hux hgoes v hlink
      rw [List.append_nil] at hy
      have hreach := hw.reaches y (List.mem_append_left _ hy)
      have hge : j + 1 ≤ y.2 := by
        by_contra hlt
        exact hv.2 y.2 (Nat.lt_of_not_le hlt) hreach
      have hdepth : y.2 = j + 1 := le_antisymm hle hge
      rw [← hdepth]
      exact hy
  have hnodup := hw.nodup
  rw [List.append_nil] at hnodup
  refine ⟨items, hrun, hnodup, fun v => ?_, fun x hx => ?_, by simpa using hl.sorted⟩
  · rw [List.mem_map]
    constructor
    · rintro ⟨x, hx, rfl⟩
      exact ⟨x.2, hw.reaches x (List.mem_append_left _ hx), hw.within x (List.mem_append_left _ hx)⟩
    · rintro ⟨k, hk, hmax⟩
      obtain ⟨j, hj, hdist⟩ := Reaches.exists_isDist hk
      exact ⟨(v, j), hmet j v hdist fun max hmem => hj.trans (hmax max hmem), rfl⟩
  · obtain ⟨j, hj, hdist⟩ := Reaches.exists_isDist (hw.reaches x (List.mem_append_left _ hx))
    have hmem := hmet j x.1 hdist fun max hmax => hj.trans (hw.within x (List.mem_append_left _ hx) max hmax)
    have hsame := List.inj_on_of_nodup_map hnodup hmem hx rfl
    rw [← hsame]
    exact hdist

/-! ## Depth first -/

/-- The states that the depth-first iterator comes to. -/
inductive DfsState (t : Traversal) : TraversalIterator → Prop
  | start : DfsState t t.iterator
  | next {it it' : TraversalIterator} {item : NodeId × ℕ} (h : DfsState t it) (hnext : t.dfsNext it = some (item, it')) :
      DfsState t it'

/-- The depth-first iterator comes to pop the node at the depth. -/
def Pops (t : Traversal) (x : NodeId × ℕ) : Prop := ∃ it, DfsState t it ∧ it.entries.head? = some x

/-- The depth limit hides nothing: when a node is popped at the limit although it lies nearer to the start, each of its
neighbors is the start node or a neighbor of a node that is popped above the limit. -/
def HidesNothing (t : Traversal) : Prop :=
  ∀ u depth, t.Pops (u, depth) → t.goesOn depth = false → (∃ j < depth, t.Reaches j u) →
    ∀ v ∈ t.neighbors u, v = t.start ∨ ∃ x, t.Pops x ∧ t.goesOn x.2 = true ∧ v ∈ t.neighbors x.1

/-- What the depth-first iterator yields is what it pops; everything is within the depth limit. -/
lemma Plain.dfs (h : t.Plain) :
    ∃ items, WithFuel (fun fuel => t.dfs fuel) (· = some items) ∧
      (∃ visited, t.Walked items ⟨[], visited⟩) ∧ ∀ x, x ∈ items ↔ t.Pops x := by
  have hput : ∀ (x : NodeId × ℕ) l, ((fun entry stack => entry :: stack) x l).Perm (x :: l) :=
    fun x l => List.Perm.refl _
  obtain ⟨items, ⟨visited, hw, -, hpops⟩, hrun⟩ := (walked_iterator t).collect h (fun entry stack => entry :: stack)
    hput (fun items it => DfsState t it ∧ ∀ x ∈ items, t.Pops x)
    (fun items id depth rest visited it new _ hextra hnext _ _ => by
      refine ⟨hextra.1.next hnext, fun x hx => ?_⟩
      rcases List.mem_append.mp hx with hx | hx
      · exact hextra.2 x hx
      · rw [List.mem_singleton.mp hx]
        exact ⟨_, hextra.1, rfl⟩)
    ⟨.start, fun x hx => absurd hx List.not_mem_nil⟩
  -- every state that the iterator comes to is passed on the way to the result
  have hpassed : ∀ it, DfsState t it → ∃ before, t.Walked before it ∧
      WithFuel (fun fuel => Loop.run (collectStep t.dfsNext) fuel (it, before)) (· = some items) := by
    intro it hit
    induction hit with
    | start => exact ⟨[], walked_iterator t, hrun⟩
    | @next it it' item hit hnext ih =>
      obtain ⟨before, hw', hrun'⟩ := ih
      obtain ⟨entries, visited'⟩ := it
      cases entries with
      | nil => cases hnext
      | cons x rest =>
        obtain ⟨it'', new, hnext', -, hw'', -⟩ := hw'.next h hput
        obtain ⟨rfl, rfl⟩ := Prod.mk.inj (Option.some.inj (hnext'.symm.trans hnext))
        refine ⟨before ++ [x], hw'', ?_⟩
        have hcall : collectStep t.dfsNext (⟨x :: rest, visited'⟩, before) = .inl (it'', before ++ [x]) := by
          rw [collectStep, hnext]
        obtain ⟨n₀, hn₀⟩ := Filter.eventually_atTop.mp hrun'
        refine Filter.eventually_atTop.mpr ⟨n₀, fun n hn => ?_⟩
        have hn' : Loop.run (collectStep t.dfsNext) (n + 1) (⟨x :: rest, visited'⟩, before) = some items :=
          hn₀ (n + 1) (hn.trans (Nat.le_succ n))
        rwa [Loop.run_inl hcall] at hn'
  refine ⟨items, hrun, ⟨visited, hw⟩, fun x => ⟨hpops x, ?_⟩⟩
  rintro ⟨it, hit, hhead⟩
  obtain ⟨before, hw', hrun'⟩ := hpassed it hit
  obtain ⟨entries, visited'⟩ := it
  cases entries with
  | nil => cases hhead
  | cons y rest =>
    obtain rfl : y = x := Option.some.inj hhead
    obtain ⟨items', ⟨done, -, hmem⟩, hrun''⟩ := hw'.collect h (fun entry stack => entry :: stack) hput
      (fun items it => y ∈ items ++ it.entries.take 1)
      (fun items id depth rest visited it new _ hextra _ _ _ => by
        rw [List.take_succ_cons, List.take_zero] at hextra
        exact List.mem_append_left _ hextra)
      (by simp)
    obtain ⟨n, hn, hn'⟩ := (hrun'.and hrun'').exists_bound
    obtain rfl : items = items' := Option.some.inj (hn.symm.trans hn')
    simpa using hmem

/-- Both iterators yield exactly the nodes within the depth limit, each of them once, the breadth-first one in the order
of their distances. -/
def IteratorsAgree (t : Traversal) : Prop :=
  ∃ bfs dfs, WithFuel (fun fuel => t.bfs fuel) (· = some bfs) ∧ WithFuel (fun fuel => t.dfs fuel) (· = some dfs) ∧
    (∀ v, v ∈ dfs.map Prod.fst ↔ v ∈ bfs.map Prod.fst) ∧ (∀ v, v ∈ bfs.map Prod.fst ↔ t.Within v) ∧
    (bfs.map Prod.fst).Nodup ∧ (dfs.map Prod.fst).Nodup ∧
    bfs.Pairwise fun x y => ∀ i j, IsDist t.Link t.start i x.1 → IsDist t.Link t.start j y.1 → i ≤ j

/-- Two nodes of the second layer, each of which a short way and a long way lead to. -/
def shortAndLong : Graph :=
  Graph.ofCalls [.createNodeWithLabels ["S"], .createNodeWithLabels ["A"], .createNodeWithLabels ["B"],
    .createNodeWithLabels ["C"], .createNodeWithLabels ["C"], .createNodeWithLabels ["X"], .createNodeWithLabels ["Y"],
    .createNodeWithLabels ["Z"], .createNodeWithLabels ["Z"], .createEdge 0 1 "TO", .createEdge 0 2 "TO",
    .createEdge 1 6 "TO", .createEdge 1 3 "TO", .createEdge 3 5 "TO", .createEdge 2 5 "TO", .createEdge 2 4 "TO",
    .createEdge 4 6 "TO", .createEdge 5 7 "TO", .createEdge 6 8 "TO"]

lemma plain_shortAndLong (maxDepth : Option ℕ) : ({ new shortAndLong 0 with maxDepth } : Traversal).Plain where
  built := Graph.built_ofCalls _ (by decide)
  start := by
    show (0 : NodeId) ∈ shortAndLong.nodeIds
    decide
  nodeFilter := rfl

end Traversal

end Maharit
