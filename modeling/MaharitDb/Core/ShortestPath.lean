import MaharitDb.Lib.ShortestWalks
import MaharitDb.Core.Traversal
import MaharitDb.Core.Adjacency

/-!
# Shortest paths

`shortest_path` of `maharit-core/src/traversal.rs`, and what it and `all_shortest_paths` find.  Both are breadth-first
searches: the first keeps for every node the one over which it was met first, the second all of them.
-/

namespace Maharit

open Walks

namespace GraphBackend

variable {σ : Type} [GraphBackend σ]

/-- The edges that leave the nodes are those of one graph, and they lead to its nodes. -/
structure Connects (g : σ) : Prop where
  nodup_allEdges : (allEdges g).Nodup
  mem_outgoing : ∀ u e, e ∈ outgoingEdges g u ↔ e ∈ allEdges g ∧ e.fromNode = u
  nodup_outgoing : ∀ u, (outgoingEdges g u).Nodup
  toNode_mem : ∀ e ∈ allEdges g, e.toNode ∈ nodeIds g

/-- The edge leads from one node to the other. -/
def Link (g : σ) (u : NodeId) (e : Edge) (v : NodeId) : Prop :=
  e ∈ outgoingEdges g u ∧ e.fromNode = u ∧ e.toNode = v

variable {g : σ}

lemma Connects.fromNode_eq (hg : Connects g) {u : NodeId} {e : Edge} (he : e ∈ outgoingEdges g u) :
    e.fromNode = u :=
  ((hg.mem_outgoing u e).mp he).2

lemma Connects.outgoing_mem (hg : Connects g) {u : NodeId} {e : Edge} (he : e ∈ outgoingEdges g u) :
    e.toNode ∈ nodeIds g :=
  hg.toNode_mem e ((hg.mem_outgoing u e).mp he).1

/-- The edges that enter a node. -/
def into (g : σ) (v : NodeId) : List Edge := (allEdges g).filter (·.toNode = v)

lemma Connects.mem_into (hg : Connects g) (v : NodeId) (e : Edge) :
    e ∈ into g v ↔ e ∈ outgoingEdges g e.fromNode ∧ e.toNode = v := by
  rw [into, List.mem_filter, decide_eq_true_iff, hg.mem_outgoing]
  simp

lemma Connects.nodup_into (hg : Connects g) (v : NodeId) : (into g v).Nodup := hg.nodup_allEdges.filter _

end GraphBackend

open GraphBackend

/-! ## One shortest path -/

/-- The search between two turns of its loop. -/
structure ParentSearch where
  queue : List NodeId
  visited : HashSet NodeId
  parent : HashMap NodeId NodeId

namespace ParentSearch

/-- The edges of the current node; the parents, when one of them leads to the end node. -/
def scan (stop current : NodeId) : List Edge → ParentSearch → ParentSearch ⊕ HashMap NodeId NodeId
  | [], t => .inl t
  | edge :: edges, t =>
      if edge.toNode ∈ t.visited then scan stop current edges t
      else
        let parent := t.parent.insert edge.toNode current
        if edge.toNode = stop then .inr parent
        else scan stop current edges ⟨t.queue ++ [edge.toNode], t.visited.add edge.toNode, parent⟩

/-- One turn of the loop. -/
def step {σ : Type} [GraphBackend σ] (g : σ) (stop : NodeId) (t : ParentSearch) :
    ParentSearch ⊕ Option (HashMap NodeId NodeId) :=
  match t.queue with
  | [] => .inr none
  | current :: queue =>
      match scan stop current (outgoingEdges g current) { t with queue } with
      | .inl t' => .inl t'
      | .inr parent => .inr (some parent)

end ParentSearch

/-- One turn of the loop that reads the path off the parents, from its end. -/
def readParents (parent : HashMap NodeId NodeId) : NodeId × List NodeId → (NodeId × List NodeId) ⊕ List NodeId
  | (node, path) =>
      match parent.lookup node with
      | some p => .inl (p, p :: path)
      | none => .inr path

/-- The result of the search: the path to the end node, if it has been met. -/
def readPath (fuel : ℕ) (stop : NodeId) : Option (HashMap NodeId NodeId) → Option (Option (List NodeId))
  | none => some none
  | some parent => (Loop.run (readParents parent) fuel (stop, [stop])).map some

/-- `shortest_path`. -/
def shortestPath {σ : Type} [GraphBackend σ] (g : σ) (fuel : ℕ) (start stop : NodeId) :
    Option (Option (List NodeId)) :=
  if start = stop then some (some [start])
  else Loop.run (ParentSearch.step g stop) fuel ⟨[start], HashSet.add ∅ start, ∅⟩ >>= readPath fuel stop

section

variable {σ : Type} [GraphBackend σ] {g : σ} {start stop : NodeId}

/-- The bare search on the graph. -/
abbrev SearchInv (g : σ) (start : NodeId) :=
  Search.Inv Edge.fromNode Edge.toNode (outgoingEdges g) start

/-- The parents lead one step nearer to the start node. -/
structure Parents (g : σ) (start : NodeId) (parent : HashMap NodeId NodeId) : Prop where
  nearer : ∀ v p, parent.lookup v = some p →
    ∃ e j, Link g p e v ∧ IsDist (Link g) start j p ∧ IsDist (Link g) start (j + 1) v
  known : ∀ v p, parent.lookup v = some p → p = start ∨ p ∈ parent

/-- The search with parents stands where the bare one does. -/
structure ParentSearch.Follows (s : Search NodeId Edge) (t : ParentSearch) : Prop where
  queue : t.queue = s.queue
  visited : ∀ v, v ∈ t.visited ↔ v ∈ s.dist
  parent : ∀ v, t.parent.lookup v = ((s.tight.filter (·.toNode = v)).head?).map Edge.fromNode

/-- The parents that the search notes are right at any time. -/
lemma parents_of_inv {k : ℕ} {layer next : List NodeId} {todo : List Edge} {s : Search NodeId Edge}
    (hs : SearchInv g start k layer next todo s) {parent : HashMap NodeId NodeId}
    (hparent : ∀ v, parent.lookup v = ((s.tight.filter (·.toNode = v)).head?).map Edge.fromNode) :
    Parents g start parent := by
  have hmem : ∀ v, v ∈ parent ↔ ∃ e ∈ s.tight, e.toNode = v := by
    intro v
    rw [← AList.lookup_isSome, hparent, Option.isSome_map, List.isSome_head?]
    simp only [ne_eq, List.filter_eq_nil_iff, decide_eq_true_eq]
    push Not
    rfl
  have hedge : ∀ v p, parent.lookup v = some p → ∃ e j, e.fromNode = p ∧ e.toNode = v ∧
      Search.Tight Edge.fromNode Edge.toNode (outgoingEdges g) start e j ∧ j ≤ k := by
    intro v p hp
    rw [hparent] at hp
    obtain ⟨e, he, rfl⟩ := Option.map_eq_some_iff.mp hp
    have hmem := List.mem_of_mem_head? he
    obtain ⟨hetight, hto⟩ := List.mem_filter.mp hmem
    obtain ⟨j, htight, hjk, -⟩ := (hs.tight e).mp hetight
    refine ⟨e, j, rfl, of_decide_eq_true hto, htight, ?_⟩
    omega
  refine ⟨fun v p hp => ?_, fun v p hp => ?_⟩
  · obtain ⟨e, j, rfl, rfl, ⟨heout, hsource, htarget⟩, -⟩ := hedge v p hp
    exact ⟨e, j, ⟨heout, rfl, rfl⟩, hsource, htarget⟩
  · obtain ⟨e, j, rfl, rfl, ⟨-, hsource, -⟩, hj⟩ := hedge v p hp
    rw [hmem]
    exact hs.found _ (hs.mem_dist.mpr ⟨j, hsource, .inl hj⟩)

/-- What the search knows when it meets the end node. -/
def FoundStop (g : σ) (start stop : NodeId) (parent : HashMap NodeId NodeId) : Prop :=
  Parents g start parent ∧ stop ∈ parent

/-- The edges of the current node in both searches. -/
lemma ParentSearch.Follows.scan {k : ℕ} {layer next : List NodeId} {current : NodeId} {edges : List Edge}
    {s : Search NodeId Edge} {t : ParentSearch} (hs : SearchInv g start k layer next edges s) (ht : Follows s t)
    (hsource : ∀ e ∈ edges, e.fromNode = current) (hcurrent : current ∉ layer) (hstop : stop ∉ s.dist) :
    (∀ t', ParentSearch.scan stop current edges t = .inl t' →
      Follows (edges.foldl (Search.along Edge.toNode (k + 1)) s) t' ∧
        stop ∉ (edges.foldl (Search.along Edge.toNode (k + 1)) s).dist) ∧
    (∀ parent, ParentSearch.scan stop current edges t = .inr parent → FoundStop g start stop parent) := by
  induction edges generalizing next s t with
  | nil =>
    refine ⟨fun t' h => ?_, fun parent h => by cases h⟩
    obtain rfl := Sum.inl.inj h
    exact ⟨ht, hstop⟩
  | cons e edges ih =>
    have hefrom := hsource e List.mem_cons_self
    obtain ⟨next', hs'⟩ := hs.along (by rw [hefrom]; exact hcurrent)
    have hrest : ∀ e' ∈ edges, e'.fromNode = current := fun e' he' => hsource e' (List.mem_cons_of_mem _ he')
    rw [ParentSearch.scan, List.foldl_cons]
    cases hlookup : s.dist.lookup e.toNode with
    | some d =>
      have hmem : e.toNode ∈ s.dist := (HashMap.mem_iff_exists _ _).mpr ⟨d, hlookup⟩
      have hne : e.toNode ≠ stop := fun heq => hstop (heq ▸ hmem)
      rw [if_pos ((ht.visited _).mpr hmem)]
      have hdist : (Search.along Edge.toNode (k + 1) s e).dist = s.dist := by
        rw [Search.along, hlookup]
        dsimp only
        split <;> rfl
      refine ih hs' ⟨?_, fun v => by rw [hdist]; exact ht.visited v, fun v => ?_⟩ hrest (by rw [hdist]; exact hstop)
      · rw [ht.queue, Search.along, hlookup]
        dsimp only
        split <;> rfl
      · -- another edge to a node that has a parent already
        rw [ht.parent, Search.along, hlookup]
        dsimp only
        split
        · by_cases hv : e.toNode = v
          · have hfirst : (s.tight.filter (·.toNode = v)) ≠ [] := by
              rcases hs.found _ hmem with hroot | ⟨e', he', hto⟩
              · next hd =>
                have hzero := ((hs.dist _ d).mp hlookup).1
                have := hzero.unique (isDist_zero.mpr hroot)
                omega
              · exact List.ne_nil_of_mem (List.mem_filter.mpr ⟨he', decide_eq_true (hto.trans hv)⟩)
            rw [List.filter_append, List.head?_append_of_ne_nil _ hfirst]
          · rw [List.filter_append, List.filter_singleton, decide_eq_false hv]
            simp
        · rfl
    | none =>
      have hnew : e.toNode ∉ s.dist := AList.lookup_eq_none.mp hlookup
      have halong : Search.along Edge.toNode (k + 1) s e =
          { s with
            queue := s.queue ++ [e.toNode]
            dist := s.dist.insert e.toNode (k + 1)
            tight := s.tight ++ [e] } := by
        rw [Search.along, hlookup]
      have hnone : s.tight.filter (·.toNode = e.toNode) = [] := by
        refine List.filter_eq_nil_iff.mpr fun e' he' heq => hnew ?_
        rw [← of_decide_eq_true heq]
        exact hs.target_mem he'
      have hparent : ∀ v, (t.parent.insert e.toNode current).lookup v =
          (((Search.along Edge.toNode (k + 1) s e).tight.filter (·.toNode = v)).head?).map Edge.fromNode := by
        intro v
        rw [HashMap.lookup_insert_ite, halong]
        by_cases hv : v = e.toNode
        · rw [if_pos hv, hv, List.filter_append, hnone]
          simp [hefrom]
        · rw [if_neg hv, ht.parent, List.filter_append, List.filter_singleton,
            decide_eq_false fun heq => hv heq.symm]
          simp
      rw [if_neg fun hmem => hnew ((ht.visited _).mp hmem)]
      dsimp only
      by_cases hend : e.toNode = stop
      · rw [if_pos hend]
        refine ⟨fun t' h => (by cases h), fun parent h => ?_⟩
        obtain rfl := Sum.inr.inj h
        refine ⟨parents_of_inv hs' hparent, ?_⟩
        rw [AList.mem_insert]
        exact .inl hend.symm
      · rw [if_neg hend]
        refine ih hs' ⟨?_, fun v => ?_, hparent⟩ hrest ?_
        · rw [halong, ht.queue]
        · rw [halong, HashSet.mem_add, AList.mem_insert, ht.visited]
        · rw [halong, AList.mem_insert, not_or]
          exact ⟨fun heq => hend heq.symm, hstop⟩

/-- One turn of both searches. -/
lemma ParentSearch.Follows.step (hg : Connects g) {k : ℕ} {layer next : List NodeId} {s : Search NodeId Edge}
    {t : ParentSearch} (hs : SearchInv g start k layer next [] s) (ht : Follows s t) (hstop : stop ∉ s.dist) :
    (∀ t', ParentSearch.step g stop t = .inl t' →
      ∃ k' layer' next' s', SearchInv g start k' layer' next' [] s' ∧ Follows s' t' ∧ stop ∉ s'.dist ∧
        s'.rank (nodeIds g) < s.rank (nodeIds g)) ∧
    (∀ parent, ParentSearch.step g stop t = .inr (some parent) → FoundStop g start stop parent) ∧
    (ParentSearch.step g stop t = .inr none → ¬ ∃ j, IsDist (Link g) start j stop) := by
  have hqueue := ht.queue
  rw [ParentSearch.step]
  cases hq : t.queue with
  | nil =>
    rw [hq] at hqueue
    refine ⟨fun t' h => (by cases h), fun parent h => (by cases h), ?_⟩
    rintro - ⟨j, hj⟩
    exact hstop (hs.mem_dist.mpr ⟨j, hj, .inl (hs.finished hqueue.symm hj)⟩)
  | cons current rest =>
    rw [hq] at hqueue
    obtain ⟨k', layer', next', hs'⟩ := hs.head hqueue.symm
    have hpop := hs'.pop (hg.nodup_outgoing current) fun e he => hg.fromNode_eq he
    have hcurrent : current ∉ layer' := (List.nodup_cons.mp hs'.layer_nodup).1
    have hfollows : Follows { s with queue := s.queue.tail, order := s.order ++ [current] }
        { t with queue := rest } := ⟨by simp [← hqueue], ht.visited, ht.parent⟩
    obtain ⟨hgo, hfound⟩ := hfollows.scan hpop (fun e he => hg.fromNode_eq he) hcurrent hstop
    obtain ⟨next'', hturn⟩ := hs'.turn (hg.nodup_outgoing current) fun e he => hg.fromNode_eq he
    dsimp only
    cases hscan : ParentSearch.scan stop current (outgoingEdges g current) { t with queue := rest } with
    | inl t'' =>
      refine ⟨fun t' h => ?_, fun parent h => (by cases h), fun h => (by cases h)⟩
      obtain rfl := Sum.inl.inj h
      obtain ⟨hfollows', hstop'⟩ := hgo t'' hscan
      exact ⟨k', layer', next'', _, hturn, hfollows', hstop',
        Search.rank_turn_lt (fun u e he => hg.outgoing_mem he) hqueue.symm k'⟩
    | inr parent' =>
      refine ⟨fun t' h => (by cases h), fun parent h => ?_, fun h => (by cases h)⟩
      obtain rfl := Option.some.inj (Sum.inr.inj h)
      exact hfound parent' hscan

/-- The nodes that are not visited yet, and then the queue. -/
def ParentSearch.rank (g : σ) (t : ParentSearch) : ℕ ×ₗ ℕ :=
  toLex (Loop.unseen (nodeIds g) t.visited, t.queue.length)

lemma ParentSearch.Follows.rank_eq {s : Search NodeId Edge} {t : ParentSearch} (ht : Follows s t) :
    t.rank g = s.rank (nodeIds g) := by
  rw [ParentSearch.rank, Search.rank, Loop.unseen_congr _ ht.visited, ht.queue]

/-- Reading the path off the parents. -/
lemma Parents.read {parent : HashMap NodeId NodeId} (h : Parents g start parent) {d : ℕ}
    (hdist : IsDist (Link g) start d stop) (hstop : stop ∈ parent) :
    ∃ path, (∃ edges, WalksTo (Link g) start stop path edges ∧ edges.length = d) ∧
      WithFuel (fun fuel => Loop.run (readParents parent) fuel (stop, [stop])) (· = some path) := by
  have hwf : WellFounded fun r r' : NodeId × List NodeId => d + 1 - r.2.length < d + 1 - r'.2.length :=
    InvImage.wf (fun r : NodeId × List NodeId => d + 1 - r.2.length) wellFounded_lt
  let OnTheWay := fun r : NodeId × List NodeId => (r.1 = start ∨ r.1 ∈ parent) ∧
    ∃ edges j, WalksTo (Link g) r.1 stop r.2 edges ∧ IsDist (Link g) start j r.1 ∧ j + edges.length = d
  have hbegin : OnTheWay (stop, [stop]) := ⟨.inr hstop, [], d, ⟨trivial, rfl, rfl⟩, hdist, rfl⟩
  refine Loop.run_withFuel OnTheWay _ hwf (fun r r' hr hstep => ?_) (fun r path hr hdone => ?_) hbegin
  · obtain ⟨node, path⟩ := r
    obtain ⟨-, edges, j, hwalks, hj, hsum⟩ := hr
    rw [readParents] at hstep
    cases hlookup : parent.lookup node with
    | none =>
      rw [hlookup] at hstep
      cases hstep
    | some p =>
      rw [hlookup] at hstep
      obtain rfl := Sum.inl.inj hstep
      obtain ⟨e, i, hlink, hi, hi'⟩ := h.nearer node p hlookup
      obtain rfl : i + 1 = j := hi'.unique hj
      have hlength := hwalks.walk.length
      dsimp only at hlength
      obtain ⟨rest, rfl⟩ : ∃ rest, path = node :: rest := by
        have hhead := hwalks.head
        cases path with
        | nil => cases hhead
        | cons x rest => exact ⟨rest, by rw [Option.some.inj hhead]⟩
      refine ⟨⟨h.known node p hlookup, e :: edges, i, ⟨⟨hlink, hwalks.walk⟩, rfl, ?_⟩, hi, ?_⟩, ?_⟩
      · have hlast := hwalks.last
        simpa using hlast
      · rw [List.length_cons]
        omega
      · dsimp only
        rw [List.length_cons]
        omega
  · obtain ⟨node, path'⟩ := r
    obtain ⟨hnode, edges, j, hwalks, hj, hsum⟩ := hr
    rw [readParents] at hdone
    cases hlookup : parent.lookup node with
    | some p =>
      rw [hlookup] at hdone
      cases hdone
    | none =>
      rw [hlookup] at hdone
      obtain rfl := Sum.inr.inj hdone
      have hstart : node = start := hnode.resolve_right fun hmem => by
        obtain ⟨p, hp⟩ := (HashMap.mem_iff_exists _ _).mp hmem
        rw [hlookup] at hp
        cases hp
      subst hstart
      have hzero := hj.unique (isDist_zero.mpr rfl)
      exact ⟨edges, hwalks, by omega⟩

/-- The search meets the end node, or there is no path. -/
lemma ParentSearch.run_withFuel (hg : Connects g) (hends : start ≠ stop) :
    ∃ r, ((∀ parent, r = some parent → FoundStop g start stop parent) ∧
        (r = none → ¬ ∃ j, IsDist (Link g) start j stop)) ∧
      WithFuel (fun fuel => Loop.run (ParentSearch.step g stop) fuel ⟨[start], HashSet.add ∅ start, ∅⟩)
        (· = some r) := by
  have hwf : WellFounded fun t t' : ParentSearch => t.rank g < t'.rank g :=
    InvImage.wf (ParentSearch.rank g) wellFounded_lt
  let Stands := fun t : ParentSearch => ∃ k layer next s, SearchInv g start k layer next [] s ∧
    ParentSearch.Follows s t ∧ stop ∉ s.dist
  have hbegin : Stands ⟨[start], HashSet.add ∅ start, ∅⟩ := by
    refine ⟨0, [start], [], Search.init start, Search.inv_init, ⟨rfl, fun v => ?_, fun v => ?_⟩, fun hmem => ?_⟩
    · rw [HashSet.mem_add, Search.init, AList.mem_insert]
      rfl
    · simp [Search.init]
    · rcases (AList.mem_insert _).mp hmem with heq | hmem
      · exact hends heq.symm
      · exact AList.notMem_empty stop hmem
  refine Loop.run_withFuel Stands _ hwf (fun t t' ht hstep => ?_) (fun t r ht hdone => ?_) hbegin
  · obtain ⟨k, layer, next, s, hs, hfollows, hstop⟩ := ht
    obtain ⟨hgo, -, -⟩ := hfollows.step hg hs hstop
    obtain ⟨k', layer', next', s', hs', hfollows', hstop', hlt⟩ := hgo t' hstep
    refine ⟨⟨k', layer', next', s', hs', hfollows', hstop'⟩, ?_⟩
    rw [hfollows.rank_eq, hfollows'.rank_eq]
    exact hlt
  · obtain ⟨k, layer, next, s, hs, hfollows, hstop⟩ := ht
    obtain ⟨-, hfound, hnone⟩ := hfollows.step hg hs hstop
    exact ⟨fun parent hr => hfound parent (hr ▸ hdone), fun hr => hnone (hr ▸ hdone)⟩

/-- `shortest_path` finds a shortest path exactly when there is a path. -/
theorem shortestPath_withFuel (hg : Connects g) (start stop : NodeId) :
    ∃ result, WithFuel (fun fuel => shortestPath g fuel start stop) (· = some result) ∧
      (result.isSome ↔ ∃ nodes edges, WalksTo (Link g) start stop nodes edges) ∧
      ∀ nodes, result = some nodes → ∃ edges, IsShortest (Link g) start stop (nodes, edges) := by
  by_cases hends : start = stop
  · subst hends
    have hwalk : WalksTo (Link g) start start [start] [] := ⟨trivial, rfl, rfl⟩
    refine ⟨some [start], WithFuel.of_forall fun fuel => if_pos rfl, ⟨fun _ => ⟨_, _, hwalk⟩, fun _ => rfl⟩,
      fun nodes hnodes => ?_⟩
    obtain rfl := Option.some.inj hnodes
    exact ⟨[], hwalk, fun _ _ _ => Nat.zero_le _⟩
  · have hsearch : ∀ fuel, shortestPath g fuel start stop =
        Loop.run (ParentSearch.step g stop) fuel ⟨[start], HashSet.add ∅ start, ∅⟩ >>= readPath fuel stop :=
      fun fuel => if_neg hends
    simp only [hsearch]
    obtain ⟨r, ⟨hfound, hnone⟩, hrun⟩ := ParentSearch.run_withFuel hg hends
    cases r with
    | none =>
      refine ⟨none, Loop.bind_withFuel hrun (WithFuel.of_forall fun fuel => rfl), ⟨fun h => (by cases h), ?_⟩,
        fun nodes h => (by cases h)⟩
      rintro ⟨nodes, edges, hwalks⟩
      obtain ⟨j, -, hj⟩ := hwalks.reaches.exists_isDist
      exact absurd ⟨j, hj⟩ (hnone rfl)
    | some parent =>
      obtain ⟨hparents, hstop⟩ := hfound parent rfl
      obtain ⟨p, hp⟩ := (HashMap.mem_iff_exists _ _).mp hstop
      obtain ⟨-, j, -, -, hdist⟩ := hparents.nearer stop p hp
      obtain ⟨path, ⟨edges, hwalks, hlength⟩, hread⟩ := hparents.read hdist hstop
      have hmap : WithFuel (fun fuel => readPath fuel stop (some parent)) (· = some (some path)) :=
        WithFuel.map (f := Option.map some) (R := (· = some (some path))) hread fun x hx => by rw [hx, Option.map_some]
      refine ⟨some path, Loop.bind_withFuel hrun hmap,
        ⟨fun _ => ⟨path, edges, hwalks⟩, fun _ => rfl⟩, fun nodes hnodes => ?_⟩
      obtain rfl := Option.some.inj hnodes
      exact ⟨edges, isShortest_iff.mpr ⟨hwalks, hlength ▸ hdist⟩⟩

/-! ## All shortest paths -/

namespace QueueSearch

/-- The search with predecessors stands where the bare one does. -/
structure Mirrors (stop : NodeId) (s : Search NodeId Edge) (t : QueueSearch) : Prop where
  queue : t.queue = s.queue
  distances : t.distances = s.dist
  predecessors : ∀ v, (t.predecessors.lookup v).getD [] = (s.tight.filter (·.toNode = v)).map Edge.fromNode
  known : ∀ v, v ∈ t.predecessors ↔ ∃ e ∈ s.tight, e.toNode = v
  target : t.targetDistance = s.dist.lookup stop

/-- One edge of the current node in both searches. -/
lemma Mirrors.alongEdge {k : ℕ} {layer next : List NodeId} {e : Edge} {todo : List Edge} {s : Search NodeId Edge}
    {t : QueueSearch} (hs : SearchInv g start k layer next (e :: todo) s) (ht : Mirrors stop s t) :
    Mirrors stop (Search.along Edge.toNode (k + 1) s e) (t.alongEdge stop e.fromNode (k + 1) e) := by
  have happend : ∀ v, ((s.tight ++ [e]).filter (·.toNode = v)).map Edge.fromNode =
      (s.tight.filter (·.toNode = v)).map Edge.fromNode ++ if v = e.toNode then [e.fromNode] else [] := by
    intro v
    rw [List.filter_append, List.map_append]
    by_cases hv : v = e.toNode
    · simp [hv]
    · rw [if_neg hv, List.filter_singleton, decide_eq_false fun heq => hv heq.symm]
      simp
  have hknown : ∀ v, (v = e.toNode ∨ v ∈ t.predecessors) ↔ ∃ e' ∈ s.tight ++ [e], e'.toNode = v := by
    intro v
    rw [ht.known]
    simp only [List.mem_append, List.mem_singleton]
    constructor
    · rintro (rfl | ⟨e', he', hv⟩)
      · exact ⟨e, .inr rfl, rfl⟩
      · exact ⟨e', .inl he', hv⟩
    · rintro ⟨e', he' | rfl, hv⟩
      · exact .inr ⟨e', he', hv⟩
      · exact .inl hv.symm
  unfold Search.along QueueSearch.alongEdge
  rw [ht.distances]
  cases hlookup : s.dist.lookup e.toNode with
  | none =>
    have hnew : e.toNode ∉ s.dist := AList.lookup_eq_none.mp hlookup
    have hnone : s.tight.filter (·.toNode = e.toNode) = [] := by
      refine List.filter_eq_nil_iff.mpr fun e' he' heq => hnew ?_
      rw [← of_decide_eq_true heq]
      exact hs.target_mem he'
    refine ⟨by simp [ht.queue], by simp, fun v => ?_, fun v => ?_, ?_⟩
    · dsimp only
      rw [happend, HashMap.lookup_insert_ite]
      by_cases hv : v = e.toNode
      · rw [if_pos hv, if_pos hv, hv, hnone]
        rfl
      · rw [if_neg hv, if_neg hv, ht.predecessors, List.append_nil]
    · rw [AList.mem_insert]
      exact hknown v
    · dsimp only
      rw [HashMap.lookup_insert_ite, ht.target]
      exact if_congr eq_comm rfl rfl
  | some d =>
    dsimp only
    by_cases hd : d = k + 1
    · rw [if_pos hd, if_pos hd]
      have hmem : e.toNode ∈ t.predecessors := by
        rw [ht.known]
        refine (hs.found _ ((HashMap.mem_iff_exists _ _).mpr ⟨d, hlookup⟩)).resolve_left fun hroot => ?_
        have hzero := ((hs.dist _ d).mp hlookup).1
        have := hzero.unique (isDist_zero.mpr hroot)
        omega
      refine ⟨ht.queue, rfl, fun v => ?_, fun v => ?_, ht.target⟩
      · dsimp only
        rw [happend, HashMap.lookup_modify]
        by_cases hv : v = e.toNode
        · obtain ⟨before, hbefore⟩ := (HashMap.mem_iff_exists _ _).mp hmem
          have hlist := ht.predecessors e.toNode
          rw [hbefore, Option.getD_some] at hlist
          rw [if_pos hv, if_pos hv, hv, hbefore, hlist]
          rfl
        · rw [if_neg hv, if_neg hv, ht.predecessors, List.append_nil]
      · rw [HashMap.mem_modify, ← hknown]
        exact ⟨.inr, fun hv => hv.elim (fun heq => heq ▸ hmem) id⟩
    · rw [if_neg hd, if_neg hd]
      exact ht

/-- The edges of the current node in both searches. -/
lemma Mirrors.foldl {k : ℕ} {layer next : List NodeId} {current : NodeId} {edges : List Edge}
    {s : Search NodeId Edge} {t : QueueSearch} (hs : SearchInv g start k layer next edges s) (ht : Mirrors stop s t)
    (hsource : ∀ e ∈ edges, e.fromNode = current) (hcurrent : current ∉ layer) :
    Mirrors stop (edges.foldl (Search.along Edge.toNode (k + 1)) s)
      (edges.foldl (QueueSearch.alongEdge stop current (k + 1)) t) := by
  induction edges generalizing next s t with
  | nil => exact ht
  | cons e edges ih =>
    have hefrom := hsource e List.mem_cons_self
    obtain ⟨next', hs'⟩ := hs.along (by rw [hefrom]; exact hcurrent)
    have ht' := ht.alongEdge hs
    rw [hefrom] at ht'
    exact ih hs' ht' fun e' he' => hsource e' (List.mem_cons_of_mem _ he')

/-- The search ends with the predecessors of all nodes up to the distance of the end node. -/
structure Ends (g : σ) (start stop : NodeId) (k : ℕ) (s : Search NodeId Edge) (t : QueueSearch) : Prop where
  inv : ∃ layer next, SearchInv g start k layer next [] s
  predecessors : ∀ v, (t.predecessors.lookup v).getD [] = (s.tight.filter (·.toNode = v)).map Edge.fromNode
  known : ∀ v, v ∈ t.predecessors ↔ ∃ e ∈ s.tight, e.toNode = v
  near : ∀ d, IsDist (Link g) start d stop → d ≤ k

/-- The loop of the search. -/
lemma Mirrors.run (hg : Connects g) {k : ℕ} {layer next : List NodeId} {s : Search NodeId Edge} {t : QueueSearch}
    (hs : SearchInv g start k layer next [] s) (ht : Mirrors stop s t) :
    ∃ k' s' t', Ends g start stop k' s' t' ∧ WithFuel (fun fuel => QueueSearch.run g stop fuel t) (· = some t') := by
  have hwf : WellFounded fun s s' : Search NodeId Edge => s.rank (nodeIds g) < s'.rank (nodeIds g) :=
    InvImage.wf (Search.rank (nodeIds g)) wellFounded_lt
  induction s using hwf.induction generalizing k layer next t with
  | _ s ih =>
    have hqueue := ht.queue
    cases hq : s.queue with
    | nil =>
      rw [hq] at hqueue
      exact ⟨k, s, t, ⟨⟨layer, next, hs⟩, ht.predecessors, ht.known, fun d hd => hs.finished hq hd⟩,
        WithFuel.of_forall fun fuel => run_nil hqueue fuel⟩
    | cons current rest =>
      rw [hq] at hqueue
      obtain ⟨k', layer', next', hs'⟩ := hs.head hq
      have hcurrent := (hs'.dist current k').mpr ⟨hs'.layer_dist current List.mem_cons_self, .inl le_rfl⟩
      by_cases hnear : ∃ d, s.dist.lookup stop = some d ∧ d ≤ k'
      · -- the end node is no farther away than what is left in the queue
        obtain ⟨d, hd, hle⟩ := hnear
        have hfar : ∀ u ∈ t.queue, ∃ d', t.distances.lookup u = some d' ∧ d ≤ d' := by
          intro u hu
          rw [ht.queue, hs'.queue] at hu
          rw [ht.distances]
          rcases List.mem_append.mp hu with hu | hu
          · exact ⟨k', (hs'.dist u k').mpr ⟨hs'.layer_dist u hu, .inl le_rfl⟩, hle⟩
          · exact ⟨k' + 1, (hs'.dist u (k' + 1)).mpr ⟨hs'.next_dist u hu, .inr hu⟩, by omega⟩
        refine ⟨k', s, { t with queue := [] }, ⟨⟨_, _, hs'⟩, ht.predecessors, ht.known, fun d' hd' => ?_⟩, ?_⟩
        · rw [hd'.unique ((hs'.dist stop d).mp hd).1]
          exact hle
        · refine Filter.eventually_atTop.mpr ⟨t.queue.length, fun fuel hfuel => ?_⟩
          obtain ⟨extra, rfl⟩ : ∃ extra, fuel = extra + t.queue.length := ⟨fuel - t.queue.length, by omega⟩
          exact run_drain (ht.target.trans hd) hfar extra
      · have hvisit : visit g stop current { t with queue := rest } =
            (outgoingEdges g current).foldl (QueueSearch.alongEdge stop current (k' + 1))
              { t with queue := rest } := by
          have hearly : ¬ (t.targetDistance.any fun d => decide (d ≤ k')) = true := by
            rw [ht.target, Option.any_eq_true]
            rintro ⟨d, hd, hle⟩
            exact hnear ⟨d, hd, of_decide_eq_true hle⟩
          rw [visit]
          simp only [ht.distances, hcurrent, Option.getD_some]
          rw [if_neg hearly]
        have hpop := hs'.pop (hg.nodup_outgoing current) fun e he => hg.fromNode_eq he
        have hmirrors : Mirrors stop { s with queue := s.queue.tail, order := s.order ++ [current] }
            { t with queue := rest } := ⟨by simp [hq], ht.distances, ht.predecessors, ht.known, ht.target⟩
        have hafter := hmirrors.foldl hpop (fun e he => hg.fromNode_eq he) (List.nodup_cons.mp hs'.layer_nodup).1
        obtain ⟨next'', hturn⟩ := hs'.turn (hg.nodup_outgoing current) fun e he => hg.fromNode_eq he
        obtain ⟨k'', s'', t'', hends, hrun⟩ := ih _
          (Search.rank_turn_lt (fun u e he => hg.outgoing_mem he) hq k') hturn hafter
        refine ⟨k'', s'', t'', hends, WithFuel.of_succ (fun fuel => run_cons hqueue fuel) ?_⟩
        rw [hvisit]
        exact hrun

/-- Going back over the predecessors lists the shortest walks. -/
lemma Ends.reconstruct (hg : Connects g) {k : ℕ} {s : Search NodeId Edge} {t : QueueSearch}
    (h : Ends g start stop k s t) {j fuel : ℕ} (hfuel : j ≤ fuel) (hjk : j ≤ k) {v : NodeId}
    (hv : IsDist (Link g) start j v) (tail : List NodeId) :
    (reconstructAllPaths t.predecessors start fuel (v :: tail)).Perm
      ((walksOf Edge.fromNode (into g) start j v).map fun p => p.1 ++ tail) := by
  induction j generalizing fuel v tail with
  | zero =>
    have hroot : v = start := isDist_zero.mp hv
    cases fuel <;> simp [reconstructAllPaths, walksOf, hroot]
  | succ j ih =>
    obtain ⟨fuel, rfl⟩ : ∃ n, fuel = n + 1 := ⟨fuel - 1, by omega⟩
    have hne : v ≠ start := by
      intro heq
      have := hv.unique (isDist_zero.mpr heq)
      omega
    obtain ⟨layer, next, hs⟩ := h.inv
    have hmem := hs.mem_tight_filter hg.mem_into hv (.inl (by omega))
    have hwalks := perm_walksOf hg.mem_into hg.nodup_into hv (hs.tight_nodup.filter _) hmem
    rw [reconstructAllPaths, if_neg hne, h.predecessors, List.flatMap_map]
    refine List.Perm.trans ?_ (hwalks.map _)
    rw [List.map_flatMap]
    refine List.Perm.flatMap_left _ fun e he => ?_
    have hrest := ih (Nat.le_of_succ_le_succ hfuel) (Nat.le_of_succ_le hjk) ((hmem e).mp he).2 (v :: tail)
    refine hrest.trans (List.Perm.of_eq ?_)
    rw [List.map_map]
    exact List.map_congr_left fun p _ => by simp

/-- The predecessors are those of enough nodes. -/
lemma Ends.le_length {k : ℕ} {s : Search NodeId Edge} {t : QueueSearch} (h : Ends g start stop k s t) {d : ℕ}
    (hd : IsDist (Link g) start d stop) : d ≤ t.predecessors.keys.length := by
  obtain ⟨layer, next, hs⟩ := h.inv
  have hnear := h.near d hd
  have hat : ∀ i : Fin d, ∃ u, IsDist (Link g) start (i + 1) u := fun i => hd.exists_le i.isLt
  choose at' hat' using hat
  have hkey : ∀ i, at' i ∈ t.predecessors := by
    intro i
    rw [h.known]
    have hi := i.isLt
    refine (hs.found _ (hs.mem_dist.mpr ⟨_, hat' i, .inl (by omega)⟩)).resolve_left fun hroot => ?_
    have := (hat' i).unique (isDist_zero.mpr hroot)
    omega
  have hinj : Function.Injective at' := by
    intro i i' heq
    have := (hat' i).unique (heq ▸ hat' i')
    exact Fin.ext (by omega)
  have hsub : (List.ofFn at').Subperm t.predecessors.keys := by
    refine List.Nodup.subperm (List.nodup_ofFn.mpr hinj) fun u hu => ?_
    obtain ⟨i, rfl⟩ := (List.mem_ofFn' _ _).mp hu
    exact hkey i
  simpa using hsub.length_le

end QueueSearch

/-- `all_shortest_paths` lists the nodes of every shortest path of edges once. -/
theorem allShortestPaths_connects (hg : Connects g) (start stop : NodeId) :
    ∃ result, WithFuel (fun fuel => allShortestPaths g fuel start stop) (· = some result) ∧
      ∃ walks : List (List NodeId × List Edge), walks.Nodup ∧
        (∀ p, p ∈ walks ↔ IsShortest (Link g) start stop p) ∧ result.Perm (walks.map (·.1)) := by
  have hwalks : ∀ {d : ℕ}, IsDist (Link g) start d stop →
      ∀ p, p ∈ walksOf Edge.fromNode (into g) start d stop ↔ IsShortest (Link g) start stop p := by
    intro d hd p
    rw [mem_walksOf hg.mem_into, isShortest_iff]
    refine and_congr_right fun _ => ⟨fun heq => heq ▸ hd, fun hp => hp.unique hd⟩
  by_cases hends : start = stop
  · subst hends
    have hzero : IsDist (Link g) start 0 start := isDist_zero.mpr rfl
    refine ⟨[[start]], WithFuel.of_forall fun fuel => if_pos rfl, walksOf Edge.fromNode (into g) start 0 start,
      nodup_walksOf hg.nodup_into 0 start, hwalks hzero, ?_⟩
    simp [walksOf]
  · have hbegin : QueueSearch.Mirrors stop (Search.init start) ⟨[start], AList.insert start 0 ∅, ∅, none⟩ := by
      refine ⟨rfl, rfl, fun v => by simp [Search.init], fun v => by simp [Search.init], ?_⟩
      rw [Search.init, HashMap.lookup_insert_ite, if_neg fun heq => hends heq.symm]
      simp
    obtain ⟨k, s, t, ht, hrun⟩ := hbegin.run hg Search.inv_init
    have hresult : WithFuel (fun fuel => allShortestPaths g fuel start stop) (· = some
        (if stop ∈ t.predecessors then
          reconstructAllPaths t.predecessors start t.predecessors.keys.length [stop]
        else [])) := by
      have hsearch : ∀ fuel, allShortestPaths g fuel start stop = (QueueSearch.run g stop fuel
          ⟨[start], AList.insert start 0 ∅, ∅, none⟩).map fun t =>
            if stop ∈ t.predecessors then
              reconstructAllPaths t.predecessors start t.predecessors.keys.length [stop]
            else [] := fun fuel => if_neg hends
      simp only [hsearch]
      exact hrun.map fun r hr => by rw [hr, Option.map_some]
    refine ⟨_, hresult, ?_⟩
    by_cases hmem : stop ∈ t.predecessors
    · rw [if_pos hmem]
      obtain ⟨e, he, hto⟩ := (ht.known stop).mp hmem
      obtain ⟨layer, next, hs⟩ := ht.inv
      obtain ⟨j, ⟨-, -, hdist⟩, -⟩ := (hs.tight e).mp he
      rw [hto] at hdist
      refine ⟨_, nodup_walksOf hg.nodup_into (j + 1) stop, hwalks hdist, ?_⟩
      have hperm := ht.reconstruct hg (ht.le_length hdist) (ht.near _ hdist) hdist []
      simpa using hperm
    · rw [if_neg hmem]
      refine ⟨[], List.nodup_nil, fun p => ⟨fun hp => absurd hp List.not_mem_nil, fun hp => ?_⟩, List.Perm.refl _⟩
      -- a walk would have been found
      obtain ⟨-, hdist⟩ := isShortest_iff.mp hp
      obtain ⟨layer, next, hs⟩ := ht.inv
      have hmet := hs.mem_dist.mpr ⟨_, hdist, .inl (ht.near _ hdist)⟩
      refine absurd ((ht.known stop).mpr ?_) hmem
      exact (hs.found stop hmet).resolve_left fun heq => hends heq.symm

end

end Maharit
