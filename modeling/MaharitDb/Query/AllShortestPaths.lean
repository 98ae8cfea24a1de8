import MaharitDb.Core.Traversal
import MaharitDb.Query.ShortestPaths

/-!
# The function and the pattern `allShortestPaths`

The scalar function takes the paths of nodes that the search with a queue finds, and looks up an edge for each step;
the pattern takes the paths of edges that the search in layers finds.  The two searches visit the same nodes in the
same order.  They find the same paths when no edge of a shortest path has a parallel one; otherwise the function lists
one path several times, always with the first of the parallel edges, and misses the others.
-/

namespace Maharit

open Walks

variable {σ : Type} [GraphBackend σ] (g : σ)

/-! ## The function -/

/-- `extract_edge_ids`: for each step the first edge that leads to the next node. -/
def extractEdgeIds : List NodeId → List EdgeId
  | u :: v :: nodes =>
      (((GraphBackend.outgoingEdges g u).find? fun e => e.toNode = v).map Edge.id).toList ++
        extractEdgeIds (v :: nodes)
  | _ => []

/-- The node that a variable of a function is bound to. -/
def functionNode (b : Bindings) (name : String) : Except ExecuteError NodeId :=
  match (b.lookup name).bind (·.asNode) with
  | some id => .ok id
  | none => .error (.undefinedVariable name)

/-- `ScalarFunction::AllShortestPaths`. -/
def evaluateAllShortestPaths (b : Bindings) (start stop : String) (fuel : ℕ) : Option (Except ExecuteError Value) :=
  match functionNode b start with
  | .error err => some (.error err)
  | .ok startId =>
      match functionNode b stop with
      | .error err => some (.error err)
      | .ok stopId =>
          (allShortestPaths g fuel startId stopId).map fun paths =>
            .ok (.list (paths.map fun nodes => .path nodes (extractEdgeIds g nodes)))

/-! ## The pattern -/

/-- The hop `-[*]->(b)`. -/
def anyLengthHop (stop : String) : PathSegment Expression where
  edge := { var := none, edgeType := none, properties := [], direction := .outgoing, lengthRange := some ⟨1, none⟩ }
  node := { var := some stop, labels := [], properties := [] }

/-- The pattern `p = allShortestPaths((a)-[*]->(b))`. -/
def allShortestPattern (path start stop : String) : PathPattern Expression where
  var := some path
  start := { var := some start, labels := [], properties := [] }
  segments := [anyLengthHop stop]
  shortest := some .all

/-! ## The two searches -/

/-- The search with a queue stands where the search in layers does, with some nodes of the layer still to visit. -/
structure QueueSearch.Follows (stop : NodeId) (rest : List NodeId) (s : Layer) (t : QueueSearch) : Prop where
  queue : t.queue = rest ++ s.frontier
  distances : ∀ v, t.distances.lookup v = s.dist.lookup v
  predecessors : ∀ v, t.predecessors.lookup v = (s.preds.lookup v).map (List.map Prod.fst)
  target : t.targetDistance = s.dist.lookup stop
  known : ∀ v, (s.preds.lookup v).isSome ↔ ∃ d, s.dist.lookup v = some (d + 1)

variable {g} {segment : PathSegment Expression} {start stop : NodeId}

/-- The hop goes over all edges in their direction. -/
structure PathSegment.Plain (segment : PathSegment Expression) : Prop where
  edgeType : segment.edge.edgeType = none
  direction : segment.edge.direction = .outgoing

lemma PathSegment.Plain.hopEdges_eq (hplain : segment.Plain) (u : NodeId) :
    hopEdges g segment u = GraphBackend.outgoingEdges g u := by
  rw [hopEdges, hplain.direction, getEdgesByDirection]
  exact List.filter_eq_self.mpr fun e _ => by simp [hplain.edgeType]

lemma Layer.over_depth (kind : ShortestPathKind) (u : NodeId) (s : Layer) (e : Edge) :
    (Layer.over segment kind u s e).depth = s.depth := by
  unfold Layer.over
  dsimp only
  split
  · rfl
  · split <;> rfl

/-- A distance that is known stays; a new one is that of the next layer. -/
lemma Layer.over_dist (kind : ShortestPathKind) (u : NodeId) (s : Layer) (e : Edge) (v : NodeId) :
    (Layer.over segment kind u s e).dist.lookup v = s.dist.lookup v ∨
      s.dist.lookup v = none ∧ (Layer.over segment kind u s e).dist.lookup v = some (s.depth + 1) := by
  unfold Layer.over
  dsimp only
  generalize getNextNode u e segment.edge.direction = next
  cases hnext : s.dist.lookup next with
  | none =>
    simp only [HashMap.lookup_insert_ite]
    by_cases hv : v = next
    · exact .inr ⟨hv ▸ hnext, if_pos hv⟩
    · exact .inl (if_neg hv)
  | some d =>
    left
    simp only
    split <;> rfl

/-- One edge in both searches. -/
lemma QueueSearch.Follows.alongEdge (hplain : segment.Plain) {rest : List NodeId} {s : Layer} {t : QueueSearch}
    (h : Follows stop rest s t) (u : NodeId) (e : Edge) :
    Follows stop rest (Layer.over segment .all u s e) (t.alongEdge stop u (s.depth + 1) e) := by
  obtain ⟨hqueue, hdistances, hpredecessors, htarget, hknown⟩ := h
  have hnext : getNextNode u e segment.edge.direction = e.toNode := by
    rw [hplain.direction]
    rfl
  unfold Layer.over QueueSearch.alongEdge
  dsimp only
  rw [hnext, hdistances]
  cases hdist : s.dist.lookup e.toNode with
  | none =>
    refine ⟨?_, fun v => ?_, fun v => ?_, ?_, fun v => ?_⟩
    · simp [hqueue]
    · simp [HashMap.lookup_insert_ite, hdistances]
    · simp only [HashMap.lookup_insert_ite, hpredecessors]
      split <;> rfl
    · simp only [HashMap.lookup_insert_ite, htarget, eq_comm]
    · simp only [HashMap.lookup_insert_ite]
      by_cases hv : v = e.toNode
      · simp [hv]
      · simp [hv, hknown]
  | some d =>
    by_cases hd : d = s.depth + 1
    · simp only [hd, and_self, if_true]
      refine ⟨hqueue, hdistances, fun v => ?_, htarget, fun v => ?_⟩
      · rw [HashMap.lookup_modify, HashMap.modifyDefault, HashMap.lookup_insert_ite]
        by_cases hv : v = e.toNode
        · obtain ⟨before, hbefore⟩ := Option.isSome_iff_exists.mp ((hknown e.toNode).mpr ⟨s.depth, by rw [hdist, hd]⟩)
          rw [hv, if_pos rfl, if_pos rfl, hpredecessors, HashMap.getDefault, hbefore]
          simp
        · simp [hv, hpredecessors]
      · rw [HashMap.modifyDefault, HashMap.lookup_insert_ite]
        by_cases hv : v = e.toNode
        · rw [hv, if_pos rfl, hdist, hd]
          simp
        · rw [if_neg hv, hknown]
    · simp only [hd, false_and, if_false]
      exact ⟨hqueue, hdistances, hpredecessors, htarget, hknown⟩

/-- The edges of a node in both searches. -/
lemma QueueSearch.Follows.foldl (hplain : segment.Plain) {rest : List NodeId} (u : NodeId) {depth : ℕ}
    (edges : List Edge) {s : Layer} {t : QueueSearch} (hdepth : s.depth = depth) (h : Follows stop rest s t) :
    Follows stop rest (edges.foldl (Layer.over segment .all u) s)
        (edges.foldl (QueueSearch.alongEdge stop u (depth + 1)) t) ∧
      (edges.foldl (Layer.over segment .all u) s).depth = depth := by
  induction edges generalizing s t with
  | nil => exact ⟨h, hdepth⟩
  | cons e edges ih =>
    subst hdepth
    exact ih (Layer.over_depth ..) (h.alongEdge hplain u e)

lemma Layer.foldl_dist (kind : ShortestPathKind) (u : NodeId) (edges : List Edge) (s : Layer) (v : NodeId) :
    (edges.foldl (Layer.over segment kind u) s).dist.lookup v = s.dist.lookup v ∨
      s.dist.lookup v = none ∧ (edges.foldl (Layer.over segment kind u) s).dist.lookup v = some (s.depth + 1) := by
  induction edges generalizing s with
  | nil => exact .inl rfl
  | cons e edges ih =>
    rw [List.foldl_cons]
    have hdepth : (Layer.over segment kind u s e).depth = s.depth := Layer.over_depth kind u s e
    rcases ih (Layer.over segment kind u s e) with hsame | ⟨hnone, hnew⟩
    · rw [hsame]
      exact Layer.over_dist kind u s e v
    · rcases Layer.over_dist kind u s e v with hsame | ⟨-, hknown⟩
      · exact .inr ⟨hsame ▸ hnone, hdepth ▸ hnew⟩
      · rw [hnone] at hknown
        cases hknown

/-- The nodes of a layer, one after the other. -/
lemma QueueSearch.Follows.run_layer (hplain : segment.Plain) {nodes : List NodeId} {s : Layer} {t : QueueSearch}
    (h : Follows stop nodes s t) (hnodes : ∀ u ∈ nodes, s.dist.lookup u = some s.depth)
    (hstop : ∀ d, s.dist.lookup stop = some d → s.depth < d) :
    ∃ t', (∀ fuel, run g stop (fuel + nodes.length) t = run g stop fuel t') ∧
      Follows stop [] (nodes.foldl (fun s' id => (hopEdges g segment id).foldl (Layer.over segment .all id) s') s) t' := by
  induction nodes generalizing s t with
  | nil => exact ⟨t, fun _ => rfl, h⟩
  | cons u nodes ih =>
    have hrest : Follows stop nodes s { t with queue := nodes ++ s.frontier } :=
      ⟨rfl, h.distances, h.predecessors, h.target, h.known⟩
    have hdist : t.distances.lookup u = some s.depth := (h.distances u).trans (hnodes u List.mem_cons_self)
    have hvisit : visit g stop u { t with queue := nodes ++ s.frontier } =
        (hopEdges g segment u).foldl (QueueSearch.alongEdge stop u (s.depth + 1))
          { t with queue := nodes ++ s.frontier } := by
      have hearly : ¬ (t.targetDistance.any fun d => decide (d ≤ s.depth)) = true := by
        rw [h.target, Option.any_eq_true]
        rintro ⟨d, hd, hle⟩
        exact absurd (hstop d hd) (Nat.not_lt.mpr (of_decide_eq_true hle))
      rw [visit, hplain.hopEdges_eq]
      simp only [hdist, Option.getD_some]
      rw [if_neg hearly]
    obtain ⟨hfollows, hdepth⟩ := hrest.foldl hplain u (hopEdges g segment u) rfl
    have hdist' := @Layer.foldl_dist segment .all u (hopEdges g segment u) s
    obtain ⟨t', hrun, hdone⟩ := ih hfollows
      (fun v hv => by
        have hv' := hnodes v (List.mem_cons_of_mem _ hv)
        rcases hdist' v with hsame | ⟨hnone, -⟩
        · rw [hsame, hv', hdepth]
        · rw [hv'] at hnone
          cases hnone)
      (fun d hd => by
        rw [hdepth]
        rcases hdist' stop with hsame | ⟨-, hnew⟩
        · exact hstop d (hsame ▸ hd)
        · rw [hnew] at hd
          obtain rfl := Option.some.inj hd
          exact Nat.lt_succ_self _)
    have hqueue : t.queue = u :: (nodes ++ s.frontier) := h.queue
    refine ⟨t', fun fuel => ?_, hdone⟩
    rw [List.length_cons, ← Nat.add_assoc, run_cons hqueue, hvisit]
    exact hrun fuel

/-- The search ends where the search in layers stands when the end node is known or no node is left. -/
lemma QueueSearch.Follows.run_eq (hg : GraphBackend.Coherent g) (hplain : segment.Plain) {layers : ℕ} {s : Layer}
    {t : QueueSearch} (h : Follows stop [] s t) (hs : s.Correct g segment .all start)
    (hlayers : ∀ d v, HopDist g segment start d v → d < s.depth + layers) :
    ∃ (s' : Layer) (t' : QueueSearch), s'.Correct g segment .all start ∧ (stop ∈ s'.dist ∨ s'.frontier = []) ∧
      (∀ v, t'.predecessors.lookup v = (s'.preds.lookup v).map (List.map Prod.fst)) ∧
      (∀ v, (s'.preds.lookup v).isSome ↔ ∃ d, s'.dist.lookup v = some (d + 1)) ∧
      WithFuel (fun fuel => run g stop fuel t) (· = some t') := by
  induction layers generalizing s t with
  | zero =>
    have hempty : s.frontier = [] := by
      refine List.eq_nil_iff_forall_not_mem.mpr fun v hv => ?_
      have hlt := hlayers _ v ((hs.frontier v).mp hv)
      omega
    have hqueue : t.queue = [] := h.queue.trans hempty
    exact ⟨s, t, hs, .inr hempty, h.predecessors, h.known, WithFuel.of_forall fun fuel => run_nil hqueue fuel⟩
  | succ layers ih =>
    have hqueue : t.queue = s.frontier := h.queue
    by_cases hstop : stop ∈ s.dist
    · obtain ⟨d, hd⟩ := (HashMap.mem_iff_exists s.dist stop).mp hstop
      have hle : d ≤ s.depth := ((hs.dist stop d).mp hd).1
      refine ⟨s, { t with queue := [] }, hs, .inl hstop, h.predecessors, h.known, ?_⟩
      refine Filter.eventually_atTop.mpr ⟨t.queue.length, fun fuel hfuel => ?_⟩
      obtain ⟨extra, rfl⟩ : ∃ extra, fuel = extra + t.queue.length := ⟨fuel - t.queue.length, by omega⟩
      refine run_drain (h.target.trans hd) (fun u hu => ?_) extra
      rw [hqueue] at hu
      exact ⟨s.depth, (h.distances u).trans ((hs.dist u s.depth).mpr ⟨le_rfl, (hs.frontier u).mp hu⟩), hle⟩
    · have hfollows : Follows stop s.frontier { s with frontier := [] } t :=
        ⟨hqueue.trans (List.append_nil _).symm, h.distances, h.predecessors, h.target, h.known⟩
      obtain ⟨t', hrun, hdone⟩ := hfollows.run_layer (g := g) hplain
        (fun u hu => (hs.dist u s.depth).mpr ⟨le_rfl, (hs.frontier u).mp hu⟩)
        (fun d hd => absurd ((HashMap.mem_iff_exists s.dist stop).mpr ⟨d, hd⟩) hstop)
      have hnext : Follows stop [] (s.next g segment .all) t' :=
        ⟨hdone.queue, hdone.distances, hdone.predecessors, hdone.target, hdone.known⟩
      have hlayers' : ∀ d v, HopDist g segment start d v → d < (s.next g segment .all).depth + layers := by
        intro d v hdist
        have hlt := hlayers d v hdist
        have hdepth : (s.next g segment .all).depth = s.depth + 1 := rfl
        omega
      obtain ⟨s', t'', hs', hend, hpreds, hknown, hfuel⟩ := ih hnext (hs.next hg) hlayers'
      refine ⟨s', t'', hs', hend, hpreds, hknown, ?_⟩
      obtain ⟨n₀, hn₀⟩ := Filter.eventually_atTop.mp hfuel
      refine Filter.eventually_atTop.mpr ⟨n₀ + s.frontier.length, fun fuel hge => ?_⟩
      obtain ⟨extra, rfl⟩ : ∃ extra, fuel = extra + s.frontier.length := ⟨fuel - s.frontier.length, by omega⟩
      show run g stop (extra + s.frontier.length) t = some t''
      rw [hrun extra]
      exact hn₀ extra (by omega)

/-! ## The paths of nodes -/

/-- Going back over nodes finds the nodes of what going back over edges finds, in another order. -/
lemma reconstructAllPaths_perm {predecessors : HashMap NodeId (List NodeId)} {preds : Predecessors}
    (h : ∀ v, predecessors.lookup v = (preds.lookup v).map (List.map Prod.fst)) (fuel : ℕ) (nodes : List NodeId)
    (edges : List EdgeId) :
    (reconstructAllPaths predecessors start fuel nodes).Perm ((backwards preds start fuel nodes edges).map (·.1)) := by
  induction fuel generalizing nodes edges with
  | zero =>
    cases nodes with
    | nil => simp [reconstructAllPaths, backwards]
    | cons head nodes =>
      rw [reconstructAllPaths, backwards]
      split <;> simp
  | succ fuel ih =>
    cases nodes with
    | nil => simp [reconstructAllPaths, backwards]
    | cons head nodes =>
      rw [reconstructAllPaths, backwards]
      by_cases hstart : head = start
      · simp [hstart]
      · rw [if_neg hstart, if_neg hstart, h]
        have hbefore : ((preds.lookup head).map (List.map Prod.fst)).getD [] =
            ((preds.lookup head).getD []).map Prod.fst := by
          cases preds.lookup head <;> rfl
        rw [hbefore, List.flatMap_map, List.map_flatMap]
        refine ((List.reverse_perm _).symm.flatMap_right _).trans ?_
        exact List.Perm.flatMap_left _ fun p _ => ih (p.1 :: head :: nodes) (p.2 :: edges)

/-- The shortest paths to a node over all edges, each once. -/
structure AllPaths (g : σ) (segment : PathSegment Expression) (start stop : NodeId)
    (paths : List (List NodeId × List EdgeId)) : Prop where
  nodup : paths.Nodup
  mem_iff : ∀ q, q ∈ paths ↔ (⟨stop, q.1, q.2⟩ : FoundPath).Shortest g segment start

/-- The function finds the nodes of all shortest paths. -/
theorem allShortestPaths_withFuel (hg : GraphBackend.Listed g) (hplain : segment.Plain) (hne : start ≠ stop)
    {paths : List (List NodeId × List EdgeId)} (hpaths : AllPaths g segment start stop paths) :
    ∃ found, found.Perm (paths.map (·.1)) ∧
      WithFuel (fun fuel => allShortestPaths g fuel start stop) (· = some found) := by
  have hfollows : QueueSearch.Follows stop [] ⟨AList.insert start 0 ∅, ∅, [start], 0⟩
      ⟨[start], AList.insert start 0 ∅, ∅, none⟩ := by
    refine ⟨rfl, fun _ => rfl, fun _ => rfl, ?_, fun v => ?_⟩
    · rw [HashMap.lookup_insert_ite, if_neg hne.symm]
      rfl
    · simp only [HashMap.lookup_insert_ite]
      split <;> simp
  have hlayers : ∀ d v, HopDist g segment start d v → d < 0 + ((GraphBackend.edgeIds g).length + 1) := by
    intro d v hdist
    have hle := dist_le_edgeIds hg hdist
    omega
  obtain ⟨s, t, hs, hend, hpreds, hknown, hrun⟩ := hfollows.run_eq hg.toCoherent hplain
    (Layer.correct_start g segment .all start) hlayers
  have hresult : WithFuel (fun fuel => allShortestPaths g fuel start stop) (· = some
      (if stop ∈ t.predecessors then reconstructAllPaths t.predecessors start t.predecessors.keys.length [stop]
        else [])) := by
    refine Filter.Eventually.mono hrun fun fuel (hr : QueueSearch.run g stop fuel _ = some t) => ?_
    show allShortestPaths g fuel start stop = _
    rw [allShortestPaths, if_neg hne, hr, Option.map_some]
  refine ⟨_, ?_, hresult⟩
  have hmem : stop ∈ t.predecessors ↔ ∃ d, s.dist.lookup stop = some (d + 1) := by
    rw [← hknown stop, ← AList.lookup_isSome, hpreds, Option.isSome_map]
  by_cases hstop : stop ∈ s.dist
  · obtain ⟨d, hd⟩ := (HashMap.mem_iff_exists s.dist stop).mp hstop
    obtain ⟨hle, hdist⟩ := (hs.dist stop d).mp hd
    obtain ⟨k, rfl⟩ : ∃ k, d = k + 1 := by
      cases d with
      | zero => exact absurd (isDist_zero.mp hdist).symm hne
      | succ k => exact ⟨k, rfl⟩
    rw [if_pos (hmem.mpr ⟨k, hd⟩)]
    have hkeys : t.predecessors.keys.length = s.preds.keys.length := by
      refine (List.perm_ext_iff_of_nodup (AList.keys_nodup _) (AList.keys_nodup _)).mpr (fun v => ?_) |>.length_eq
      rw [← AList.mem_keys, ← AList.mem_keys, ← AList.lookup_isSome, ← AList.lookup_isSome, hpreds, Option.isSome_map]
    have hfound := foundBack_backwards hs.preds hle (hs.preds.dist_le hle hdist) hdist [] []
    refine (reconstructAllPaths_perm hpreds _ [stop] []).trans (List.Perm.map _ ?_)
    rw [hkeys]
    refine (List.perm_ext_iff_of_nodup (hfound.nodup rfl) hpaths.nodup).mpr fun q => ?_
    rw [hpaths.mem_iff, FoundPath.shortest_iff]
    constructor
    · intro hq
      obtain ⟨ns, es, hwalks, hes, rfl⟩ := hfound.sound q hq
      simp only [List.append_nil]
      exact ⟨hwalks, hes ▸ hdist⟩
    · rintro ⟨hwalks, hdist'⟩
      have hback := hfound.complete rfl q.1 q.2 hwalks (hdist'.unique hdist)
      simpa using hback
  · have hnone : paths = [] := by
      refine List.eq_nil_iff_forall_not_mem.mpr fun q hq => ?_
      have hdist : HopDist g segment start q.2.length stop :=
        (FoundPath.shortest_iff.mp ((hpaths.mem_iff q).mp hq)).2
      rcases Nat.le_total q.2.length s.depth with hle | hge
      · exact hstop ((HashMap.mem_iff_exists s.dist stop).mpr ⟨_, (hs.dist stop _).mpr ⟨hle, hdist⟩⟩)
      · obtain ⟨u, hu⟩ := hdist.exists_le hge
        have hfrontier := (hs.frontier u).mpr hu
        rw [hend.resolve_left hstop] at hfrontier
        cases hfrontier
    have hunknown : stop ∉ t.predecessors := by
      rw [hmem]
      rintro ⟨d, hd⟩
      exact hstop ((HashMap.mem_iff_exists s.dist stop).mpr ⟨_, hd⟩)
    rw [if_neg hunknown, hnone]
    exact List.Perm.nil

/-! ## What the pattern binds -/

/-- The hop with the hidden variable of its relationship. -/
def namedHop (stop : String) : PathSegment Expression := (nameSegment true 0 (anyLengthHop stop)).2

/-- The two ends of the paths: variables of a query that are bound to distinct nodes of the graph. -/
structure DistinctEnds (g : σ) (b : Bindings) (path first last : String) (start stop : NodeId) : Prop where
  visible : IsVisible path ∧ IsVisible first ∧ IsVisible last
  first : b.lookup first = some (.node start)
  last : b.lookup last = some (.node stop)
  nodes : GraphBackend.containsNode g start = true ∧ GraphBackend.containsNode g stop = true
  distinct : start ≠ stop

variable {b : Bindings} {path first last : String}

/-- A bound node without conditions fits when it is in the graph. -/
lemma nodeMatchesPattern_bound {x : Executor σ} {ev : Evaluator} {name : String} {id : NodeId}
    (hbound : b.lookup name = some (.node id)) (hnode : GraphBackend.containsNode x.graph id = true) :
    nodeMatchesPattern x ev id { var := some name, labels := [], properties := [] } b = .ok true := by
  simp [nodeMatchesPattern, hbound, BindingValue.asNode, hnode, Except.allM]

/-- The rows of the hop to a bound node are those of all shortest paths to it. -/
lemma DistinctEnds.matchShortest_eq (hg : GraphBackend.Listed g) (ev : Evaluator)
    (h : DistinctEnds g b path first last start stop) {prev : NodePattern Expression}
    (hstart : hopStart prev b = .ok start) :
    ∃ paths : List FoundPath,
      (paths.Nodup ∧ ∀ q, q ∈ paths ↔ q.Shortest g (namedHop last) start ∧ q.stop = stop) ∧
      matchShortest g ev (namedHop last) prev .all 1 none b = .ok (paths.map (bindFound (namedHop last) b)) := by
  obtain ⟨targets, pathsTo, hnodup, htargets, hpaths, hrows⟩ :=
    @exists_rowsOf σ _ g (namedHop last) .all start hg ev prev b hstart
  have hfits : endMatches g ev (namedHop last) b stop = .ok true :=
    nodeMatchesPattern_bound (x := .bare g) h.last h.nodes.2
  have hother : ∀ v, v ≠ stop → endMatches g ev (namedHop last) b v = .ok false := by
    refine endMatches_bound ev b stop ?_
    show ((some last).bind b.lookup).bind (·.asNode) = some stop
    rw [Option.bind_some, h.last]
    rfl
  have hreach : ∀ q : FoundPath, q.Shortest g (namedHop last) start → q.stop = stop → stop ∈ targets := by
    intro q hq hstop
    refine (htargets stop).mpr ⟨⟨q, hq, hstop, ?_, by simp [shortestBounds, namedHop, nameSegment, anyLengthHop]⟩, hfits⟩
    by_contra hshort
    have hzero : q.edges.length = 0 := by
      have hbound : (shortestBounds (namedHop last)).1 = 1 := rfl
      omega
    obtain ⟨-, hdist⟩ := FoundPath.shortest_iff.mp hq
    rw [hzero, hstop] at hdist
    exact h.distinct (isDist_zero.mp hdist).symm
  have honly : ∀ v ∈ targets, v = stop := by
    intro v hv
    by_contra hne
    have hpass := ((htargets v).mp hv).2
    rw [hother v hne] at hpass
    cases hpass
  refine ⟨targets.flatMap pathsTo, ?_, (hrows _).mpr ⟨fun v _ => ?_, ?_⟩⟩
  · by_cases hmem : stop ∈ targets
    · have hone : targets = [stop] := by
        refine List.perm_singleton.mp ((List.perm_ext_iff_of_nodup hnodup (List.nodup_singleton stop)).mpr fun v => ?_)
        rw [List.mem_singleton]
        exact ⟨honly v, fun hv => hv ▸ hmem⟩
      obtain ⟨hsound, -, hpathsNodup, hall⟩ := hpaths stop hmem
      rw [hone, List.flatMap_singleton]
      exact ⟨hpathsNodup, fun q => ⟨hsound q, fun hq => hall rfl q hq.1 hq.2⟩⟩
    · have hnone : targets = [] :=
        List.eq_nil_iff_forall_not_mem.mpr fun v hv => hmem (honly v hv ▸ hv)
      rw [hnone, List.flatMap_nil]
      exact ⟨List.nodup_nil, fun q => iff_of_false List.not_mem_nil fun hq => hmem (hreach q hq.1 hq.2)⟩
  · by_cases hv : v = stop
    · exact ⟨true, hv ▸ hfits⟩
    · exact ⟨false, hother v hv⟩
  · rw [List.map_flatMap]

/-- The hidden variable does not change the paths. -/
lemma shortest_namedHop {q : FoundPath} :
    q.Shortest g (namedHop last) start ↔ q.Shortest g (anyLengthHop last) start :=
  ⟨fun h => ⟨h.walks, h.least⟩, fun h => ⟨h.walks, h.least⟩⟩

/-- What a row binds the path variable to. -/
def boundPath (path : String) (row : Bindings) : Option (List NodeId × List EdgeId) :=
  match row.lookup path with
  | some (.path nodes edges) => some (nodes, edges)
  | _ => none

/-- The pattern binds its variable to every shortest path, once. -/
theorem matchPathPattern_allShortest {x : Executor σ} (hg : GraphBackend.Listed x.graph) (ev : Evaluator)
    (h : DistinctEnds x.graph b path first last start stop) :
    ∃ rows paths, matchPathPattern .standard x ev (allShortestPattern path first last) [b] = .ok rows ∧
      rows.map (boundPath path) = paths.map some ∧ AllPaths x.graph (anyLengthHop last) start stop paths := by
  have hstart : hopStart { var := some first, labels := [], properties := [] } b = .ok start := by
    simp [hopStart, h.first, BindingValue.asNode]
  obtain ⟨paths, ⟨hnodup, hmem⟩, hrows⟩ := h.matchShortest_eq hg ev hstart
  have hhidden : ∀ name, IsVisible name → anonVar 1 ≠ name := by
    rintro name hname rfl
    exact not_isVisible_anonVar 1 hname
  have hfirst_last : last ≠ first := by
    rintro rfl
    have hsame := h.first.symm.trans h.last
    exact h.distinct (BindingValue.node.inj (Option.some.inj hsame))
  let row : FoundPath → Bindings := fun q =>
    dropHidden ((bindFound (namedHop last) b q).insert path (.path q.nodes q.edges))
  have hbind : ∀ q ∈ paths, bindPath (nameAnonymous (allShortestPattern path first last))
      (bindFound (namedHop last) b q) = .ok [(bindFound (namedHop last) b q).insert path (.path q.nodes q.edges)] := by
    intro q hq
    have hwalks := ((hmem q).mp hq).1.walks
    have hfirst : (bindFound (namedHop last) b q).lookup first = some (.node start) := by
      have hedge : (namedHop last).edge.var ≠ some first := fun heq =>
        hhidden first h.visible.2.1 (Option.some.inj heq)
      have hnode : (namedHop last).node.var ≠ some first := fun heq => hfirst_last (Option.some.inj heq)
      rw [lookup_bindFound, if_neg hedge, if_neg hnode, h.first]
    have hedges : (bindFound (namedHop last) b q).lookup (anonVar 1) = some (.path q.nodes q.edges) :=
      (lookup_bindFound b q _).trans (if_pos rfl)
    obtain ⟨rest, hrest⟩ := List.head?_eq_some_iff.mp hwalks.head
    have hassemble : assemblePath (nameAnonymous (allShortestPattern path first last))
        (bindFound (namedHop last) b q) = .ok (.path q.nodes q.edges) := by
      have hnode : pathNode (bindFound (namedHop last) b q) (some first) = .ok start := by
        simp [pathNode, hfirst, BindingValue.asNode]
      have hsegments : assembleSegments (bindFound (namedHop last) b q) [namedHop last] = .ok (rest, q.edges) := by
        have hedge : (namedHop last).edge.var.bind (bindFound (namedHop last) b q).lookup =
            some (.path q.nodes q.edges) := hedges
        rw [assembleSegments, hedge]
        simp [assembleSegments, Except.map, hrest]
      show (pathNode _ (some first)).bind (fun start => (assembleSegments _ [namedHop last]).map _) = _
      rw [hnode, hsegments, hrest]
      rfl
    show (assemblePath _ _).map _ = _
    rw [hassemble]
    rfl
  have hpattern : matchPathPattern .standard x ev (allShortestPattern path first last) [b] = .ok (paths.map row) := by
    have hanonymous : hasAnonymous (allShortestPattern path first last) = true := rfl
    have hnode : matchNodePattern x ev (nameAnonymous (allShortestPattern path first last)).start [b] = .ok [b] := by
      have hfits : nodeMatchesPattern x ev start { var := some first, labels := [], properties := [] } b = .ok true :=
        nodeMatchesPattern_bound h.first h.nodes.1
      rw [matchNodePattern, Except.collect_singleton]
      show matchNode x ev { var := some first, labels := [], properties := [] } b = .ok [b]
      simp [matchNode, h.first, BindingValue.asNode, hfits, Except.map]
    have hsegments : matchSegments .standard x ev (some .all) [namedHop last]
        { var := some first, labels := [], properties := [] } [b] = .ok (paths.map (bindFound (namedHop last) b)) := by
      have hsegment : PathSearch.standard.shortest x.graph ev (namedHop last)
          { var := some first, labels := [], properties := [] } .all [b] =
            .ok (paths.map (bindFound (namedHop last) b)) := (Except.collect_singleton _ b).trans hrows
      simp only [matchSegments, hsegment]
      rfl
    have hcollect : Except.collect (bindPath (nameAnonymous (allShortestPattern path first last)))
        (paths.map (bindFound (namedHop last) b)) =
          .ok (paths.map fun q => (bindFound (namedHop last) b q).insert path (.path q.nodes q.edges)) := by
      rw [Except.collect_map, Except.collect_eq_ok]
      exact ⟨_, hbind, List.flatMap_pure_eq_map .. |>.symm⟩
    unfold matchPathPattern
    simp only [hanonymous, if_true, hnode]
    show ((matchSegments .standard x ev (some .all) [namedHop last]
      { var := some first, labels := [], properties := [] } [b]).bind _) = _
    rw [hsegments]
    show (Except.collect (bindPath (nameAnonymous (allShortestPattern path first last))) _).map _ = _
    rw [hcollect]
    exact congrArg Except.ok List.map_map
  refine ⟨_, paths.map fun q => (q.nodes, q.edges), hpattern, ?_, ⟨?_, fun q => ?_⟩⟩
  · rw [List.map_map, List.map_map]
    refine List.map_congr_left fun q _ => ?_
    have hlookup : (row q).lookup path = some (.path q.nodes q.edges) := by
      rw [lookup_dropHidden _ h.visible.1, HashMap.lookup_insert_ite, if_pos rfl]
    simp only [Function.comp_apply, boundPath, hlookup]
  · refine hnodup.map_on fun q hq q' hq' heq => ?_
    obtain ⟨hnodes, hedges⟩ := Prod.mk.inj heq
    obtain ⟨stop', nodes, edges⟩ := q
    obtain ⟨stop'', nodes', edges'⟩ := q'
    obtain rfl : stop' = stop := ((hmem _).mp hq).2
    obtain rfl : stop'' = stop' := ((hmem _).mp hq').2
    simp only at hnodes hedges
    rw [hnodes, hedges]
  · rw [List.mem_map]
    constructor
    · rintro ⟨q, hq, rfl⟩
      obtain ⟨hshort, rfl⟩ := (hmem q).mp hq
      exact shortest_namedHop.mp hshort
    · intro hq
      exact ⟨⟨stop, q.1, q.2⟩, (hmem _).mpr ⟨shortest_namedHop.mpr hq, rfl⟩, rfl⟩

/-! ## Parallel edges -/

/-- No edge of a shortest path has a parallel one. -/
def NoParallelEdges (g : σ) (last : String) (start stop : NodeId) : Prop :=
  ∀ q : FoundPath, q.Shortest g (anyLengthHop last) start → q.stop = stop → ∀ e e' : Edge,
    GraphBackend.getEdge g e.id = some e → GraphBackend.getEdge g e'.id = some e' →
      e.fromNode = e'.fromNode → e.toNode = e'.toNode → e.id ∈ q.edges → e' = e

/-- Without parallel edges the edges that are looked up are those of the path. -/
lemma extractEdgeIds_eq (hg : GraphBackend.Coherent g) {nodes : List NodeId} {edges : List EdgeId}
    (hwalk : IsWalk (HopLinks g (anyLengthHop last)) nodes edges)
    (honly : ∀ e e' : Edge, GraphBackend.getEdge g e.id = some e → GraphBackend.getEdge g e'.id = some e' →
      e.fromNode = e'.fromNode → e.toNode = e'.toNode → e.id ∈ edges → e' = e) :
    extractEdgeIds g nodes = edges := by
  induction nodes generalizing edges with
  | nil => cases edges <;> exact hwalk.elim
  | cons u nodes ih =>
    cases nodes with
    | nil =>
      cases edges with
      | nil => rfl
      | cons id edges => exact hwalk.elim
    | cons v nodes =>
      cases edges with
      | nil => exact hwalk.elim
      | cons id edges =>
        obtain ⟨⟨e, rfl, hlive, -, hfrom, hto⟩, hwalk⟩ := hwalk
        have hrest := ih hwalk fun d d' hd hd' hfrom hto hmem =>
          honly d d' hd hd' hfrom hto (List.mem_cons_of_mem _ hmem)
        have hout : e ∈ GraphBackend.outgoingEdges g u := (hg.mem_outgoingEdges u e).mpr ⟨hlive, hfrom⟩
        have hfind : (GraphBackend.outgoingEdges g u).find? (fun e => e.toNode = v) = some e := by
          cases hfound : (GraphBackend.outgoingEdges g u).find? (fun e => e.toNode = v) with
          | none =>
            have hnone := List.find?_eq_none.mp hfound e hout
            exact absurd (decide_eq_true hto) hnone
          | some e' =>
            obtain ⟨hlive', hfrom'⟩ := (hg.mem_outgoingEdges u e').mp (List.mem_of_find?_eq_some hfound)
            have hto' : e'.toNode = v := by simpa using List.find?_some hfound
            rw [honly e e' hlive hlive' (hfrom.trans hfrom'.symm) (hto.trans hto'.symm) List.mem_cons_self]
        rw [extractEdgeIds, hfind, hrest]
        rfl

/-- A path over a parallel edge. -/
def FoundPath.swap (q : FoundPath) (e e' : Edge) : FoundPath :=
  { q with edges := q.edges.map fun id => if id = e.id then e'.id else id }

lemma FoundPath.Shortest.swap {q : FoundPath} (hq : q.Shortest g (anyLengthHop last) start) {e e' : Edge}
    (he : GraphBackend.getEdge g e.id = some e) (he' : GraphBackend.getEdge g e'.id = some e')
    (hfrom : e.fromNode = e'.fromNode) (hto : e.toNode = e'.toNode) :
    (q.swap e e').Shortest g (anyLengthHop last) start := by
  have hwalk : ∀ (nodes : List NodeId) (edges : List EdgeId), IsWalk (HopLinks g (anyLengthHop last)) nodes edges →
      IsWalk (HopLinks g (anyLengthHop last)) nodes (edges.map fun id => if id = e.id then e'.id else id) := by
    intro nodes
    induction nodes with
    | nil => intro edges h; cases edges <;> exact h.elim
    | cons u nodes ih =>
      intro edges h
      cases nodes with
      | nil => cases edges <;> exact h
      | cons v nodes =>
        cases edges with
        | nil => exact h.elim
        | cons id edges =>
          refine ⟨?_, ih edges h.2⟩
          show HopLinks g (anyLengthHop last) u (if id = e.id then e'.id else id) v
          by_cases hid : id = e.id
          · obtain ⟨d, hd, hlive, -, hdfrom, hdto⟩ := h.1
            have hsame : d = e := by
              rw [hd, hid, he] at hlive
              exact (Option.some.inj hlive).symm
            rw [hsame] at hdfrom hdto
            rw [if_pos hid]
            exact ⟨e', rfl, he', fun _ ht => (by cases ht), hfrom ▸ hdfrom, hto ▸ hdto⟩
          · rw [if_neg hid]
            exact h.1
  refine ⟨⟨hwalk _ _ hq.walks.walk, hq.walks.head, hq.walks.last⟩, fun other hother hstop => ?_⟩
  have hleast := hq.least other hother hstop
  simpa [FoundPath.swap] using hleast

/-! ## When the two agree -/

/-- The function and the pattern give the same paths, each of them once. -/
def PathsAgree (x : Executor σ) (ev : Evaluator) (b : Bindings) (path first last : String) : Prop :=
  ∃ (listed bound : List (List NodeId × List EdgeId)) (rows : List Bindings),
    WithFuel (evaluateAllShortestPaths x.graph b first last)
      (· = some (.ok (.list (listed.map fun q => .path q.1 q.2)))) ∧
    matchPathPattern .standard x ev (allShortestPattern path first last) [b] = .ok rows ∧
    rows.map (boundPath path) = bound.map some ∧
    listed.Nodup ∧ bound.Nodup ∧ ∀ q, q ∈ listed ↔ q ∈ bound

/-- What the function and the pattern give. -/
lemma DistinctEnds.results {x : Executor σ} (hg : GraphBackend.Listed x.graph) (ev : Evaluator)
    (h : DistinctEnds x.graph b path first last start stop) :
    ∃ (rows : List Bindings) (paths : List (List NodeId × List EdgeId)) (found : List (List NodeId)),
      AllPaths x.graph (anyLengthHop last) start stop paths ∧
      matchPathPattern .standard x ev (allShortestPattern path first last) [b] = .ok rows ∧
      rows.map (boundPath path) = paths.map some ∧ found.Perm (paths.map (·.1)) ∧
      WithFuel (evaluateAllShortestPaths x.graph b first last)
        (· = some (.ok (.list (found.map fun nodes => .path nodes (extractEdgeIds x.graph nodes))))) := by
  obtain ⟨rows, paths, hrows, hbound, hpaths⟩ := matchPathPattern_allShortest hg ev h
  obtain ⟨found, hperm, hfuel⟩ := allShortestPaths_withFuel hg ⟨rfl, rfl⟩ h.distinct hpaths
  refine ⟨rows, paths, found, hpaths, hrows, hbound, hperm, Filter.Eventually.mono hfuel fun fuel hr => ?_⟩
  have hr' : allShortestPaths x.graph fuel start stop = some found := hr
  have hfirst : functionNode b first = .ok start := by simp [functionNode, h.first, BindingValue.asNode]
  have hlast : functionNode b last = .ok stop := by simp [functionNode, h.last, BindingValue.asNode]
  simp only [evaluateAllShortestPaths, hfirst, hlast, hr', Option.map_some]

/-- Two values that a computation comes to are the same. -/
lemma value_unique {p : ℕ → Option (Except ExecuteError Value)} {values values' : List Value}
    (h : WithFuel p (· = some (.ok (.list values)))) (h' : WithFuel p (· = some (.ok (.list values')))) :
    values = values' := by
  obtain ⟨n, hn, hn'⟩ := (h.and h').exists_bound
  rw [hn] at hn'
  exact Value.list.inj (Except.ok.inj (Option.some.inj hn'))

/-- Where the two agree, no edge of a shortest path has a parallel one. -/
lemma PathsAgree.noParallelEdges {x : Executor σ} {ev : Evaluator} (hg : GraphBackend.Listed x.graph)
    (h : DistinctEnds x.graph b path first last start stop) (hagree : PathsAgree x ev b path first last) :
    NoParallelEdges x.graph last start stop := by
  obtain ⟨listed, bound, rows, hlisted, hrows, hbound, -, -, hsame⟩ := hagree
  obtain ⟨rows', paths, found, hpaths, hrows', hbound', -, hfound⟩ := h.results hg ev
  obtain rfl : rows' = rows := Except.ok.inj (hrows'.symm.trans hrows)
  obtain rfl : paths = bound := List.map_injective_iff.mpr (Option.some_injective _) (hbound'.symm.trans hbound)
  have hvalues := value_unique hlisted hfound
  have hedges : ∀ p ∈ listed, p.2 = extractEdgeIds x.graph p.1 := by
    intro p hp
    have hmem : (Value.path p.1 p.2) ∈ found.map fun nodes => Value.path nodes (extractEdgeIds x.graph nodes) :=
      hvalues ▸ List.mem_map_of_mem hp
    obtain ⟨nodes, -, heq⟩ := List.mem_map.mp hmem
    obtain ⟨hnodes, hids⟩ := Value.path.inj heq
    rw [← hids, hnodes]
  intro q hq hstop e e' he he' hfrom hto hmem
  have hqmem : ∀ p : FoundPath, p.Shortest x.graph (anyLengthHop last) start → p.stop = stop →
      p.edges = extractEdgeIds x.graph p.nodes := by
    intro p hp hpstop
    subst hpstop
    exact hedges (p.nodes, p.edges) ((hsame _).mpr ((hpaths.mem_iff (p.nodes, p.edges)).mpr hp))
  -- the path over the parallel edge has the same nodes, so the same edges are looked up
  have hswap : (q.swap e e').edges = q.edges :=
    (hqmem _ (hq.swap he he' hfrom hto) hstop).trans (hqmem q hq hstop).symm
  have hid : (if e.id = e.id then e'.id else e.id) = e.id := by
    have hmap : q.edges.map (fun id => if id = e.id then e'.id else id) = q.edges.map id :=
      hswap.trans (List.map_id _).symm
    exact List.map_inj_left.mp hmap e.id hmem
  rw [if_pos rfl] at hid
  rw [hid] at he'
  exact Option.some.inj (he'.symm.trans he)

/-- Without parallel edges the two agree. -/
lemma NoParallelEdges.pathsAgree {x : Executor σ} (ev : Evaluator) (hg : GraphBackend.Listed x.graph)
    (h : DistinctEnds x.graph b path first last start stop) (hparallel : NoParallelEdges x.graph last start stop) :
    PathsAgree x ev b path first last := by
  obtain ⟨rows, paths, found, hpaths, hrows, hbound, hperm, hfound⟩ := h.results hg ev
  have hextract : ∀ q ∈ paths, extractEdgeIds x.graph q.1 = q.2 := by
    intro q hq
    have hshort := (hpaths.mem_iff q).mp hq
    exact extractEdgeIds_eq hg.toCoherent hshort.walks.walk (hparallel _ hshort rfl)
  have hlisted : (found.map fun nodes => (nodes, extractEdgeIds x.graph nodes)).Perm paths := by
    refine (hperm.map _).trans ?_
    rw [List.map_map]
    have hid : paths.map ((fun nodes => (nodes, extractEdgeIds x.graph nodes)) ∘ (·.1)) = paths := by
      refine (List.map_congr_left fun q hq => ?_).trans (List.map_id paths)
      show (q.1, extractEdgeIds x.graph q.1) = q
      rw [hextract q hq]
    rw [hid]
  refine ⟨_, paths, rows, ?_, hrows, hbound, hlisted.nodup_iff.mpr hpaths.nodup, hpaths.nodup,
    fun q => hlisted.mem_iff⟩
  rw [List.map_map]
  exact hfound

/-- The function and the pattern `allShortestPaths` give the same paths, each once, exactly when no edge of a shortest
path has a parallel edge. -/
theorem pathsAgree_iff {σ : Type} [GraphBackend σ] (x : Executor σ) (ev : Evaluator) (b : Bindings)
    (path first last : String) (start stop : NodeId) (hg : GraphBackend.Listed x.graph)
    (h : DistinctEnds x.graph b path first last start stop) :
    PathsAgree x ev b path first last ↔ NoParallelEdges x.graph last start stop :=
  ⟨fun hagree => hagree.noParallelEdges hg h, fun hparallel => hparallel.pathsAgree ev hg h⟩

/-! ## Two parallel edges -/

/-- Two nodes that two edges join. -/
def twoRoads : ConcurrentGraph :=
  WriteCall.run .new [.createNodeWithLabels ["Stop"], .createNodeWithLabels ["Stop"], .createEdge 0 1 "ROAD",
    .createEdge 0 1 "ROAD"]

lemma twoRoads_consistent : twoRoads.Consistent :=
  (((ConcurrentGraph.consistent_new.createNodeWithLabels (by decide) _).createNodeWithLabels (by decide)
    _).createEdge 0 1 "ROAD" (by decide)).createEdge 0 1 "ROAD" (by decide)

/-- The row of `MATCH (a), (b)` with the two nodes. -/
def bothStops : Bindings := ((∅ : Bindings).insert "a" (.node 0)).insert "b" (.node 1)

lemma bothStops_ends {g : σ} (hnodes : GraphBackend.containsNode g 0 = true ∧ GraphBackend.containsNode g 1 = true) :
    DistinctEnds g bothStops "p" "a" "b" 0 1 where
  visible := by
    unfold IsVisible
    decide +kernel
  first := rfl
  last := rfl
  nodes := hnodes
  distinct := by decide

/-- An edge of the graph. -/
def road (id : EdgeId) : Edge := { id, label := "ROAD", fromNode := 0, toNode := 1, properties := ∅ }

/-- The road of the first edge is a shortest path. -/
lemma shortest_firstRoad : (⟨1, [0, 1], [0]⟩ : FoundPath).Shortest twoRoads (anyLengthHop "b") 0 where
  walks := by
    exact ⟨⟨⟨road 0, rfl, rfl, fun _ ht => (by cases ht), rfl, rfl⟩, trivial⟩, rfl, rfl⟩
  least other hother hstop := by
    by_contra hshort
    have hnone : other.edges = [] := List.length_eq_zero_iff.mp (by simpa using hshort)
    have hlength := hother.walk.length
    rw [hnone] at hlength
    obtain ⟨u, hu⟩ := List.length_eq_one_iff.mp hlength
    have hhead := hother.head
    have hlast := hother.last
    rw [hu] at hhead hlast
    have hstart : u = 0 := Option.some.inj hhead
    have hend : u = other.stop := Option.some.inj hlast
    rw [hstop, hstart] at hend
    cases hend

/-- The function lists the road of the first edge twice, and never that of the second one. -/
theorem not_pathsAgree_twoRoads : ¬ ∀ (x : Executor ConcurrentGraph) (ev : Evaluator) (b : Bindings)
    (path first last : String) (start stop : NodeId), GraphBackend.Listed x.graph →
      DistinctEnds x.graph b path first last start stop → PathsAgree x ev b path first last := by
  intro hall
  have hg : GraphBackend.Listed (Executor.bare twoRoads).graph := twoRoads_consistent.listed
  have hends : DistinctEnds (Executor.bare twoRoads).graph bothStops "p" "a" "b" 0 1 := bothStops_ends (by decide)
  have hagree := hall (.bare twoRoads) (fun _ _ => .ok .null) bothStops "p" "a" "b" 0 1 hg hends
  have hsame : road 1 = road 0 :=
    hagree.noParallelEdges hg hends _ shortest_firstRoad rfl (road 0) (road 1) rfl rfl rfl rfl List.mem_cons_self
  exact absurd (congrArg Edge.id hsame) (by decide)

/-- A cycle has no parallel edges. -/
theorem pathsAgree_iff_roundTrip :
    PathsAgree (.bare roundTrip) (fun _ _ => .ok .null) bothStops "p" "a" "b" ↔
      NoParallelEdges roundTrip "b" 0 1 :=
  pathsAgree_iff (.bare roundTrip) _ bothStops "p" "a" "b" 0 1 roundTrip_consistent.listed
    (bothStops_ends (by decide))

end Maharit
