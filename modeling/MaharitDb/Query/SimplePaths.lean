import MaharitDb.Lib.StackLoop
import MaharitDb.Lib.Walks
import MaharitDb.Query.PathHops
import MaharitDb.Query.PathSearch

/-!
# Variable-length hops

`match_variable_length_segment` pops partial paths off a stack and pushes those that go on from them.  It comes to
an end in every graph, and it finds the paths that pass no node twice, of the lengths asked for, each of them once;
of these it takes the ones that end at a node that fits.
-/

namespace Maharit

open Walks StackLoop

variable {σ : Type} [GraphBackend σ] (g : σ) (segment : PathSegment Expression)

/-! ## The paths of a hop -/

/-- An edge of the type of the hop leads from a node to a node in its direction. -/
def HopLinks (u : NodeId) (id : EdgeId) (v : NodeId) : Prop :=
  ∃ e : Edge, e.id = id ∧ GraphBackend.getEdge g e.id = some e ∧ (∀ t ∈ segment.edge.edgeType, e.label = t) ∧
    Joined segment.edge.direction u e v

namespace FoundPath

/-- A walk of the graph from a node. -/
abbrev WalksFrom (start : NodeId) (path : FoundPath) : Prop :=
  WalksTo (HopLinks g segment) start path.stop path.nodes path.edges

/-- A walk that passes no node twice. -/
structure Simple (start : NodeId) (path : FoundPath) : Prop extends
    WalksTo (HopLinks g segment) start path.stop path.nodes path.edges where
  nodup : path.nodes.Nodup

/-- The path that has not left its start. -/
def origin (start : NodeId) : FoundPath := ⟨start, [start], []⟩

/-- One edge further. -/
def concat (path : FoundPath) (id : EdgeId) (next : NodeId) : FoundPath :=
  ⟨next, path.nodes ++ [next], path.edges ++ [id]⟩

end FoundPath

/-! ## The loop -/

/-- A partial path that is popped with its length. -/
def visitPath (ev : Evaluator) (b : Bindings) (min : ℕ) (a : ℕ × FoundPath) :
    Except ExecuteError (List FoundPath) :=
  tryPath g ev segment b min a.1 a.2

/-- What is pushed for a partial path and its length. -/
def pushed (max : ℕ) (a : ℕ × FoundPath) : List (ℕ × FoundPath) :=
  if a.1 < max then (a.2.children g segment).map (a.1 + 1, ·) else []

/-- The greatest length of a range. -/
def maxDepth (range : LengthRange) : ℕ := (range.max.map UInt32.toNat).getD defaultMaxDepth

/-- The loop of `match_variable_length_segment` for one row, with a bound on its turns. -/
def variableLengthLoop (ev : Evaluator) (prev : NodePattern Expression) (range : LengthRange) (b : Bindings)
    (fuel : ℕ) : Option (Except ExecuteError (List Bindings)) :=
  match hopStart prev b with
  | .error err => some (.error err)
  | .ok start =>
      (run (visitPath g segment ev b range.min.toNat) (pushed g segment (maxDepth range)) fuel
        [(0, .origin start)]).map (Except.map (List.map (bindFound segment b)))

/-- The paths within a range, in the order in which the loop comes to them. -/
def pathsWithin (range : LengthRange) (start : NodeId) : List FoundPath :=
  ((below (pushed g segment (maxDepth range)) (fun a => maxDepth range - a.1) (0, .origin start)).filter
    fun a => decide (range.min.toNat ≤ a.1)).map (·.2)

/-! ## One edge further -/

variable {g segment}

lemma HopLinks.joined_unique {u u' v v' : NodeId} {id : EdgeId} (h : HopLinks g segment u id v)
    (h' : HopLinks g segment u' id v') : u = u' ∧ v = v' ∨ u = v' ∧ v = u' := by
  obtain ⟨e, rfl, hlive, -, hjoined⟩ := h
  obtain ⟨e', hid, hlive', -, hjoined'⟩ := h'
  have hsame : e = e' := by
    rw [hid] at hlive'
    exact Option.some.inj (hlive.symm.trans hlive')
  subst hsame
  cases hdir : segment.edge.direction <;> simp only [hdir, Joined] at hjoined hjoined'
  · exact .inl ⟨hjoined.1.symm.trans hjoined'.1, hjoined.2.symm.trans hjoined'.2⟩
  · exact .inl ⟨hjoined.1.symm.trans hjoined'.1, hjoined.2.symm.trans hjoined'.2⟩
  · rcases hjoined with ⟨rfl, rfl⟩ | ⟨rfl, rfl⟩ <;> rcases hjoined' with ⟨rfl, rfl⟩ | ⟨rfl, rfl⟩ <;> simp

/-- The edges that a hop tries are those that link the node. -/
lemma mem_hopEdges (hg : GraphBackend.Coherent g) {u v : NodeId} {e : Edge} :
    e ∈ hopEdges g segment u ∧ getNextNode u e segment.edge.direction = v ↔
      GraphBackend.getEdge g e.id = some e ∧ (∀ t ∈ segment.edge.edgeType, e.label = t) ∧
        Joined segment.edge.direction u e v := by
  have htype : (segment.edge.edgeType.all fun t => e.label == t) = true ↔
      ∀ t ∈ segment.edge.edgeType, e.label = t := by
    cases segment.edge.edgeType <;> simp
  have hjoined : e ∈ getEdgesByDirection g u segment.edge.direction ∧ getNextNode u e segment.edge.direction = v ↔
      GraphBackend.getEdge g e.id = some e ∧ Joined segment.edge.direction u e v :=
    mem_getEdgesByDirection (x := Executor.bare g) hg
  rw [hopEdges, List.mem_filter, htype]
  constructor
  · rintro ⟨⟨he, ht⟩, hnext⟩
    obtain ⟨hlive, hlink⟩ := hjoined.mp ⟨he, hnext⟩
    exact ⟨hlive, ht, hlink⟩
  · rintro ⟨hlive, ht, hlink⟩
    obtain ⟨he, hnext⟩ := hjoined.mpr ⟨hlive, hlink⟩
    exact ⟨⟨he, ht⟩, hnext⟩

/-- The paths that go on from a path. -/
lemma mem_children (hg : GraphBackend.Coherent g) {path next : FoundPath} :
    next ∈ path.children g segment ↔
      ∃ id v, HopLinks g segment path.stop id v ∧ v ∉ path.nodes ∧ next = path.concat id v := by
  simp only [FoundPath.children, List.mem_filterMap, FoundPath.extend, Option.ite_none_left_eq_some,
    Option.some.injEq]
  constructor
  · rintro ⟨e, he, hfresh, rfl⟩
    obtain ⟨hlive, htype, hjoined⟩ := (mem_hopEdges hg).mp ⟨he, rfl⟩
    exact ⟨e.id, _, ⟨e, rfl, hlive, htype, hjoined⟩, hfresh, rfl⟩
  · rintro ⟨_, v, ⟨e, rfl, hlive, htype, hjoined⟩, hfresh, rfl⟩
    obtain ⟨he, hnext⟩ := (mem_hopEdges hg).mpr ⟨hlive, htype, hjoined⟩
    refine ⟨e, he, ?_, ?_⟩
    · rwa [hnext]
    · rw [hnext]
      rfl

/-- Two edges that go on from a path go on differently. -/
lemma extend_inj {path next : FoundPath} {e e' : Edge}
    (he : GraphBackend.getEdge g e.id = some e) (he' : GraphBackend.getEdge g e'.id = some e')
    (h : path.extend segment e = some next) (h' : path.extend segment e' = some next) : e = e' := by
  simp only [FoundPath.extend, Option.ite_none_left_eq_some, Option.some.injEq] at h h'
  have hedges : path.edges ++ [e.id] = path.edges ++ [e'.id] :=
    congrArg FoundPath.edges (h.2.trans h'.2.symm)
  have hid : e.id = e'.id := by simpa using hedges
  rw [hid] at he
  exact Option.some.inj (he.symm.trans he')

/-- Each path that goes on is pushed once: an undirected self-loop, which is listed twice, leads nowhere. -/
lemma nodup_children (hg : GraphBackend.Coherent g) (path : FoundPath) (hstop : path.stop ∈ path.nodes) :
    (path.children g segment).Nodup := by
  have hfilterMap : ∀ edges : List Edge, edges.Nodup → (∀ e ∈ edges, GraphBackend.getEdge g e.id = some e) →
      (edges.filterMap (path.extend segment)).Nodup := by
    intro edges hnodup hlive
    induction edges with
    | nil => exact List.nodup_nil
    | cons e edges ih =>
      obtain ⟨hnot, hnodup⟩ := List.nodup_cons.mp hnodup
      have hrest := ih hnodup fun e' he' => hlive e' (List.mem_cons_of_mem _ he')
      cases hextend : path.extend segment e with
      | none => rwa [List.filterMap_cons_none hextend]
      | some next =>
        rw [List.filterMap_cons_some hextend]
        refine List.nodup_cons.mpr ⟨fun hmem => ?_, hrest⟩
        obtain ⟨e', he', hextend'⟩ := List.mem_filterMap.mp hmem
        have hsame := extend_inj (hlive e List.mem_cons_self) (hlive e' (List.mem_cons_of_mem _ he')) hextend
          hextend'
        exact hnot (hsame ▸ he')
  have hlive : ∀ e, e ∈ hopEdges g segment path.stop → GraphBackend.getEdge g e.id = some e := fun e he =>
    ((mem_hopEdges hg).mp ⟨he, rfl⟩).1
  unfold FoundPath.children
  cases hdir : segment.edge.direction with
  | outgoing =>
    refine hfilterMap _ ?_ hlive
    rw [hopEdges, hdir]
    exact (hg.nodup_outgoingEdges _).filter _
  | incoming =>
    refine hfilterMap _ ?_ hlive
    rw [hopEdges, hdir]
    exact (hg.nodup_incomingEdges _).filter _
  | both =>
    have hsplit : hopEdges g segment path.stop =
        (GraphBackend.outgoingEdges g path.stop).filter (fun e => segment.edge.edgeType.all fun t => e.label == t) ++
        (GraphBackend.incomingEdges g path.stop).filter (fun e => segment.edge.edgeType.all fun t => e.label == t) := by
      rw [hopEdges, hdir, getEdgesByDirection, List.filter_append]
    rw [hsplit] at hlive ⊢
    rw [List.filterMap_append, List.nodup_append']
    refine ⟨hfilterMap _ ((hg.nodup_outgoingEdges _).filter _) fun e he => hlive e (List.mem_append_left _ he),
      hfilterMap _ ((hg.nodup_incomingEdges _).filter _) fun e he => hlive e (List.mem_append_right _ he), ?_⟩
    intro next hout hin
    obtain ⟨e, he, hextend⟩ := List.mem_filterMap.mp hout
    obtain ⟨e', he', hextend'⟩ := List.mem_filterMap.mp hin
    obtain rfl : e = e' := extend_inj (hlive e (List.mem_append_left _ he))
      (hlive e' (List.mem_append_right _ he')) hextend hextend'
    have hfrom := ((hg.mem_outgoingEdges _ _).mp (List.mem_filter.mp he).1).2
    have hto := ((hg.mem_incomingEdges _ _).mp (List.mem_filter.mp he').1).2
    simp [FoundPath.extend, getNextNode, hdir, hfrom, hto, hstop] at hextend

/-- The paths of a graph, each below the path that it goes on from. -/
lemma forest_pushed (hg : GraphBackend.Coherent g) (max : ℕ) :
    Forest (pushed g segment max) (·.1) fun a => a.2.nodes.getLast? = some a.2.stop where
  keeps a _ c hc := by
    unfold pushed at hc
    split at hc
    · obtain ⟨next, hnext, rfl⟩ := List.mem_map.mp hc
      obtain ⟨id, v, -, -, rfl⟩ := (mem_children hg).mp hnext
      simp [FoundPath.concat]
    · cases hc
  level a c hc := by
    unfold pushed at hc
    split at hc
    · obtain ⟨next, -, rfl⟩ := List.mem_map.mp hc
      rfl
    · cases hc
  parent a b ha hb c hc hc' := by
    unfold pushed at hc hc'
    split at hc
    · split at hc'
      · obtain ⟨next, hnext, rfl⟩ := List.mem_map.mp hc
        obtain ⟨next', hnext', heq⟩ := List.mem_map.mp hc'
        obtain ⟨id, v, -, -, rfl⟩ := (mem_children hg).mp hnext
        obtain ⟨id', v', -, -, rfl⟩ := (mem_children hg).mp hnext'
        obtain ⟨hdepth, hpath⟩ := Prod.mk.inj heq
        simp only [FoundPath.concat, FoundPath.mk.injEq] at hpath
        obtain ⟨-, hnodes, hedges⟩ := hpath
        obtain ⟨depth, stop, nodes, edges⟩ := a
        obtain ⟨depth', stop', nodes', edges'⟩ := b
        obtain ⟨hnodes, -⟩ := List.append_inj' hnodes rfl
        obtain ⟨hedges, -⟩ := List.append_inj' hedges rfl
        subst hnodes hedges
        obtain rfl : stop = stop' := Option.some.inj (ha.symm.trans hb)
        obtain rfl : depth = depth' := Nat.add_right_cancel hdepth.symm
        rfl
      · cases hc'
    · cases hc
  nodup a ha := by
    unfold pushed
    split
    · refine (nodup_children hg a.2 (List.mem_of_getLast? ha)).map fun p q heq => (Prod.mk.inj heq).2
    · exact List.nodup_nil

/-- Below the path that has not left its start are the paths of as many edges. -/
lemma descends_pushed (hg : GraphBackend.Coherent g) {max n : ℕ} {start : NodeId} {a : ℕ × FoundPath} (hn : n ≤ max) :
    Descends (pushed g segment max) n (0, .origin start) a ↔
      a.1 = n ∧ a.2.Simple g segment start ∧ a.2.edges.length = n := by
  obtain ⟨depth, path⟩ := a
  induction n generalizing depth path with
  | zero =>
    constructor
    · rintro ⟨⟩
      exact ⟨rfl, ⟨⟨trivial, rfl, rfl⟩, List.nodup_singleton start⟩, rfl⟩
    · rintro ⟨rfl, hsimple, hlength⟩
      obtain ⟨stop, nodes, edges⟩ := path
      obtain ⟨⟨hwalk, hhead, hlast⟩, -⟩ := hsimple
      obtain rfl : edges = [] := List.length_eq_zero_iff.mp hlength
      have hnodes := hwalk.length
      obtain ⟨u, rfl⟩ := List.length_eq_one_iff.mp hnodes
      obtain rfl : u = start := Option.some.inj hhead
      obtain rfl : u = stop := Option.some.inj hlast
      rfl
  | succ n ih =>
    have hle : n ≤ max := Nat.le_of_succ_le hn
    rw [descends_succ]
    constructor
    · rintro ⟨⟨depth', path'⟩, hdescends, hpushed⟩
      obtain ⟨rfl, hsimple, hlength⟩ := (ih hle _ _).mp hdescends
      unfold pushed at hpushed
      split at hpushed
      · obtain ⟨next, hnext, heq⟩ := List.mem_map.mp hpushed
        obtain ⟨rfl, rfl⟩ := Prod.mk.inj heq
        obtain ⟨id, v, hlink, hfresh, rfl⟩ := (mem_children hg).mp hnext
        refine ⟨rfl, ⟨⟨(isWalk_concat hsimple.last).mpr ⟨hsimple.walk, hlink⟩, ?_, ?_⟩, ?_⟩, ?_⟩
        · exact (List.head?_append_of_ne_nil _ hsimple.walk.ne_nil).trans hsimple.head
        · exact List.getLast?_concat
        · exact List.nodup_append_comm.mp (List.nodup_cons.mpr ⟨hfresh, hsimple.nodup⟩)
        · simp [FoundPath.concat, hlength]
      · cases hpushed
    · rintro ⟨hdepth, ⟨⟨hwalk, hhead, hlast⟩, hnodup⟩, hlength⟩
      obtain rfl : depth = n + 1 := hdepth
      obtain ⟨nodes', edges', u, id, hnodes, hedges, hlast', hwalk', hlink, hlength'⟩ :=
        hwalk.exists_concat hlast hlength
      obtain ⟨stop, nodes, edges⟩ := path
      simp only at hnodes hedges hlast hlink hnodup hhead
      subst hnodes hedges
      obtain ⟨hnodup', hfresh⟩ := List.nodup_append'.mp hnodup |>.imp_right fun h => h.2
      refine ⟨(n, ⟨u, nodes', edges'⟩), (ih hle _ _).mpr ⟨rfl, ⟨⟨hwalk', ?_, hlast'⟩, hnodup'⟩, hlength'⟩, ?_⟩
      · rwa [List.head?_append_of_ne_nil _ hwalk'.ne_nil] at hhead
      · unfold pushed
        rw [if_pos (show n < max from hn)]
        refine List.mem_map.mpr ⟨_, (mem_children hg).mpr ⟨id, stop, hlink, ?_, rfl⟩, rfl⟩
        exact fun hmem => hfresh hmem (List.mem_singleton_self stop)

/-! ## What the loop finds -/

/-- The length on the stack is the number of edges. -/
lemma depth_eq_length (hg : GraphBackend.Coherent g) {max : ℕ} {start : NodeId} {a : ℕ × FoundPath}
    (ha : a ∈ below (pushed g segment max) (fun a => max - a.1) (0, .origin start)) :
    a.1 = a.2.edges.length := by
  obtain ⟨n, hn, hdescends⟩ := mem_preorder.mp ha
  obtain ⟨hdepth, -, hlength⟩ := (descends_pushed hg hn).mp hdescends
  exact hdepth.trans hlength.symm

/-- The paths within a range are the simple paths of these lengths. -/
theorem mem_pathsWithin (hg : GraphBackend.Coherent g) {range : LengthRange} {start : NodeId} {path : FoundPath} :
    path ∈ pathsWithin g segment range start ↔
      path.Simple g segment start ∧ range.min.toNat ≤ path.edges.length ∧ path.edges.length ≤ maxDepth range := by
  simp only [pathsWithin, List.mem_map, List.mem_filter, decide_eq_true_eq]
  constructor
  · rintro ⟨⟨depth, path⟩, ⟨hmem, hmin⟩, rfl⟩
    obtain ⟨n, hn, hdescends⟩ := mem_preorder.mp hmem
    obtain ⟨rfl, hsimple, hlength⟩ := (descends_pushed hg hn).mp hdescends
    simp only at hlength hmin hn
    exact ⟨hsimple, hlength ▸ hmin, hlength ▸ hn⟩
  · rintro ⟨hsimple, hmin, hmax⟩
    refine ⟨(path.edges.length, path), ⟨mem_preorder.mpr ⟨path.edges.length, hmax, ?_⟩, hmin⟩, rfl⟩
    exact (descends_pushed hg hmax).mpr ⟨rfl, hsimple, rfl⟩

/-- Each of them is found once. -/
theorem nodup_pathsWithin (hg : GraphBackend.Coherent g) (range : LengthRange) (start : NodeId) :
    (pathsWithin g segment range start).Nodup := by
  have hbelow : (below (pushed g segment (maxDepth range)) (fun a => maxDepth range - a.1)
      (0, .origin start)).Nodup := (forest_pushed hg (maxDepth range)).nodup_preorder _ rfl
  refine List.Nodup.map_on ?_ (hbelow.filter _)
  intro a ha b hb heq
  have hdepth := depth_eq_length hg (List.mem_filter.mp ha).1
  have hdepth' := depth_eq_length hg (List.mem_filter.mp hb).1
  exact Prod.ext (hdepth.trans ((congrArg (fun path => path.edges.length) heq).trans hdepth'.symm)) heq

lemma pushed_rank (max : ℕ) (a : ℕ × FoundPath) : ∀ c ∈ pushed g segment max a, max - c.1 < max - a.1 := by
  intro c hc
  unfold pushed at hc
  split at hc
  · obtain ⟨next, -, rfl⟩ := List.mem_map.mp hc
    show max - (a.1 + 1) < max - a.1
    omega
  · cases hc

/-- The search that goes down from a path is the loop over what is below it. -/
lemma explore_eq (ev : Evaluator) (b : Bindings) (min : ℕ) {max left depth : ℕ} (h : left + depth = max)
    (path : FoundPath) :
    explore g ev segment b min left depth path =
      Except.collect (visitPath g segment ev b min)
        (preorder (pushed g segment max) left (depth, path)) := by
  induction left generalizing depth path with
  | zero =>
    rw [explore, preorder, Except.collect_singleton]
    rfl
  | succ left ih =>
    have hpushed : pushed g segment max (depth, path) = (path.children g segment).map (depth + 1, ·) :=
      if_pos (show depth < max by omega)
    have hchild : ∀ next, explore g ev segment b min left (depth + 1) next =
        Except.collect (visitPath g segment ev b min)
          (preorder (pushed g segment max) left (depth + 1, next)) := fun next => ih (by omega) next
    rw [explore, preorder, Except.collect, hpushed, ← List.map_reverse, List.flatMap_map, Except.collect_flatMap,
      Except.collect_congr fun next _ => hchild next]
    rfl

/-- The rows of the paths that are long enough and end at a node that fits. -/
lemma collect_tryPath {ev : Evaluator} {b : Bindings} {min : ℕ} {l : List (ℕ × FoundPath)}
    {found : List FoundPath} :
    Except.collect (visitPath g segment ev b min) l = .ok found ↔
      (∀ path ∈ (l.filter fun a => decide (min ≤ a.1)).map (·.2),
          ∃ ok, endMatches g ev segment b path.stop = .ok ok) ∧
        found = ((l.filter fun a => decide (min ≤ a.1)).map (·.2)).filter fun path =>
          passes (endMatches g ev segment b path.stop) := by
  induction l generalizing found with
  | nil => simp [Except.collect, eq_comm]
  | cons a l ih =>
    obtain ⟨depth, path⟩ := a
    by_cases hmin : min ≤ depth
    · have hhere : visitPath g segment ev b min (depth, path) =
          (endMatches g ev segment b path.stop).map fun ok => if ok then [path] else [] := if_pos hmin
      rw [List.filter_cons_of_pos (by simpa using hmin), List.map_cons, List.forall_mem_cons, List.filter_cons]
      cases hend : endMatches g ev segment b path.stop with
      | error err =>
        rw [hend] at hhere
        rw [Except.collect, hhere]
        simp [Except.map, Except.bind]
      | ok ok =>
        rw [hend] at hhere
        rw [collect_cons_ok hhere, Except.map_eq_ok]
        simp only [ih]
        constructor
        · rintro ⟨_, ⟨hall, rfl⟩, rfl⟩
          refine ⟨⟨⟨ok, rfl⟩, hall⟩, ?_⟩
          cases ok <;> simp [passes]
        · rintro ⟨⟨-, hall⟩, rfl⟩
          refine ⟨_, ⟨hall, rfl⟩, ?_⟩
          cases ok <;> simp [passes]
    · have hhere : visitPath g segment ev b min (depth, path) = .ok [] :=
        if_neg hmin
      rw [List.filter_cons_of_neg (by simpa using hmin), collect_cons_ok hhere, Except.map_eq_ok]
      simp [ih]

/-- The rows of one row. -/
lemma matchVariableLength_eq_ok {ev : Evaluator} {prev : NodePattern Expression} {range : LengthRange}
    {b : Bindings} {start : NodeId} (hstart : hopStart prev b = .ok start) {rows : List Bindings} :
    matchVariableLength g ev segment prev range b = .ok rows ↔
      (∀ path ∈ pathsWithin g segment range start, ∃ ok, endMatches g ev segment b path.stop = .ok ok) ∧
        rows = ((pathsWithin g segment range start).filter fun path =>
          passes (endMatches g ev segment b path.stop)).map (bindFound segment b) := by
  have hexplore : explore g ev segment b range.min.toNat (maxDepth range) 0 (.origin start) = _ :=
    explore_eq ev b range.min.toNat (Nat.add_zero _) (.origin start)
  have hmatch : matchVariableLength g ev segment prev range b =
      (Except.collect (visitPath g segment ev b range.min.toNat)
        (below (pushed g segment (maxDepth range)) (fun a => maxDepth range - a.1) (0, .origin start))).map
          (List.map (bindFound segment b)) := by
    rw [matchVariableLength, hstart]
    exact congrArg (Except.map _) hexplore
  rw [hmatch, Except.map_eq_ok]
  simp only [collect_tryPath]
  constructor
  · rintro ⟨_, ⟨hok, rfl⟩, rfl⟩
    exact ⟨hok, rfl⟩
  · rintro ⟨hok, rfl⟩
    exact ⟨_, ⟨hok, rfl⟩, rfl⟩

/-- The loop comes to an end with these rows. -/
theorem variableLengthLoop_withFuel (ev : Evaluator) (prev : NodePattern Expression) (range : LengthRange)
    (b : Bindings) :
    WithFuel (variableLengthLoop g segment ev prev range b)
      (· = some (matchVariableLength g ev segment prev range b)) := by
  unfold variableLengthLoop matchVariableLength
  cases hstart : hopStart prev b with
  | error err => exact WithFuel.of_forall fun _ => rfl
  | ok start =>
    have hexplore : explore g ev segment b range.min.toNat (maxDepth range) 0 (.origin start) = _ :=
      explore_eq ev b range.min.toNat (Nat.add_zero _) (.origin start)
    have hrank := @pushed_rank σ _ g segment (maxDepth range)
    have hrun : WithFuel (fun fuel => run (visitPath g segment ev b range.min.toNat)
        (pushed g segment (maxDepth range)) fuel [(0, FoundPath.origin start)]) _ := run_withFuel hrank _
    refine hrun.map (f := Option.map (Except.map (List.map (bindFound segment b)))) fun result hresult => ?_
    rw [hresult, List.flatMap_singleton, Option.map_some]
    exact congrArg (fun found => some (Except.map _ found)) hexplore.symm

/-- What a path is bound to. -/
lemma lookup_bindFound (b : Bindings) (path : FoundPath) (name : String) :
    (bindFound segment b path).lookup name =
      if segment.edge.var = some name then some (.path path.nodes path.edges)
      else if segment.node.var = some name then some (.node path.stop)
      else b.lookup name := by
  rw [bindFound, lookup_bindVar, lookup_bindVar]

/-! ## Variable-length hops enumerate simple paths -/

/-- A variable-length hop comes to an end in each row, and makes one row of each simple path from the start node of a
row that has a length in the range and ends at a node that fits; the new row binds the end node and the path. -/
def EnumeratesSimplePaths (g : σ) (ev : Evaluator) (segment : PathSegment Expression) (prev : NodePattern Expression)
    (range : LengthRange) (bs : List Bindings) (start : Bindings → NodeId) : Prop :=
  ∃ paths : NodeId → List FoundPath,
    (∀ id, (paths id).Nodup ∧ ∀ path, path ∈ paths id ↔ path.Simple g segment id ∧
      range.min.toNat ≤ path.edges.length ∧ path.edges.length ≤ maxDepth range) ∧
    (∀ b, WithFuel (variableLengthLoop g segment ev prev range b)
      (· = some (matchVariableLength g ev segment prev range b))) ∧
    (∀ rows, matchVariableLengthSegment g ev segment prev range bs = .ok rows ↔
      (∀ b ∈ bs, ∀ path ∈ paths (start b), ∃ ok, endMatches g ev segment b path.stop = .ok ok) ∧
        rows = bs.flatMap fun b => ((paths (start b)).filter fun path =>
          passes (endMatches g ev segment b path.stop)).map (bindFound segment b)) ∧
    ∀ b path name, (bindFound segment b path).lookup name =
      if segment.edge.var = some name then some (.path path.nodes path.edges)
      else if segment.node.var = some name then some (.node path.stop)
      else b.lookup name

/-- Variable-length hops enumerate the simple paths, in cyclic graphs too. -/
theorem variableLength_enumerates (g : σ) (hg : GraphBackend.Coherent g) (ev : Evaluator)
    (segment : PathSegment Expression) (prev : NodePattern Expression) (range : LengthRange) (bs : List Bindings)
    (start : Bindings → NodeId) (hstart : ∀ b ∈ bs, hopStart prev b = .ok (start b)) :
    EnumeratesSimplePaths g ev segment prev range bs start := by
  refine ⟨pathsWithin g segment range, fun id => ⟨nodup_pathsWithin hg range id, fun path => mem_pathsWithin hg⟩,
    fun b => variableLengthLoop_withFuel ev prev range b, fun rows => ?_, lookup_bindFound⟩
  rw [matchVariableLengthSegment, Except.collect_eq_ok]
  constructor
  · rintro ⟨found, hfound, rfl⟩
    have hrow := fun b hb => (matchVariableLength_eq_ok (g := g) (hstart b hb)).mp (hfound b hb)
    exact ⟨fun b hb => (hrow b hb).1, List.flatMap_congr fun b hb => (hrow b hb).2⟩
  · rintro ⟨hok, rfl⟩
    exact ⟨_, fun b hb => (matchVariableLength_eq_ok (hstart b hb)).mpr ⟨hok b hb, rfl⟩, rfl⟩

/-! ## A cycle -/

/-- Two nodes with an edge each way. -/
def roundTrip : ConcurrentGraph :=
  WriteCall.run .new [.createNodeWithLabels ["Stop"], .createNodeWithLabels ["Stop"], .createEdge 0 1 "NEXT",
    .createEdge 1 0 "NEXT"]

lemma roundTrip_consistent : roundTrip.Consistent :=
  (((ConcurrentGraph.consistent_new.createNodeWithLabels (by decide) _).createNodeWithLabels (by decide)
    _).createEdge 0 1 "NEXT" (by decide)).createEdge 1 0 "NEXT" (by decide)

/-- The start `(a)` of a hop. -/
def startPattern : NodePattern Expression := { var := some "a", labels := [], properties := [] }

/-- The hop `-[r]->(b)` of some direction and length. -/
def hopPattern (direction : EdgeDirection) (lengthRange : Option LengthRange) : PathSegment Expression where
  edge := { var := some "r", edgeType := none, properties := [], direction, lengthRange }
  node := { var := some "b", labels := [], properties := [] }

/-- The hops of `(a)-[r*0..3]->(b)` in a cycle. -/
theorem variableLength_enumerates_roundTrip :
    EnumeratesSimplePaths roundTrip (fun _ _ => .ok .null) (hopPattern .outgoing (some ⟨0, some 3⟩)) startPattern
      ⟨0, some 3⟩ [(∅ : Bindings).insert "a" (.node 0)] fun _ => 0 :=
  variableLength_enumerates roundTrip roundTrip_consistent.coherent _ _ startPattern ⟨0, some 3⟩ _ _ (by
    intro b hb
    obtain rfl := List.mem_singleton.mp hb
    rfl)

end Maharit
