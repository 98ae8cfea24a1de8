import MaharitDb.Core.ShortestPath

/-!
# All simple paths, and the enumeration of paths

`all_paths` of `maharit-core/src/traversal.rs`: a depth-first search that takes back its marks.  It lists a path of
nodes once for every choice of edges along it, as `all_shortest_paths` does.
-/

namespace Maharit

open Walks GraphBackend

namespace Graph

/-- `all_paths_dfs`: the paths that continue the current one to the end node.  The marks and the current path are those
on the way to the node, since the function takes back what it adds to them. -/
def allPathsDfs (g : Graph) (stop : NodeId) (maxDepth : Option ℕ) :
    ℕ → NodeId → ℕ → HashSet NodeId → List NodeId → Option (List (List NodeId))
  | 0, _, _, _, _ => none
  | fuel + 1, current, depth, visited, currentPath =>
      if maxDepth.any fun max => decide (max ≤ depth) then some []
      else (g.getOutgoingEdges current).foldlM (fun results edge =>
        let neighbor := edge.toNode
        if neighbor = stop then some (results ++ [currentPath ++ [stop]])
        else if neighbor ∈ visited then some results
        else
          (allPathsDfs g stop maxDepth fuel neighbor (depth + 1) (visited.add neighbor)
            (currentPath ++ [neighbor])).map (results ++ ·)) []

/-- `all_paths`. -/
def allPaths (g : Graph) (fuel : ℕ) (start stop : NodeId) (maxDepth : Option ℕ) : Option (List (List NodeId)) :=
  if (g.getNode start).isNone || (g.getNode stop).isNone then some []
  else if start = stop then some [[start]]
  else g.allPathsDfs stop maxDepth fuel start 0 (HashSet.add ∅ start) [start]

/-- The edge leads from one node to the other. -/
def EdgeLink (g : Graph) (u : NodeId) (e : Edge) (v : NodeId) : Prop :=
  e ∈ g.getOutgoingEdges u ∧ e.fromNode = u ∧ e.toNode = v

/-- A continuation of the current path: the nodes after the current one, and the edges. -/
structure Continues (g : Graph) (stop : NodeId) (maxDepth : Option ℕ) (current : NodeId) (depth : ℕ)
    (visited : HashSet NodeId) (p : List NodeId × List Edge) : Prop where
  walk : IsWalk g.EdgeLink (current :: p.1) p.2
  last : p.1.getLast? = some stop
  nodup : p.1.Nodup
  fresh : ∀ v ∈ p.1, v ∉ visited
  bound : ∀ max ∈ maxDepth, depth + p.2.length ≤ max

variable {g : Graph} {stop : NodeId} {maxDepth : Option ℕ}

/-- The paths that begin with one of the edges done so far. -/
def ListsPaths (g : Graph) (stop : NodeId) (maxDepth : Option ℕ) (current : NodeId) (depth : ℕ)
    (visited : HashSet NodeId) (currentPath : List NodeId) (done : List Edge) (results : List (List NodeId)) : Prop :=
  ∃ paths : List (List NodeId × List Edge), paths.Nodup ∧
    (∀ p, p ∈ paths ↔ g.Continues stop maxDepth current depth visited p ∧ ∃ e ∈ done, p.2.head? = some e) ∧
    results = paths.map fun p => currentPath ++ p.1

/-- A continuation over an edge to the end node ends there. -/
lemma Continues.eq_of_stop {current : NodeId} {depth : ℕ} {visited : HashSet NodeId} {p : List NodeId × List Edge}
    {e : Edge} (h : g.Continues stop maxDepth current depth visited p) (he : p.2.head? = some e)
    (hstop : e.toNode = stop) : p = ([stop], [e]) := by
  obtain ⟨nodes, edges⟩ := p
  obtain ⟨hwalk, hlast, hnodup, -, -⟩ := h
  dsimp only at hwalk hlast hnodup he
  cases edges with
  | nil => cases he
  | cons d edges =>
    obtain rfl : d = e := Option.some.inj he
    cases nodes with
    | nil => cases hlast
    | cons v nodes =>
      obtain ⟨⟨-, -, hto⟩, hrest⟩ := hwalk
      have hv : v = stop := hto.symm.trans hstop
      cases nodes with
      | nil =>
        cases edges with
        | nil => rw [hv]
        | cons d' edges => exact hrest.elim
      | cons w nodes =>
        -- the end node would be passed twice
        have hmem : stop ∈ w :: nodes := List.mem_of_getLast? (by simpa using hlast)
        rw [hv] at hnodup
        exact absurd hmem (List.nodup_cons.mp hnodup).1

/-- A continuation over an edge to another node goes on from there. -/
lemma continues_cons {current : NodeId} {depth : ℕ} {visited : HashSet NodeId} {e : Edge}
    (he : e ∈ g.getOutgoingEdges current) (hfrom : e.fromNode = current) (hstop : e.toNode ≠ stop)
    {p : List NodeId × List Edge} :
    (g.Continues stop maxDepth current depth visited p ∧ p.2.head? = some e) ↔
      e.toNode ∉ visited ∧ ∃ q, g.Continues stop maxDepth e.toNode (depth + 1) (visited.add e.toNode) q ∧
        p = (e.toNode :: q.1, e :: q.2) := by
  obtain ⟨nodes, edges⟩ := p
  constructor
  · rintro ⟨⟨hwalk, hlast, hnodup, hfresh, hbound⟩, hhead⟩
    dsimp only at hwalk hlast hnodup hfresh hbound hhead
    cases edges with
    | nil => cases hhead
    | cons d edges =>
      obtain rfl : d = e := Option.some.inj hhead
      cases nodes with
      | nil => cases hlast
      | cons v nodes =>
        obtain ⟨⟨-, -, rfl⟩, hrest⟩ := hwalk
        obtain ⟨hv, hnodup⟩ := List.nodup_cons.mp hnodup
        refine ⟨hfresh _ List.mem_cons_self, (nodes, edges), ⟨hrest, ?_, hnodup, fun w hw hmem => ?_, ?_⟩, rfl⟩
        · cases nodes with
          | nil => exact absurd (Option.some.inj hlast) hstop
          | cons w nodes => simpa using hlast
        · rcases (HashSet.mem_add ..).mp hmem with rfl | hmem
          · exact hv hw
          · exact hfresh w (List.mem_cons_of_mem _ hw) hmem
        · intro max hmax
          have hle := hbound max hmax
          rw [List.length_cons] at hle
          dsimp only
          omega
  · rintro ⟨hnew, ⟨nodes', edges'⟩, ⟨hwalk, hlast, hnodup, hfresh, hbound⟩, heq⟩
    obtain ⟨rfl, rfl⟩ := Prod.mk.inj heq
    dsimp only at hwalk hlast hnodup hfresh hbound
    have hne : nodes' ≠ [] := by
      rintro rfl
      cases hlast
    refine ⟨⟨⟨⟨he, hfrom, rfl⟩, hwalk⟩, ?_, ?_, fun w hw => ?_, fun max hmax => ?_⟩, rfl⟩
    · dsimp only
      rw [List.getLast?_cons, hlast]
      rfl
    · refine List.nodup_cons.mpr ⟨fun hmem => ?_, hnodup⟩
      exact hfresh _ hmem ((HashSet.mem_add ..).mpr (.inl rfl))
    · rcases List.mem_cons.mp hw with rfl | hw
      · exact hnew
      · exact fun hmem => hfresh w hw ((HashSet.mem_add ..).mpr (.inr hmem))
    · have hle := hbound max hmax
      dsimp only
      rw [List.length_cons]
      omega

/-- The paths over one more edge. -/
lemma ListsPaths.append {current : NodeId} {depth : ℕ} {visited : HashSet NodeId} {currentPath : List NodeId}
    {done : List Edge} {results : List (List NodeId)} {e : Edge}
    (h : g.ListsPaths stop maxDepth current depth visited currentPath done results) (hfresh : e ∉ done)
    (more : List (List NodeId × List Edge)) (hnodup : more.Nodup)
    (hmore : ∀ p, p ∈ more ↔ g.Continues stop maxDepth current depth visited p ∧ p.2.head? = some e) :
    g.ListsPaths stop maxDepth current depth visited currentPath (done ++ [e])
      (results ++ more.map fun p => currentPath ++ p.1) := by
  obtain ⟨paths, hpaths, hmem, rfl⟩ := h
  refine ⟨paths ++ more, List.nodup_append.mpr ⟨hpaths, hnodup, fun p hp q hq hpq => ?_⟩, fun p => ?_, by simp⟩
  · obtain ⟨-, e', he', hhead⟩ := (hmem p).mp hp
    obtain ⟨-, hhead'⟩ := (hmore q).mp hq
    rw [hpq, hhead'] at hhead
    exact hfresh (Option.some.inj hhead ▸ he')
  · rw [List.mem_append, hmem, hmore]
    constructor
    · rintro (⟨hp, e', he', hhead⟩ | ⟨hp, hhead⟩)
      · exact ⟨hp, e', List.mem_append_left _ he', hhead⟩
      · exact ⟨hp, e, List.mem_append_right _ (List.mem_singleton_self e), hhead⟩
    · rintro ⟨hp, e', he', hhead⟩
      rcases List.mem_append.mp he' with he' | he'
      · exact .inl ⟨hp, e', he', hhead⟩
      · rw [List.mem_singleton.mp he'] at hhead
        exact .inr ⟨hp, hhead⟩

/-- The search below a node lists all continuations. -/
lemma Adjacent.allPathsDfs (h : g.Adjacent) (maxDepth : Option ℕ) (current : NodeId) (depth : ℕ)
    {visited : HashSet NodeId} (currentPath : List NodeId) (hstop : stop ∉ visited) :
    ∃ paths : List (List NodeId × List Edge), paths.Nodup ∧
      (∀ p, p ∈ paths ↔ g.Continues stop maxDepth current depth visited p) ∧
      WithFuel (fun fuel => g.allPathsDfs stop maxDepth fuel current depth visited currentPath)
        (· = some (paths.map fun p => currentPath ++ p.1)) := by
  induction hn : Loop.unseen g.nodeIds visited using Nat.strong_induction_on
    generalizing current depth visited currentPath with
  | _ n ih =>
    subst hn
    have hedges : ∀ p, g.Continues stop maxDepth current depth visited p →
        ∃ e ∈ g.getOutgoingEdges current, p.2.head? = some e := by
      rintro ⟨nodes, edges⟩ ⟨hwalk, hlast, -, -, -⟩
      cases nodes with
      | nil => cases hlast
      | cons v nodes =>
        cases edges with
        | nil => exact hwalk.elim
        | cons e edges => exact ⟨e, hwalk.1.1, rfl⟩
    by_cases hdeep : maxDepth.any fun max => decide (max ≤ depth)
    · have hreached := hdeep
      rw [Option.any_eq_true] at hreached
      obtain ⟨max, hmax, hle⟩ := hreached
      refine ⟨[], List.nodup_nil, fun p => ⟨fun hp => absurd hp List.not_mem_nil, fun hp => ?_⟩,
        WithFuel.of_succ (fun fuel => if_pos hdeep) (WithFuel.of_forall fun _ => rfl)⟩
      obtain ⟨e, -, hhead⟩ := hedges p hp
      have hbound := hp.bound max hmax
      have hpos : 0 < p.2.length := List.length_pos_of_ne_nil (by rintro hnil; rw [hnil] at hhead; cases hhead)
      have := of_decide_eq_true hle
      omega
    · have hturn : ∀ done e rest results, g.getOutgoingEdges current = done ++ e :: rest →
          g.ListsPaths stop maxDepth current depth visited currentPath done results →
          ∃ results', g.ListsPaths stop maxDepth current depth visited currentPath (done ++ [e]) results' ∧
            WithFuel (fun fuel =>
              if e.toNode = stop then some (results ++ [currentPath ++ [stop]])
              else if e.toNode ∈ visited then some results
              else (g.allPathsDfs stop maxDepth fuel e.toNode (depth + 1) (visited.add e.toNode)
                (currentPath ++ [e.toNode])).map (results ++ ·)) (· = some results') := by
        intro done e rest results hsplit hresults
        have heout : e ∈ g.getOutgoingEdges current := by
          rw [hsplit]
          simp
        have hefrom := ((h.mem_outgoing current e).mp heout).2
        have hefresh : e ∉ done := by
          have hnodup := h.nodup_outgoing current
          rw [hsplit] at hnodup
          exact fun hmem => (List.nodup_append.mp hnodup).2.2 e hmem e List.mem_cons_self rfl
        by_cases hend : e.toNode = stop
        · simp only [if_pos hend]
          refine ⟨_, hresults.append hefresh [([stop], [e])] (List.nodup_singleton _) fun p => ?_,
            WithFuel.of_forall fun _ => rfl⟩
          rw [List.mem_singleton]
          constructor
          · rintro rfl
            have hbound : ∀ max ∈ maxDepth, depth + 1 ≤ max := by
              intro max hmax
              by_contra hle
              rw [Option.any_eq_true] at hdeep
              exact hdeep ⟨max, hmax, decide_eq_true (by omega)⟩
            exact ⟨⟨⟨⟨heout, hefrom, hend⟩, trivial⟩, rfl, List.nodup_singleton stop,
              fun v hv => List.mem_singleton.mp hv ▸ hstop, hbound⟩, rfl⟩
          · rintro ⟨hp, hhead⟩
            exact hp.eq_of_stop hhead hend
        · simp only [if_neg hend]
          by_cases hseen : e.toNode ∈ visited
          · simp only [if_pos hseen]
            have hnone := hresults.append hefresh [] List.nodup_nil fun p => ⟨fun hp => absurd hp List.not_mem_nil,
              fun hp => absurd hseen ((continues_cons heout hefrom hend).mp hp).1⟩
            exact ⟨results, by simpa using hnone, WithFuel.of_forall fun _ => rfl⟩
          · simp only [if_neg hseen]
            have hlive : e.toNode ∈ g.nodeIds := h.toNode_mem e ((h.mem_outgoing current e).mp heout).1
            have hstop' : stop ∉ visited.add e.toNode := by
              rw [HashSet.mem_add, not_or]
              exact ⟨fun heq => hend heq.symm, hstop⟩
            obtain ⟨paths, hnodup, hpaths, hrun⟩ := ih _ (Loop.unseen_insert_lt () hlive hseen) e.toNode (depth + 1)
              (currentPath ++ [e.toNode]) hstop' rfl
            refine ⟨_, hresults.append hefresh (paths.map fun q => (e.toNode :: q.1, e :: q.2)) ?_ fun p => ?_,
              WithFuel.map (f := Option.map (results ++ ·)) (R := (· = some (results ++
                (paths.map fun q => (e.toNode :: q.1, e :: q.2)).map fun p => currentPath ++ p.1))) hrun
                fun r hr => ?_⟩
            · refine hnodup.map fun q q' hqq => ?_
              obtain ⟨hnodes, hes⟩ := Prod.mk.inj hqq
              exact Prod.ext (List.cons.inj hnodes).2 (List.cons.inj hes).2
            · rw [continues_cons heout hefrom hend, List.mem_map]
              constructor
              · rintro ⟨q, hq, rfl⟩
                exact ⟨hseen, q, (hpaths q).mp hq, rfl⟩
              · rintro ⟨-, q, hq, rfl⟩
                exact ⟨q, (hpaths q).mpr hq, rfl⟩
            · rw [hr, Option.map_some, List.map_map]
              simp
      obtain ⟨results, ⟨paths, hnodup, hpaths, rfl⟩, hrun⟩ := Loop.foldlM_withFuel
        (g.ListsPaths stop maxDepth current depth visited currentPath) (g.getOutgoingEdges current) hturn
        ⟨[], List.nodup_nil, fun p => by simp, rfl⟩
      refine ⟨paths, hnodup, fun p => ?_, WithFuel.of_succ (fun fuel => ?_) hrun⟩
      · rw [hpaths]
        exact ⟨fun hp => hp.1, fun hp => ⟨hp, hedges p hp⟩⟩
      · rw [Graph.allPathsDfs, if_neg hdeep]
        rfl

/-- A path along edges that passes no node twice and is within the bound. -/
def IsSimplePath (g : Graph) (start stop : NodeId) (maxDepth : Option ℕ) (p : List NodeId × List Edge) : Prop :=
  WalksTo g.EdgeLink start stop p.1 p.2 ∧ p.1.Nodup ∧ ∀ max ∈ maxDepth, p.2.length ≤ max

/-- `all_paths` lists the nodes of every simple path of edges once. -/
theorem Adjacent.allPaths (h : g.Adjacent) {start : NodeId} (hstart : start ∈ g.nodeIds) (hstop : stop ∈ g.nodeIds)
    (maxDepth : Option ℕ) :
    ∃ result, WithFuel (fun fuel => g.allPaths fuel start stop maxDepth) (· = some result) ∧
      ∃ walks : List (List NodeId × List Edge), walks.Nodup ∧
        (∀ p, p ∈ walks ↔ g.IsSimplePath start stop maxDepth p) ∧ result = walks.map (·.1) := by
  have hlive : ¬ ((g.getNode start).isNone || (g.getNode stop).isNone) = true := by
    rw [h.mem_nodeIds] at hstart hstop
    rw [Bool.or_eq_true, Option.isNone_iff_eq_none, Option.isNone_iff_eq_none, not_or]
    exact ⟨Option.isSome_iff_ne_none.mp hstart, Option.isSome_iff_ne_none.mp hstop⟩
  by_cases hends : start = stop
  · subst hends
    refine ⟨[[start]], WithFuel.of_forall fun fuel => ?_, [([start], [])], List.nodup_singleton _, fun p => ?_, rfl⟩
    · rw [Graph.allPaths, if_neg hlive, if_pos rfl]
    · rw [List.mem_singleton]
      constructor
      · rintro rfl
        exact ⟨⟨trivial, rfl, rfl⟩, List.nodup_singleton start, fun _ _ => Nat.zero_le _⟩
      · rintro ⟨⟨hwalk, hhead, hlast⟩, hnodup, -⟩
        obtain ⟨nodes, edges⟩ := p
        dsimp only at hwalk hhead hlast hnodup
        cases nodes with
        | nil => cases hhead
        | cons u nodes =>
          obtain rfl : u = start := Option.some.inj hhead
          cases nodes with
          | nil =>
            cases edges with
            | nil => rfl
            | cons e edges => exact hwalk.elim
          | cons v nodes =>
            have hmem : u ∈ v :: nodes := List.mem_of_getLast? (by simpa using hlast)
            exact absurd hmem (List.nodup_cons.mp hnodup).1
  · have hfresh : stop ∉ HashSet.add ∅ start := by
      rw [HashSet.mem_add, not_or]
      exact ⟨fun heq => hends heq.symm, AList.notMem_empty stop⟩
    have hsearch : ∀ fuel, g.allPaths fuel start stop maxDepth =
        g.allPathsDfs stop maxDepth fuel start 0 (HashSet.add ∅ start) [start] := by
      intro fuel
      rw [Graph.allPaths, if_neg hlive, if_neg hends]
    obtain ⟨paths, hnodup, hpaths, hrun⟩ := h.allPathsDfs maxDepth start 0 [start] hfresh
    simp only [hsearch]
    refine ⟨_, hrun, paths.map fun q => (start :: q.1, q.2), hnodup.map fun q q' hqq => ?_, fun p => ?_, by simp⟩
    · obtain ⟨hnodes, hedges⟩ := Prod.mk.inj hqq
      exact Prod.ext (List.cons.inj hnodes).2 hedges
    · rw [List.mem_map]
      constructor
      · rintro ⟨q, hq, rfl⟩
        obtain ⟨hwalk, hlast, hnodup', hnew, hbound⟩ := (hpaths q).mp hq
        refine ⟨⟨hwalk, rfl, ?_⟩, List.nodup_cons.mpr ⟨fun hmem => ?_, hnodup'⟩, fun max hmax => ?_⟩
        · dsimp only
          rw [List.getLast?_cons, hlast]
          rfl
        · exact hnew start hmem ((HashSet.mem_add ..).mpr (.inl rfl))
        · simpa using hbound max hmax
      · rintro ⟨⟨hwalk, hhead, hlast⟩, hnodup', hbound⟩
        obtain ⟨nodes, edges⟩ := p
        dsimp only at hwalk hhead hlast hnodup' hbound
        cases nodes with
        | nil => cases hhead
        | cons u nodes =>
          obtain rfl : u = start := Option.some.inj hhead
          obtain ⟨hnew, hnodup'⟩ := List.nodup_cons.mp hnodup'
          refine ⟨(nodes, edges), (hpaths _).mpr ⟨hwalk, ?_, hnodup', fun v hv hmem => ?_, fun max hmax => ?_⟩, rfl⟩
          · cases nodes with
            | nil => exact absurd (Option.some.inj hlast) hends
            | cons v nodes => simpa using hlast
          · rcases (HashSet.mem_add ..).mp hmem with rfl | hmem
            · exact hnew hv
            · exact AList.notMem_empty v hmem
          · simpa using hbound max hmax

/-! ## The enumeration of paths -/

/-- No two edges lead from one node to the same other one. -/
def NoParallel (g : Graph) : Prop :=
  ∀ e ∈ g.allEdges, ∀ e' ∈ g.allEdges, e.fromNode = e'.fromNode → e.toNode = e'.toNode → e = e'

/-- Without parallel edges the nodes of a walk determine its edges. -/
lemma Adjacent.edges_unique (h : g.Adjacent) (hparallel : g.NoParallel) {nodes : List NodeId} {edges edges' : List Edge}
    (hwalk : IsWalk g.EdgeLink nodes edges) (hwalk' : IsWalk g.EdgeLink nodes edges') : edges = edges' := by
  induction nodes generalizing edges edges' with
  | nil => cases edges <;> exact hwalk.elim
  | cons u nodes ih =>
    cases nodes with
    | nil =>
      cases edges with
      | nil =>
        cases edges' with
        | nil => rfl
        | cons e' edges' => exact hwalk'.elim
      | cons e edges => exact hwalk.elim
    | cons v nodes =>
      cases edges with
      | nil => exact hwalk.elim
      | cons e edges =>
        cases edges' with
        | nil => exact hwalk'.elim
        | cons e' edges' =>
          obtain ⟨⟨he, hfrom, hto⟩, hrest⟩ := hwalk
          obtain ⟨⟨he', hfrom', hto'⟩, hrest'⟩ := hwalk'
          rw [hparallel e ((h.mem_outgoing u e).mp he).1 e' ((h.mem_outgoing u e').mp he').1
            (hfrom.trans hfrom'.symm) (hto.trans hto'.symm), ih hrest hrest']

/-- `shortest_path` on the graph. -/
def shortestPath (g : Graph) (fuel : ℕ) (start stop : NodeId) : Option (Option (List NodeId)) :=
  @Maharit.shortestPath Graph (backend .listed .listed) g fuel start stop

/-- `all_shortest_paths` on the graph. -/
def allShortestPaths (g : Graph) (fuel : ℕ) (start stop : NodeId) : Option (List (List NodeId)) :=
  @Maharit.allShortestPaths Graph (backend .listed .listed) g fuel start stop

lemma Adjacent.connects (h : g.Adjacent) : @GraphBackend.Connects Graph (backend .listed .listed) g :=
  let _ := backend .listed .listed
  { nodup_allEdges := h.nodup_allEdges
    mem_outgoing := h.mem_outgoing
    nodup_outgoing := h.nodup_outgoing
    toNode_mem := h.toNode_mem }

/-- `shortest_path` finds a path with the fewest edges exactly when there is a path. -/
def FindsShortestPath (g : Graph) (start stop : NodeId) : Prop :=
  ∃ result, WithFuel (fun fuel => g.shortestPath fuel start stop) (· = some result) ∧
    (result.isSome ↔ ∃ nodes edges, WalksTo g.EdgeLink start stop nodes edges) ∧
    ∀ nodes, result = some nodes → ∃ edges, IsShortest g.EdgeLink start stop (nodes, edges)

/-- `all_shortest_paths` lists the nodes of every path with the fewest edges, once for each path of edges. -/
def ListsShortestPaths (g : Graph) (start stop : NodeId) : Prop :=
  ∃ result, WithFuel (fun fuel => g.allShortestPaths fuel start stop) (· = some result) ∧
    ∃ walks : List (List NodeId × List Edge), walks.Nodup ∧
      (∀ p, p ∈ walks ↔ IsShortest g.EdgeLink start stop p) ∧ result.Perm (walks.map (·.1))

/-- The three searches for paths: `shortest_path` finds a shortest path exactly when there is a path,
`all_shortest_paths` lists the nodes of all shortest paths of edges, and `all_paths` lists the nodes of all simple paths
of edges within the bound, each path of edges once; without parallel edges it lists no path of nodes twice. -/
theorem path_enumeration (g : Graph) (start stop : NodeId) (hg : g.Built) (hstart : start ∈ g.nodeIds)
    (hstop : stop ∈ g.nodeIds) :
    g.FindsShortestPath start stop ∧ g.ListsShortestPaths start stop ∧
      ∀ maxDepth, ∃ result, WithFuel (fun fuel => g.allPaths fuel start stop maxDepth) (· = some result) ∧
        (∃ walks : List (List NodeId × List Edge), walks.Nodup ∧
          (∀ p, p ∈ walks ↔ g.IsSimplePath start stop maxDepth p) ∧ result.Perm (walks.map (·.1))) ∧
        (g.NoParallel → result.Nodup) := by
  have h := hg.adjacent
  let _ := backend .listed .listed
  refine ⟨shortestPath_withFuel h.connects start stop, allShortestPaths_connects h.connects start stop,
    fun maxDepth => ?_⟩
  obtain ⟨result, hrun, walks, hnodup, hwalks, rfl⟩ := h.allPaths hstart hstop maxDepth
  refine ⟨_, hrun, ⟨walks, hnodup, hwalks, List.Perm.refl _⟩, fun hparallel => ?_⟩
  refine (List.nodup_map_iff_inj_on hnodup).mpr fun p hp q hq hnodes => Prod.ext hnodes ?_
  have hq' := ((hwalks q).mp hq).1.walk
  rw [← hnodes] at hq'
  exact h.edges_unique hparallel ((hwalks p).mp hp).1.walk hq'

/-- Two nodes that two edges join. -/
def parallelRoads : Graph :=
  ofCalls [.createNodeWithLabels ["Stop"], .createNodeWithLabels ["Stop"], .createEdge 0 1 "ROAD",
    .createEdge 0 1 "ROAD"]

theorem path_enumeration_parallelRoads :
    parallelRoads.FindsShortestPath 0 1 ∧ parallelRoads.ListsShortestPaths 0 1 ∧
      ∀ maxDepth, ∃ result, WithFuel (fun fuel => parallelRoads.allPaths fuel 0 1 maxDepth) (· = some result) ∧
        (∃ walks : List (List NodeId × List Edge), walks.Nodup ∧
          (∀ p, p ∈ walks ↔ parallelRoads.IsSimplePath 0 1 maxDepth p) ∧ result.Perm (walks.map (·.1))) ∧
        (parallelRoads.NoParallel → result.Nodup) :=
  path_enumeration parallelRoads 0 1 (built_ofCalls _ (by decide)) (by decide) (by decide)

/-- Two parallel edges make two entries with the same nodes, so a path of nodes is not listed once. -/
theorem not_allPaths_once :
    ¬ ∀ (g : Graph) (start stop : NodeId), g.Built → start ∈ g.nodeIds → stop ∈ g.nodeIds →
      g.FindsShortestPath start stop ∧ g.ListsShortestPaths start stop ∧
        ∀ maxDepth, ∃ result, WithFuel (fun fuel => g.allPaths fuel start stop maxDepth) (· = some result) ∧
          result.Nodup ∧ ∀ nodes, nodes ∈ result ↔ ∃ edges, g.IsSimplePath start stop maxDepth (nodes, edges) := by
  intro hall
  have hbuilt : parallelRoads.Built := built_ofCalls _ (by decide)
  obtain ⟨-, -, hpaths⟩ := hall parallelRoads 0 1 hbuilt (by decide) (by decide)
  obtain ⟨result, hrun, honce, -⟩ := hpaths none
  obtain ⟨result', hrun', walks, -, hwalks, rfl⟩ := hbuilt.adjacent.allPaths (by decide : 0 ∈ parallelRoads.nodeIds)
    (by decide : 1 ∈ parallelRoads.nodeIds) none
  obtain ⟨fuel, hfuel, hfuel'⟩ := (hrun.and hrun').exists_bound
  obtain rfl : result = walks.map (·.1) := Option.some.inj (hfuel.symm.trans hfuel')
  let road (id : EdgeId) : Edge := ⟨id, "ROAD", 0, 1, ∅⟩
  have hout : parallelRoads.getOutgoingEdges 0 = [road 1, road 0] := rfl
  have hroad : ∀ id, road id ∈ parallelRoads.getOutgoingEdges 0 → ([0, 1], [road id]) ∈ walks := by
    intro id hid
    have hnodup : ([0, 1] : List NodeId).Nodup := by decide
    exact (hwalks _).mpr ⟨⟨⟨⟨hid, rfl, rfl⟩, trivial⟩, rfl, rfl⟩, hnodup, fun max hmax => (by cases hmax)⟩
  have hfirst := hroad 0 (by rw [hout]; simp)
  have hsecond := hroad 1 (by rw [hout]; simp)
  have hsame := List.inj_on_of_nodup_map honce hfirst hsecond rfl
  have hid : (0 : EdgeId) = 1 := congrArg (fun p => (p.2.map Edge.id).headD 0) hsame
  exact absurd hid (by decide)

end Graph

end Maharit
