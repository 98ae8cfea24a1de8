import MaharitDb.Lib.WalkDistance
import MaharitDb.Query.SimplePaths

/-!
# Shortest-path hops

`match_shortest_segment` goes from layer to layer and notes for every node the edges that first led to it, all of
them or one; `shortest_paths_to` goes back along them.  The layers are the nodes at one distance each, the paths
read off are the shortest ones, and the search loses nothing by stopping when the end node is bound and reached.
-/

namespace Maharit

open Walks

variable {σ : Type} [GraphBackend σ] (g : σ) (segment : PathSegment Expression)

/-- A shortest walk to a node has so many edges. -/
abbrev HopDist (start : NodeId) (d : ℕ) (v : NodeId) : Prop := IsDist (HopLinks g segment) start d v

/-- No walk from the start to the same node has fewer edges. -/
structure FoundPath.Shortest (start : NodeId) (path : FoundPath) : Prop where
  walks : path.WalksFrom g segment start
  least : ∀ other : FoundPath, other.WalksFrom g segment start → other.stop = path.stop →
    path.edges.length ≤ other.edges.length

/-- For the nodes up to a distance there is an edge from the distance before, and all of them if asked for. -/
structure Predecessors.Noted (kind : ShortestPathKind) (start : NodeId) (depth : ℕ) (preds : Predecessors) : Prop where
  noted : ∀ d v, d + 1 ≤ depth → HopDist g segment start (d + 1) v → ∃ before, preds.lookup v = some before ∧
    before ≠ [] ∧ (∀ p ∈ before, HopDist g segment start d p.1 ∧ HopLinks g segment p.1 p.2 v) ∧
    (kind = .all → before.Nodup ∧
      ∀ u id, HopDist g segment start d u → HopLinks g segment u id v → (u, id) ∈ before)

variable {g segment} {kind : ShortestPathKind} {start : NodeId}

lemma FoundPath.shortest_iff {path : FoundPath} :
    path.Shortest g segment start ↔
      path.WalksFrom g segment start ∧ HopDist g segment start path.edges.length path.stop := by
  constructor
  · rintro ⟨hwalks, hleast⟩
    refine ⟨hwalks, hwalks.reaches, fun j hj hreach => ?_⟩
    obtain ⟨nodes, edges, hother, rfl⟩ := hreach.exists_walksTo
    exact absurd (hleast ⟨path.stop, nodes, edges⟩ hother rfl) (Nat.not_le.mpr hj)
  · rintro ⟨hwalks, hdist⟩
    refine ⟨hwalks, fun other hother hstop => ?_⟩
    by_contra hlt
    have hreach := WalksTo.reaches hother
    rw [hstop] at hreach
    exact hdist.2 _ (Nat.not_le.mp hlt) hreach

/-! ## Going back -/

/-- The start is not gone back from. -/
lemma backwards_start (preds : Predecessors) (fuel : ℕ) (nodes : List NodeId) (edges : List EdgeId) :
    backwards preds start fuel (start :: nodes) edges = [(start :: nodes, edges)] := by
  cases fuel <;> simp [backwards]

/-- What is found by going back from a node: shortest walks to it, put before the part that is known; all of them,
each once, if all are asked for. -/
structure FoundBack (g : σ) (segment : PathSegment Expression) (kind : ShortestPathKind) (start : NodeId) (d : ℕ)
    (head : NodeId) (nodes : List NodeId) (edges : List EdgeId) (found : List (List NodeId × List EdgeId)) : Prop where
  ne_nil : found ≠ []
  sound : ∀ p ∈ found, ∃ ns es, WalksTo (HopLinks g segment) start head ns es ∧ es.length = d ∧
    p = (ns ++ nodes, es ++ edges)
  nodup : kind = .all → found.Nodup
  complete : kind = .all → ∀ ns es, WalksTo (HopLinks g segment) start head ns es → es.length = d →
    (ns ++ nodes, es ++ edges) ∈ found

/-- Going back from a node at a distance. -/
lemma foundBack_backwards {preds : Predecessors} {depth : ℕ} (hpreds : preds.Noted g segment kind start depth)
    {d fuel : ℕ} (hdepth : d ≤ depth) (hfuel : d ≤ fuel) {head : NodeId} (hdist : HopDist g segment start d head)
    (nodes : List NodeId) (edges : List EdgeId) :
    FoundBack g segment kind start d head nodes edges (backwards preds start fuel (head :: nodes) edges) := by
  induction d generalizing fuel head nodes edges with
  | zero =>
    obtain rfl := isDist_zero.mp hdist
    rw [backwards_start]
    refine ⟨List.cons_ne_nil _ _, fun p hp => ?_, fun _ => List.nodup_singleton _, fun _ ns es hwalks hes => ?_⟩
    · exact ⟨[head], [], ⟨trivial, rfl, rfl⟩, rfl, List.mem_singleton.mp hp⟩
    · obtain rfl := List.length_eq_zero_iff.mp hes
      obtain ⟨u, rfl⟩ := List.length_eq_one_iff.mp hwalks.walk.length
      obtain rfl : u = head := Option.some.inj hwalks.head
      exact List.mem_singleton_self _
  | succ d ih =>
    obtain ⟨before, hlookup, hne, hsound, hall⟩ := hpreds.noted d head hdepth hdist
    obtain ⟨fuel, rfl⟩ : ∃ n, fuel = n + 1 := ⟨fuel - 1, by omega⟩
    have hstart : head ≠ start := by
      rintro rfl
      have hzero := hdist.unique (isDist_zero.mpr rfl)
      omega
    have hunfold : backwards preds start (fuel + 1) (head :: nodes) edges =
        before.reverse.flatMap fun p => backwards preds start fuel (p.1 :: head :: nodes) (p.2 :: edges) := by
      rw [backwards, if_neg hstart, hlookup, Option.getD_some]
    have hback : ∀ p ∈ before.reverse, FoundBack g segment kind start d p.1 (head :: nodes) (p.2 :: edges)
        (backwards preds start fuel (p.1 :: head :: nodes) (p.2 :: edges)) := fun p hp =>
      ih (by omega) (by omega) (hsound p (List.mem_reverse.mp hp)).1 _ _
    have hshift : ∀ (ns : List NodeId) (es : List EdgeId) (id : EdgeId),
        (ns ++ head :: nodes, es ++ id :: edges) = ((ns ++ [head]) ++ nodes, (es ++ [id]) ++ edges) := by
      intro ns es id
      simp
    rw [hunfold]
    refine ⟨?_, ?_, ?_, ?_⟩
    · obtain ⟨p, rest, hp⟩ := List.exists_cons_of_ne_nil (mt List.reverse_eq_nil_iff.mp hne)
      have hfirst := (hback p (hp ▸ List.mem_cons_self)).ne_nil
      rw [hp, List.flatMap_cons]
      exact fun happ => hfirst (List.append_eq_nil_iff.mp happ).1
    · intro q hq
      obtain ⟨p, hp, hq⟩ := List.mem_flatMap.mp hq
      obtain ⟨ns, es, hwalks, rfl, rfl⟩ := (hback p hp).sound q hq
      have hlink := (hsound p (List.mem_reverse.mp hp)).2
      refine ⟨ns ++ [head], es ++ [p.2], ⟨(isWalk_concat hwalks.last).mpr ⟨hwalks.walk, hlink⟩, ?_, ?_⟩, ?_,
        hshift ns es p.2⟩
      · rw [List.head?_append_of_ne_nil _ hwalks.walk.ne_nil, hwalks.head]
      · exact List.getLast?_concat
      · simp
    · intro hkind
      refine List.nodup_flatMap.mpr ⟨fun p hp => (hback p hp).nodup hkind, ?_⟩
      refine (List.nodup_reverse.mpr (hall hkind).1).imp_of_mem fun {p p'} hp hp' hne => ?_
      intro q hq hq'
      obtain ⟨ns, es, hwalks, hes, rfl⟩ := (hback p hp).sound q hq
      obtain ⟨ns', es', hwalks', hes', heq⟩ := (hback p' hp').sound _ hq'
      obtain ⟨hns, hes⟩ := Prod.mk.inj heq
      -- the part before the node ends with the predecessor, and the edge stands after it
      obtain ⟨hns, -⟩ := List.append_inj' hns rfl
      obtain ⟨-, hedges⟩ := List.append_inj' hes rfl
      have hlast := hwalks.last
      rw [hns, hwalks'.last] at hlast
      exact hne (Prod.ext (Option.some.inj hlast.symm) (List.cons.inj hedges).1)
    · intro hkind ns es hwalks hes
      obtain ⟨ns', es', u, id, rfl, rfl, hwalks', hes', hu, hlink⟩ := hwalks.exists_concat hes hdist
      have hmem := (hall hkind).2 u id hu hlink
      rw [← hshift ns' es' id]
      exact List.mem_flatMap.mpr ⟨(u, id), List.mem_reverse.mpr hmem,
        (hback _ (List.mem_reverse.mpr hmem)).complete hkind ns' es' hwalks' hes'⟩

/-- The nodes of a shortest walk after its start have predecessors, so there are enough of them. -/
lemma Predecessors.Noted.dist_le {preds : Predecessors} {depth : ℕ} (hpreds : preds.Noted g segment kind start depth)
    {d : ℕ} (hdepth : d ≤ depth) {v : NodeId} (hdist : HopDist g segment start d v) : d ≤ preds.keys.length := by
  obtain ⟨nodes, edges, hwalks, rfl⟩ := hdist.1.exists_walksTo
  obtain ⟨hnodup, hnear⟩ := hwalks.nodup hdist
  have hlength : nodes.tail.length = edges.length := by
    rw [List.length_tail, hwalks.walk.length]
    rfl
  obtain ⟨rest, rfl⟩ : ∃ rest, nodes = start :: rest := List.head?_eq_some_iff.mp hwalks.head
  rw [← hlength]
  refine ((List.nodup_cons.mp hnodup).2.subperm fun u hu => ?_).length_le
  obtain ⟨i, hi, hdist'⟩ := hnear u (List.mem_cons_of_mem _ hu)
  cases i with
  | zero =>
    rw [isDist_zero.mp hdist'] at hu
    exact absurd hu (List.nodup_cons.mp hnodup).1
  | succ i =>
    obtain ⟨before, hlookup, -⟩ := hpreds.noted i u (hi.trans hdepth) hdist'
    exact (HashMap.mem_iff_exists preds u).mpr ⟨before, hlookup⟩

/-- The shortest paths to a node: one of them, or each of them once. -/
structure PathsTo (g : σ) (segment : PathSegment Expression) (kind : ShortestPathKind) (start stop : NodeId)
    (paths : List FoundPath) : Prop where
  sound : ∀ path ∈ paths, path.Shortest g segment start ∧ path.stop = stop
  single : kind = .single → paths.length = 1
  nodup : paths.Nodup
  all : kind = .all → ∀ path : FoundPath, path.Shortest g segment start → path.stop = stop → path ∈ paths

lemma pathsTo_shortestPathsTo {preds : Predecessors} {depth : ℕ} (hpreds : preds.Noted g segment kind start depth)
    {d : ℕ} (hdepth : d ≤ depth) {stop : NodeId} (hdist : HopDist g segment start d stop) :
    PathsTo g segment kind start stop (shortestPathsTo preds start stop kind) := by
  have hfound := foundBack_backwards hpreds hdepth (hpreds.dist_le hdepth hdist) hdist [] []
  have hsound : ∀ path ∈ (backwards preds start preds.keys.length [stop] []).map
      (fun p => (⟨stop, p.1, p.2⟩ : FoundPath)), path.Shortest g segment start ∧ path.stop = stop := by
    intro path hpath
    obtain ⟨p, hp, rfl⟩ := List.mem_map.mp hpath
    obtain ⟨ns, es, hwalks, rfl, rfl⟩ := hfound.sound p hp
    refine ⟨FoundPath.shortest_iff.mpr ⟨?_, ?_⟩, rfl⟩
    · simpa using hwalks
    · simpa using hdist
  cases kind with
  | single =>
    refine ⟨fun path hpath => hsound path (List.mem_of_mem_take hpath), fun _ => ?_, ?_, fun h => by cases h⟩
    · have hpos := List.length_pos_iff.mpr hfound.ne_nil
      simp only [shortestPathsTo, List.length_take, List.length_map]
      omega
    · obtain ⟨p, rest, hp⟩ := List.exists_cons_of_ne_nil hfound.ne_nil
      simp [shortestPathsTo, hp]
  | all =>
    refine ⟨hsound, fun h => (by cases h), ?_, fun _ path hpath hstop => ?_⟩
    · refine (hfound.nodup rfl).map fun p p' heq => ?_
      obtain ⟨-, hnodes, hedges⟩ := FoundPath.mk.inj heq
      exact Prod.ext hnodes hedges
    · obtain ⟨hwalks, hdist'⟩ := FoundPath.shortest_iff.mp hpath
      obtain ⟨stop', nodes, edges⟩ := path
      obtain rfl : stop' = stop := hstop
      have hmem := hfound.complete rfl nodes edges hwalks (hdist'.unique hdist)
      simp only [List.append_nil] at hmem
      exact List.mem_map.mpr ⟨_, hmem, rfl⟩

/-! ## A layer -/

/-- The nodes and edges from which a node is reached, when edges are tried in an order. -/
def arrivals (segment : PathSegment Expression) (hops : List (NodeId × Edge)) (v : NodeId) : List (NodeId × EdgeId) :=
  (hops.filter fun h => getNextNode h.1 h.2 segment.edge.direction = v).map fun h => (h.1, h.2.id)

/-- What is noted of the edges that lead to a node. -/
def ShortestPathKind.kept (kind : ShortestPathKind) (before : List (NodeId × EdgeId)) : List (NodeId × EdgeId) :=
  match kind with
  | .single => before.take 1
  | .all => before

/-- How a layer looks after some edges from the one before. -/
structure Layer.Scanned (segment : PathSegment Expression) (kind : ShortestPathKind) (s : Layer)
    (hops : List (NodeId × Edge)) (s' : Layer) : Prop where
  depth : s'.depth = s.depth
  dist : ∀ v, s'.dist.lookup v = (s.dist.lookup v).or
    (if arrivals segment hops v = [] then none else some (s.depth + 1))
  nodup : s'.frontier.Nodup
  frontier : ∀ v, v ∈ s'.frontier ↔ s.dist.lookup v = none ∧ arrivals segment hops v ≠ []
  preds : ∀ v, s'.preds.lookup v = if s.dist.lookup v = none ∧ arrivals segment hops v ≠ []
    then some (kind.kept (arrivals segment hops v)) else s.preds.lookup v

lemma arrivals_concat (hops : List (NodeId × Edge)) (h : NodeId × Edge) (v : NodeId) :
    arrivals segment (hops ++ [h]) v = arrivals segment hops v ++
      if getNextNode h.1 h.2 segment.edge.direction = v then [(h.1, h.2.id)] else [] := by
  rw [arrivals, List.filter_append, List.map_append]
  congr 1
  by_cases hv : getNextNode h.1 h.2 segment.edge.direction = v <;> simp [hv]

/-- One more edge is tried. -/
lemma Layer.Scanned.over {s s' : Layer} {hops : List (NodeId × Edge)} (hscanned : s.Scanned segment kind hops s')
    (hbound : ∀ v d, s.dist.lookup v = some d → d ≤ s.depth) (h : NodeId × Edge) :
    s.Scanned segment kind (hops ++ [h]) (Layer.over segment kind h.1 s' h.2) := by
  obtain ⟨hdepth, hdist, hnodup, hfrontier, hpreds⟩ := hscanned
  generalize hnext : getNextNode h.1 h.2 segment.edge.direction = next
  have harrivals : ∀ v, arrivals segment (hops ++ [h]) v =
      arrivals segment hops v ++ if next = v then [(h.1, h.2.id)] else [] := by
    intro v
    rw [arrivals_concat, hnext]
  have hother : ∀ v, v ≠ next → arrivals segment (hops ++ [h]) v = arrivals segment hops v := by
    intro v hv
    rw [harrivals, if_neg (Ne.symm hv), List.append_nil]
  have hsame : arrivals segment (hops ++ [h]) next = arrivals segment hops next ++ [(h.1, h.2.id)] := by
    rw [harrivals, if_pos rfl]
  have hne : arrivals segment (hops ++ [h]) next ≠ [] := by simp [hsame]
  have hlookup := hdist next
  unfold Layer.over
  rw [hnext]
  cases hold : s.dist.lookup next with
  | some d =>
    -- the node has been reached in an earlier layer
    rw [hold, Option.some_or] at hlookup
    have hd : ¬ (d = s'.depth + 1 ∧ kind = .all) := by
      have hle := hbound next d hold
      omega
    simp only [hlookup, if_neg hd]
    refine ⟨hdepth, fun v => ?_, hnodup, fun v => ?_, fun v => ?_⟩ <;> by_cases hv : v = next
    · rw [hv, hlookup, hold, Option.some_or]
    · rw [hdist, hother v hv]
    · rw [hv, hfrontier, hold]
      simp
    · rw [hfrontier, hother v hv]
    · rw [hv, hpreds, hold]
      simp
    · rw [hpreds, hother v hv]
  | none =>
    rw [hold, Option.none_or] at hlookup
    by_cases hfirst : arrivals segment hops next = []
    · -- the node is new
      rw [if_pos hfirst] at hlookup
      simp only [hlookup]
      refine ⟨hdepth, fun v => ?_, ?_, fun v => ?_, fun v => ?_⟩
      · rw [HashMap.lookup_insert_ite]
        by_cases hv : v = next
        · rw [hv, if_pos rfl, hold, Option.none_or, if_neg hne, hdepth]
        · rw [if_neg hv, hdist, hother v hv]
      · refine List.nodup_append_comm.mp (List.nodup_cons.mpr ⟨fun hmem => ?_, hnodup⟩)
        exact ((hfrontier next).mp hmem).2 hfirst
      · rw [List.mem_append, List.mem_singleton]
        by_cases hv : v = next
        · exact iff_of_true (.inr hv) ⟨hv ▸ hold, hv ▸ hne⟩
        · rw [hfrontier, hother v hv, or_iff_left hv]
      · rw [HashMap.lookup_insert_ite]
        by_cases hv : v = next
        · rw [hv, if_pos rfl, if_pos ⟨hold, hne⟩, hsame, hfirst]
          cases kind <;> rfl
        · rw [if_neg hv, hpreds, hother v hv]
    · -- the node has been reached in this layer
      rw [if_neg hfirst] at hlookup
      have hbefore := hpreds next
      rw [if_pos ⟨hold, hfirst⟩] at hbefore
      cases kind with
      | single =>
        simp only [hlookup, reduceCtorEq, and_false, if_false]
        refine ⟨hdepth, fun v => ?_, hnodup, fun v => ?_, fun v => ?_⟩ <;> by_cases hv : v = next
        · rw [hv, hlookup, hold, Option.none_or, if_neg hne]
        · rw [hdist, hother v hv]
        · rw [hv, hfrontier]
          exact iff_of_true ⟨hold, hfirst⟩ ⟨hold, hne⟩
        · rw [hfrontier, hother v hv]
        · rw [hv, hbefore, if_pos ⟨hold, hne⟩, hsame]
          simp only [ShortestPathKind.kept]
          rw [List.take_append_of_le_length (List.length_pos_iff.mpr hfirst)]
        · rw [hpreds, hother v hv]
      | all =>
        simp only [hlookup, hdepth, and_self, if_true]
        refine ⟨rfl, fun v => ?_, hnodup, fun v => ?_, fun v => ?_⟩
        · by_cases hv : v = next
          · rw [hv, hlookup, hold, Option.none_or, if_neg hne]
          · rw [hdist, hother v hv]
        · by_cases hv : v = next
          · rw [hv, hfrontier]
            exact iff_of_true ⟨hold, hfirst⟩ ⟨hold, hne⟩
          · rw [hfrontier, hother v hv]
        · rw [HashMap.modifyDefault, HashMap.lookup_insert_ite]
          by_cases hv : v = next
          · rw [hv, if_pos rfl, if_pos ⟨hold, hne⟩, hsame, HashMap.getDefault, hbefore]
            rfl
          · rw [if_neg hv, hpreds, hother v hv]

/-- The hops from the nodes of a layer, in the order in which they are tried. -/
def layerHops (g : σ) (segment : PathSegment Expression) (frontier : List NodeId) : List (NodeId × Edge) :=
  frontier.flatMap fun id => (hopEdges g segment id).map (id, ·)

lemma Layer.next_eq (s : Layer) :
    s.next g segment kind = { (layerHops g segment s.frontier).foldl (fun s' h => Layer.over segment kind h.1 s' h.2)
      { s with frontier := [] } with depth := s.depth + 1 } := by
  rw [Layer.next, layerHops, List.foldl_flatMap]
  simp only [List.foldl_map]

/-- All edges from a layer have been tried. -/
lemma Layer.scanned {s : Layer} (hbound : ∀ v d, s.dist.lookup v = some d → d ≤ s.depth)
    (hops : List (NodeId × Edge)) :
    s.Scanned segment kind hops (hops.foldl (fun s' h => Layer.over segment kind h.1 s' h.2)
      { s with frontier := [] }) := by
  induction hops using List.reverseRecOn with
  | nil => exact ⟨rfl, fun v => by simp [arrivals], List.nodup_nil, fun v => by simp [arrivals],
      fun v => by simp [arrivals]⟩
  | append_singleton hops h ih =>
    rw [List.foldl_append]
    exact ih.over hbound h

/-! ## From layer to layer -/

/-- The edges that lead from a node to another one are tried once. -/
lemma nodup_hopEdges_to (hg : GraphBackend.Coherent g) {u v : NodeId} (huv : u ≠ v) :
    ((hopEdges g segment u).filter fun e => getNextNode u e segment.edge.direction = v).Nodup := by
  unfold hopEdges
  cases hdir : segment.edge.direction with
  | outgoing => exact ((hg.nodup_outgoingEdges u).filter _).filter _
  | incoming => exact ((hg.nodup_incomingEdges u).filter _).filter _
  | both =>
    rw [getEdgesByDirection, List.filter_append, List.filter_append, List.nodup_append']
    refine ⟨((hg.nodup_outgoingEdges u).filter _).filter _, ((hg.nodup_incomingEdges u).filter _).filter _, ?_⟩
    intro e hout hin
    obtain ⟨hout, hnext⟩ := List.mem_filter.mp hout
    have hfrom := ((hg.mem_outgoingEdges _ _).mp (List.mem_filter.mp hout).1).2
    have hto := ((hg.mem_incomingEdges _ _).mp (List.mem_filter.mp (List.mem_filter.mp hin).1).1).2
    have hback : e.toNode = v := by simpa [getNextNode, hfrom] using hnext
    exact huv (hto.symm.trans hback)

/-- The arrivals at a node are the edges that lead to it from the layer. -/
lemma mem_arrivals (hg : GraphBackend.Coherent g) {frontier : List NodeId} {u v : NodeId} {id : EdgeId} :
    (u, id) ∈ arrivals segment (layerHops g segment frontier) v ↔ u ∈ frontier ∧ HopLinks g segment u id v := by
  simp only [arrivals, layerHops, List.mem_map, List.mem_filter, List.mem_flatMap, decide_eq_true_eq]
  constructor
  · rintro ⟨_, ⟨⟨u, hu, e, he, rfl⟩, hnext⟩, heq⟩
    obtain ⟨rfl, rfl⟩ := Prod.mk.inj heq
    obtain ⟨hlive, htype, hjoined⟩ := (mem_hopEdges hg).mp ⟨he, hnext⟩
    exact ⟨hu, e, rfl, hlive, htype, hjoined⟩
  · rintro ⟨hu, e, rfl, hlive, htype, hjoined⟩
    obtain ⟨he, hnext⟩ := (mem_hopEdges hg).mpr ⟨hlive, htype, hjoined⟩
    exact ⟨(u, e), ⟨⟨u, hu, e, he, rfl⟩, hnext⟩, rfl⟩

lemma nodup_arrivals (hg : GraphBackend.Coherent g) {frontier : List NodeId} (hnodup : frontier.Nodup) {v : NodeId}
    (hv : v ∉ frontier) : (arrivals segment (layerHops g segment frontier) v).Nodup := by
  have hone : ∀ u ∈ frontier, ((((hopEdges g segment u).map (u, ·)).filter fun h : NodeId × Edge =>
      getNextNode h.1 h.2 segment.edge.direction = v).map fun h => (h.1, h.2.id)).Nodup := by
    intro u hu
    have huv : u ≠ v := by
      rintro rfl
      exact hv hu
    rw [List.filter_map, List.map_map]
    refine List.Nodup.map_on ?_ (nodup_hopEdges_to hg huv)
    intro e he e' he' heq
    have hlive := ((mem_hopEdges hg).mp ⟨(List.mem_filter.mp he).1, rfl⟩).1
    have hlive' := ((mem_hopEdges hg).mp ⟨(List.mem_filter.mp he').1, rfl⟩).1
    rw [(Prod.mk.inj heq).2] at hlive
    exact Option.some.inj (hlive.symm.trans hlive')
  rw [arrivals, layerHops, List.filter_flatMap, List.map_flatMap]
  refine List.nodup_flatMap.mpr ⟨hone, hnodup.imp_of_mem fun {u u'} hu hu' hne => ?_⟩
  intro p hp hp'
  obtain ⟨_, hh, rfl⟩ := List.mem_map.mp hp
  obtain ⟨_, hh', heq⟩ := List.mem_map.mp hp'
  obtain ⟨e, -, rfl⟩ := List.mem_map.mp (List.mem_filter.mp hh).1
  obtain ⟨e', -, rfl⟩ := List.mem_map.mp (List.mem_filter.mp hh').1
  exact hne (Prod.mk.inj heq).1.symm

/-- The search between two layers knows the distances so far, stands on one layer, and has noted predecessors. -/
structure Layer.Correct (g : σ) (segment : PathSegment Expression) (kind : ShortestPathKind) (start : NodeId)
    (s : Layer) : Prop where
  dist : ∀ v d, s.dist.lookup v = some d ↔ d ≤ s.depth ∧ HopDist g segment start d v
  nodup : s.frontier.Nodup
  frontier : ∀ v, v ∈ s.frontier ↔ HopDist g segment start s.depth v
  preds : s.preds.Noted g segment kind start s.depth

/-- At the start. -/
lemma Layer.correct_start (g : σ) (segment : PathSegment Expression) (kind : ShortestPathKind) (start : NodeId) :
    Layer.Correct g segment kind start ⟨AList.insert start 0 ∅, ∅, [start], 0⟩ where
  dist v d := by
    rw [HashMap.lookup_insert_ite]
    constructor
    · intro h
      split at h
      · next hv =>
        obtain rfl := Option.some.inj h
        exact ⟨le_rfl, isDist_zero.mpr hv⟩
      · cases h
    · rintro ⟨hd, hdist⟩
      obtain rfl := Nat.le_zero.mp hd
      rw [if_pos (isDist_zero.mp hdist)]
  nodup := List.nodup_singleton start
  frontier v := List.mem_singleton.trans isDist_zero.symm
  preds := ⟨fun d v hd => absurd hd (Nat.not_succ_le_zero d)⟩

/-- The next layer. -/
lemma Layer.Correct.next (hg : GraphBackend.Coherent g) {s : Layer} (hs : s.Correct g segment kind start) :
    (s.next g segment kind).Correct g segment kind start := by
  obtain ⟨hdist, hnodup, hfrontier, hpreds⟩ := hs
  have hscanned : s.Scanned segment kind (layerHops g segment s.frontier) _ :=
    Layer.scanned (fun v d h => ((hdist v d).mp h).1) _
  have hunknown : ∀ v, s.dist.lookup v = none ↔ ∀ j ≤ s.depth, ¬ HopDist g segment start j v := by
    intro v
    rw [Option.eq_none_iff_forall_ne_some]
    constructor
    · exact fun h j hj hdist' => h j ((hdist v j).mpr ⟨hj, hdist'⟩)
    · exact fun h d hd => h d ((hdist v d).mp hd).1 ((hdist v d).mp hd).2
  have harrive : ∀ v, arrivals segment (layerHops g segment s.frontier) v ≠ [] ↔
      ∃ u id, HopDist g segment start s.depth u ∧ HopLinks g segment u id v := by
    intro v
    constructor
    · intro hne
      obtain ⟨⟨u, id⟩, hmem⟩ := List.exists_mem_of_ne_nil _ hne
      obtain ⟨hu, hlink⟩ := (mem_arrivals hg).mp hmem
      exact ⟨u, id, (hfrontier u).mp hu, hlink⟩
    · rintro ⟨u, id, hu, hlink⟩
      exact List.ne_nil_of_mem ((mem_arrivals hg).mpr ⟨(hfrontier u).mpr hu, hlink⟩)
  have hnew : ∀ v, s.dist.lookup v = none ∧ arrivals segment (layerHops g segment s.frontier) v ≠ [] ↔
      HopDist g segment start (s.depth + 1) v := by
    intro v
    rw [hunknown, harrive]
    exact isDist_succ.symm
  rw [Layer.next_eq]
  refine ⟨fun v d => ?_, hscanned.nodup, fun v => (hscanned.frontier v).trans (hnew v), ⟨fun d v hd hdist' => ?_⟩⟩
  · rw [hscanned.dist]
    cases hold : s.dist.lookup v with
    | some d' =>
      obtain ⟨hd', hdist'⟩ := (hdist v d').mp hold
      rw [Option.some_or, Option.some.injEq]
      constructor
      · rintro rfl
        exact ⟨Nat.le_succ_of_le hd', hdist'⟩
      · rintro ⟨-, hdist''⟩
        exact hdist'.unique hdist''
    | none =>
      rw [Option.none_or]
      have hlast : d ≤ s.depth + 1 ∧ HopDist g segment start d v → d = s.depth + 1 := by
        rintro ⟨hd, hdist'⟩
        rcases hd.lt_or_eq with hlt | heq
        · exact absurd hdist' ((hunknown v).mp hold d (Nat.le_of_lt_succ hlt))
        · exact heq
      by_cases hnone : arrivals segment (layerHops g segment s.frontier) v = []
      · rw [if_pos hnone]
        refine iff_of_false (by simp) fun h => ?_
        obtain rfl := hlast h
        exact ((hnew v).mpr h.2).2 hnone
      · rw [if_neg hnone, Option.some.injEq]
        constructor
        · rintro rfl
          exact ⟨le_rfl, (hnew v).mp ⟨hold, hnone⟩⟩
        · exact fun h => (hlast h).symm
  · show ∃ before, _ ∧ _
    rw [hscanned.preds]
    rcases (Nat.le_of_succ_le_succ hd).lt_or_eq with hlt | rfl
    · have hknown : s.dist.lookup v = some (d + 1) := (hdist v (d + 1)).mpr ⟨hlt, hdist'⟩
      rw [if_neg (by simp [hknown])]
      exact hpreds.noted d v hlt hdist'
    · have hv := (hnew v).mpr hdist'
      rw [if_pos hv]
      have hfar : v ∉ s.frontier := fun hmem =>
        (hunknown v).mp hv.1 s.depth le_rfl ((hfrontier v).mp hmem)
      have hsound : ∀ p ∈ arrivals segment (layerHops g segment s.frontier) v,
          HopDist g segment start s.depth p.1 ∧ HopLinks g segment p.1 p.2 v := by
        rintro ⟨u, id⟩ hp
        obtain ⟨hu, hlink⟩ := (mem_arrivals hg).mp hp
        exact ⟨(hfrontier u).mp hu, hlink⟩
      refine ⟨_, rfl, ?_, ?_, ?_⟩
      · cases kind with
        | single => simpa [ShortestPathKind.kept] using hv.2
        | all => exact hv.2
      · cases kind with
        | single => exact fun p hp => hsound p (List.mem_of_mem_take hp)
        | all => exact hsound
      · rintro rfl
        exact ⟨nodup_arrivals hg hnodup hfar, fun u id hu hlink =>
          (mem_arrivals hg).mpr ⟨(hfrontier u).mpr hu, hlink⟩⟩

/-! ## The whole search -/

/-- What a search from a layer on tests and notes, within bounds on the distance. -/
structure SearchedFrom (g : σ) (ev : Evaluator) (segment : PathSegment Expression) (kind : ShortestPathKind)
    (start : NodeId) (b : Bindings) (min : ℕ) (max : Option ℕ) (first : ℕ) (reached : List NodeId)
    (preds : Predecessors) (depth : ℕ) : Prop where
  noted : preds.Noted g segment kind start depth
  deep : first ≤ depth
  nodup : reached.Nodup
  sound : ∀ v ∈ reached, ∃ d, first ≤ d ∧ d ≤ depth ∧ HopDist g segment start d v ∧ min ≤ d ∧ ∀ m ∈ max, d ≤ m
  complete : ∀ d v, first ≤ d → HopDist g segment start d v → min ≤ d → (∀ m ∈ max, d ≤ m) →
    v ∈ reached ∨ endMatches g ev segment b v = .ok false

lemma searchLayers_eq (hg : GraphBackend.Coherent g) (ev : Evaluator) (b : Bindings) (min : ℕ) (max : Option ℕ)
    {boundEnd : Option NodeId} (hbound : ∀ stop ∈ boundEnd, ∀ v, v ≠ stop → endMatches g ev segment b v = .ok false)
    {fuel : ℕ} {s : Layer} (hs : s.Correct g segment kind start) (hmax : ∀ m ∈ max, s.depth ≤ m)
    (hfuel : ∀ d v, HopDist g segment start d v → d < s.depth + fuel) :
    ∃ reached preds depth, SearchedFrom g ev segment kind start b min max s.depth reached preds depth ∧
      searchLayers g ev segment kind b min max boundEnd fuel s =
        (Except.keep (endMatches g ev segment b) reached).map (·, preds) := by
  induction fuel generalizing s with
  | zero =>
    refine ⟨[], s.preds, s.depth, ⟨hs.preds, le_rfl, List.nodup_nil, by simp, fun d v hd hdist => ?_⟩, rfl⟩
    have hlt := hfuel d v hdist
    omega
  | succ fuel ih =>
    rw [searchLayers]
    by_cases hempty : s.frontier = []
    · rw [if_pos (List.isEmpty_iff.mpr hempty)]
      refine ⟨[], s.preds, s.depth, ⟨hs.preds, le_rfl, List.nodup_nil, by simp, fun d v hd hdist => ?_⟩, rfl⟩
      obtain ⟨u, hu⟩ := hdist.exists_le hd
      have hmem := (hs.frontier u).mpr hu
      rw [hempty] at hmem
      cases hmem
    rw [if_neg (mt List.isEmpty_iff.mp hempty)]
    have hhere : (if min ≤ s.depth then Except.keep (endMatches g ev segment b) s.frontier else .ok []) =
        Except.keep (endMatches g ev segment b) (if min ≤ s.depth then s.frontier else []) := by
      split <;> rfl
    have hmem : ∀ v, v ∈ (if min ≤ s.depth then s.frontier else []) ↔
        min ≤ s.depth ∧ HopDist g segment start s.depth v := by
      intro v
      by_cases hmin : min ≤ s.depth
      · simp [hmin, hs.frontier]
      · simp [hmin]
    have hnodup : (if min ≤ s.depth then s.frontier else []).Nodup := by
      split
      · exact hs.nodup
      · exact List.nodup_nil
    rw [hhere]
    generalize (if min ≤ s.depth then s.frontier else []) = here at hmem hnodup
    by_cases hexit : (boundEnd.any (fun stop => decide (stop ∈ s.dist)) ||
        max.any fun m => decide (m ≤ s.depth)) = true
    · -- the end is known, or the greatest length is reached
      refine ⟨here, s.preds, s.depth, ⟨hs.preds, le_rfl, hnodup, fun v hv => ?_, fun d v hd hdist hmin hle => ?_⟩, ?_⟩
      · obtain ⟨hmin, hdist⟩ := (hmem v).mp hv
        exact ⟨s.depth, le_rfl, le_rfl, hdist, hmin, hmax⟩
      · rcases hd.lt_or_eq with hlt | rfl
        · right
          rcases Bool.or_eq_true _ _ ▸ hexit with hstop | hlong
          · obtain ⟨stop, hstop, hknown⟩ := (Option.any_eq_true _ _).mp hstop
            obtain ⟨d', hd'⟩ := (HashMap.mem_iff_exists s.dist stop).mp (of_decide_eq_true hknown)
            obtain ⟨hle', hdist'⟩ := (hs.dist stop d').mp hd'
            refine hbound stop hstop v ?_
            rintro rfl
            have := hdist.unique hdist'
            omega
          · obtain ⟨m, hm, hle'⟩ := (Option.any_eq_true _ _).mp hlong
            have := hle m hm
            have := of_decide_eq_true hle'
            omega
        · exact .inl ((hmem v).mpr ⟨hmin, hdist⟩)
      · simp only [if_pos hexit]
        rfl
    · have hmax' : ∀ m ∈ max, s.depth + 1 ≤ m := by
        intro m hm
        by_contra hlt
        refine hexit ?_
        rw [Bool.or_eq_true]
        exact .inr ((Option.any_eq_true _ _).mpr ⟨m, hm, decide_eq_true (by omega)⟩)
      have hfuel' : ∀ d v, HopDist g segment start d v → d < s.depth + 1 + fuel := by
        intro d v hdist
        have := hfuel d v hdist
        omega
      obtain ⟨reached, preds, depth, ⟨hnoted, hdeep, hnodup', hsound, hcomplete⟩, hsearch⟩ := ih (hs.next hg) hmax' hfuel'
      have hdepth : (s.next g segment kind).depth = s.depth + 1 := rfl
      rw [hdepth] at hdeep hsound hcomplete
      have hdeep : s.depth ≤ depth := Nat.le_of_succ_le hdeep
      refine ⟨here ++ reached, preds, depth, ⟨hnoted, hdeep, ?_, fun v hv => ?_, fun d v hd hdist hmin hle => ?_⟩, ?_⟩
      · refine List.nodup_append'.mpr ⟨hnodup, hnodup', fun v hv hv' => ?_⟩
        obtain ⟨d, hd, -, hdist, -⟩ := hsound v hv'
        have heq := hdist.unique ((hmem v).mp hv).2
        omega
      · rcases List.mem_append.mp hv with hv | hv
        · obtain ⟨hmin, hdist⟩ := (hmem v).mp hv
          exact ⟨s.depth, le_rfl, hdeep, hdist, hmin, hmax⟩
        · obtain ⟨d, hd, hd', hdist, hrange⟩ := hsound v hv
          exact ⟨d, by omega, hd', hdist, hrange⟩
      · rcases hd.lt_or_eq with hlt | rfl
        · exact (hcomplete d v hlt hdist hmin hle).imp_left (List.mem_append_right _)
        · exact .inl (List.mem_append_left _ ((hmem v).mpr ⟨hmin, hdist⟩))
      · simp only [if_neg hexit, hsearch, Except.keep_append]
        cases Except.keep (endMatches g ev segment b) here with
        | error err => rfl
        | ok r => cases Except.keep (endMatches g ev segment b) reached <;> rfl

/-- A shortest walk passes no edge twice, so no node is further away than there are edges. -/
lemma dist_le_edgeIds (hg : GraphBackend.Listed g) {d : ℕ} {v : NodeId} (hdist : HopDist g segment start d v) :
    d ≤ (GraphBackend.edgeIds g).length := by
  obtain ⟨nodes, edges, hwalks, rfl⟩ := hdist.1.exists_walksTo
  have hnodup : edges.Nodup := hwalks.walk.nodup_edges
    (fun _ _ _ _ _ h h' => h.joined_unique h') (hwalks.nodup hdist).1
  refine (hnodup.subperm fun id hid => ?_).length_le
  obtain ⟨u, -, v, -, e, rfl, hlive, -⟩ := hwalks.walk.exists_link hid
  exact (hg.mem_edgeIds e.id).mpr ⟨e, hlive⟩

/-- Only the node that the variable of the end node is bound to fits. -/
lemma endMatches_bound (ev : Evaluator) (b : Bindings) :
    ∀ stop ∈ (segment.node.var.bind b.lookup).bind (·.asNode), ∀ v, v ≠ stop →
      endMatches g ev segment b v = .ok false := by
  intro stop hstop v hv
  obtain ⟨bound, hbound, hnode⟩ := Option.bind_eq_some_iff.mp hstop
  unfold endMatches nodeMatchesPattern
  rw [if_pos]
  rw [hbound, Option.any_some, hnode]
  simpa using hv.symm

/-- A shortest walk from the start leads to the node, and its length is within the bounds of the hop. -/
def InReach (g : σ) (segment : PathSegment Expression) (start v : NodeId) : Prop :=
  ∃ path : FoundPath, path.Shortest g segment start ∧ path.stop = v ∧
    (shortestBounds segment).1 ≤ path.edges.length ∧ ∀ m ∈ (shortestBounds segment).2, path.edges.length ≤ m

lemma inReach_iff {v : NodeId} : InReach g segment start v ↔
    ∃ d, HopDist g segment start d v ∧ (shortestBounds segment).1 ≤ d ∧ ∀ m ∈ (shortestBounds segment).2, d ≤ m := by
  constructor
  · rintro ⟨path, hpath, rfl, hrange⟩
    exact ⟨path.edges.length, (FoundPath.shortest_iff.mp hpath).2, hrange⟩
  · rintro ⟨d, hdist, hrange⟩
    obtain ⟨nodes, edges, hwalks, rfl⟩ := hdist.1.exists_walksTo
    exact ⟨⟨v, nodes, edges⟩, FoundPath.shortest_iff.mpr ⟨hwalks, hdist⟩, rfl, hrange⟩

/-- The rows that a row should make: of the nodes in reach that fit, with the shortest paths to them. -/
structure RowsOf (g : σ) (ev : Evaluator) (segment : PathSegment Expression) (prev : NodePattern Expression)
    (kind : ShortestPathKind) (b : Bindings) (start : NodeId) (targets : List NodeId)
    (paths : NodeId → List FoundPath) : Prop where
  nodup : targets.Nodup
  mem_targets : ∀ v, v ∈ targets ↔ InReach g segment start v ∧ endMatches g ev segment b v = .ok true
  pathsTo : ∀ v ∈ targets, PathsTo g segment kind start v (paths v)
  rows : ∀ rows,
    matchShortest g ev segment prev kind (shortestBounds segment).1 (shortestBounds segment).2 b = .ok rows ↔
      (∀ v, InReach g segment start v → ∃ ok, endMatches g ev segment b v = .ok ok) ∧
        rows = targets.flatMap fun v => (paths v).map (bindFound segment b)

lemma exists_rowsOf (hg : GraphBackend.Listed g) (ev : Evaluator) {prev : NodePattern Expression}
    {b : Bindings} (hstart : hopStart prev b = .ok start) :
    ∃ (targets : List NodeId) (paths : NodeId → List FoundPath),
      RowsOf g ev segment prev kind b start targets paths := by
  have hfuel : ∀ d v, HopDist g segment start d v → d < 0 + ((GraphBackend.edgeIds g).length + 1) := by
    intro d v hdist
    have hle := dist_le_edgeIds hg hdist
    omega
  obtain ⟨reached, preds, depth, ⟨hnoted, -, hnodup, hsound, hcomplete⟩, hsearch⟩ := searchLayers_eq hg.toCoherent
    ev b (shortestBounds segment).1 (shortestBounds segment).2 (endMatches_bound ev b)
    (Layer.correct_start g segment kind start) (fun _ _ => Nat.zero_le _) hfuel
  have hreach : ∀ v ∈ reached, InReach g segment start v := by
    intro v hv
    obtain ⟨d, -, -, hdist, hrange⟩ := hsound v hv
    exact inReach_iff.mpr ⟨d, hdist, hrange⟩
  have htested : ∀ v, InReach g segment start v → v ∈ reached ∨ endMatches g ev segment b v = .ok false := by
    intro v hv
    obtain ⟨d, hdist, hmin, hmax⟩ := inReach_iff.mp hv
    exact hcomplete d v (Nat.zero_le d) hdist hmin hmax
  refine ⟨reached.filter fun v => passes (endMatches g ev segment b v),
    fun v => shortestPathsTo preds start v kind, hnodup.filter _, fun v => ?_, fun v hv => ?_, fun rows => ?_⟩
  · rw [List.mem_filter, passes_iff]
    constructor
    · exact fun h => ⟨hreach v h.1, h.2⟩
    · rintro ⟨hv, hpass⟩
      refine ⟨(htested v hv).resolve_right ?_, hpass⟩
      rw [hpass]
      simp
  · obtain ⟨d, -, hd, hdist, -⟩ := hsound v (List.mem_filter.mp hv).1
    exact pathsTo_shortestPathsTo hnoted hd hdist
  · have hmatch : matchShortest g ev segment prev kind (shortestBounds segment).1 (shortestBounds segment).2 b =
        (Except.keep (endMatches g ev segment b) reached).map fun targets =>
          targets.flatMap fun v => (shortestPathsTo preds start v kind).map (bindFound segment b) := by
      rw [matchShortest, hstart]
      show (searchLayers g ev segment kind b _ _ _ _ _).map _ = _
      rw [hsearch]
      cases Except.keep (endMatches g ev segment b) reached <;> rfl
    rw [hmatch, Except.map_eq_ok]
    simp only [Except.keep_eq_ok]
    constructor
    · rintro ⟨_, ⟨test, htest, rfl⟩, rfl⟩
      have hfilter : reached.filter test = reached.filter fun v => passes (endMatches g ev segment b v) :=
        List.filter_congr fun v hv => by simp [htest v hv, passes]
      refine ⟨fun v hv => ?_, by rw [hfilter]⟩
      rcases htested v hv with hmem | hfalse
      · exact ⟨_, htest v hmem⟩
      · exact ⟨_, hfalse⟩
    · rintro ⟨hok, rfl⟩
      refine ⟨_, ⟨fun v => passes (endMatches g ev segment b v), fun v hv => ?_, rfl⟩, rfl⟩
      obtain ⟨ok, hok⟩ := hok v (hreach v hv)
      simp only [hok, passes]

/-! ## Shortest-path hops are exact -/

/-- A shortest-path hop makes rows of the shortest paths to the nodes that fit, are in reach, and lie within the bounds
of the hop: of one path to each node, or of all of them, each once. -/
def EnumeratesShortestPaths (g : σ) (ev : Evaluator) (segment : PathSegment Expression) (prev : NodePattern Expression)
    (kind : ShortestPathKind) (bs : List Bindings) (start : Bindings → NodeId) : Prop :=
  ∃ (targets : Bindings → List NodeId) (paths : Bindings → NodeId → List FoundPath),
    (∀ b ∈ bs, (targets b).Nodup ∧ ∀ v, v ∈ targets b ↔
      InReach g segment (start b) v ∧ endMatches g ev segment b v = .ok true) ∧
    (∀ b ∈ bs, ∀ v ∈ targets b, PathsTo g segment kind (start b) v (paths b v)) ∧
    (∀ rows, matchShortestSegment g ev segment prev kind bs = .ok rows ↔
      (∀ b ∈ bs, ∀ v, InReach g segment (start b) v → ∃ ok, endMatches g ev segment b v = .ok ok) ∧
        rows = bs.flatMap fun b => (targets b).flatMap fun v => (paths b v).map (bindFound segment b)) ∧
    ∀ b path name, (bindFound segment b path).lookup name =
      if segment.edge.var = some name then some (.path path.nodes path.edges)
      else if segment.node.var = some name then some (.node path.stop)
      else b.lookup name

/-- Shortest-path hops enumerate the shortest paths. -/
theorem shortest_enumerates (g : σ) (hg : GraphBackend.Listed g) (ev : Evaluator) (segment : PathSegment Expression)
    (prev : NodePattern Expression) (kind : ShortestPathKind) (bs : List Bindings) (start : Bindings → NodeId)
    (hmin : (shortestBounds segment).1 ≤ 1) (hprev : prev.var.isSome)
    (hstart : ∀ b ∈ bs, hopStart prev b = .ok (start b)) :
    EnumeratesShortestPaths g ev segment prev kind bs start := by
  have hrow : ∀ b, ∃ (targets : List NodeId) (paths : NodeId → List FoundPath),
      b ∈ bs → RowsOf g ev segment prev kind b (start b) targets paths := by
    intro b
    by_cases hb : b ∈ bs
    · obtain ⟨targets, paths, h⟩ := @exists_rowsOf σ _ g segment kind (start b) hg ev prev b (hstart b hb)
      exact ⟨targets, paths, fun _ => h⟩
    · exact ⟨[], fun _ => [], fun h => absurd h hb⟩
  choose targets paths hrow using hrow
  refine ⟨targets, paths, fun b hb => ⟨(hrow b hb).nodup, (hrow b hb).mem_targets⟩,
    fun b hb => (hrow b hb).pathsTo, fun rows => ?_, lookup_bindFound⟩
  have hsegment : matchShortestSegment g ev segment prev kind bs = Except.collect
      (matchShortest g ev segment prev kind (shortestBounds segment).1 (shortestBounds segment).2) bs := by
    have hbound : ¬ prev.var.isNone = true := by
      rw [Option.isNone_iff_eq_none]
      exact Option.isSome_iff_ne_none.mp hprev
    rw [matchShortestSegment, if_neg (Nat.not_lt.mpr hmin), if_neg hbound]
  rw [hsegment, Except.collect_eq_ok]
  constructor
  · rintro ⟨found, hfound, rfl⟩
    have hok := fun b hb => ((hrow b hb).rows _).mp (hfound b hb)
    exact ⟨fun b hb => (hok b hb).1, List.flatMap_congr fun b hb => (hok b hb).2⟩
  · rintro ⟨hok, rfl⟩
    exact ⟨_, fun b hb => ((hrow b hb).rows _).mpr ⟨hok b hb, rfl⟩, rfl⟩

/-- The shortest paths from a node of a cycle over relationships of any direction. -/
theorem shortest_enumerates_roundTrip :
    EnumeratesShortestPaths roundTrip (fun _ _ => .ok .null) (hopPattern .both (some ⟨1, none⟩)) startPattern .all
      [(∅ : Bindings).insert "a" (.node 0)] fun _ => 0 :=
  shortest_enumerates roundTrip roundTrip_consistent.listed _ _ startPattern .all _ _ (by decide) rfl (by
    intro b hb
    obtain rfl := List.mem_singleton.mp hb
    rfl)

end Maharit
