import MaharitDb.Query.Matching

/-!
# Searching for longer paths

The hops that are not a single relationship: `match_variable_length_segment`, which follows all
simple paths depth first, and `match_shortest_segment`, which goes breadth first from the start node
and reads the shortest paths off the predecessors it has noted (`maharit-query/src/executor.rs`).
The pattern of the end node decides which of the nodes reached are taken; where the search goes does
not depend on it.
-/

namespace Maharit

/-- A path from the start node of a hop. -/
structure FoundPath where
  stop : NodeId
  nodes : List NodeId
  edges : List EdgeId
  deriving DecidableEq, Repr

variable {σ : Type} [GraphBackend σ]

/-- A graph without managers, which is all that matching a node looks at. -/
def Executor.bare (g : σ) : Executor σ where
  graph := g
  constraints := .new
  fulltext := .new
  propertyIndex := .new
  rangeHints := []
  params := ∅

variable (g : σ) (ev : Evaluator) (segment : PathSegment Expression)

/-- The edges from a node that have the direction and the type of the hop. -/
def hopEdges (id : NodeId) : List Edge :=
  (getEdgesByDirection g id segment.edge.direction).filter fun e =>
    segment.edge.edgeType.all fun t => e.label == t

/-- The end node of the hop fits its pattern. -/
def endMatches (b : Bindings) (id : NodeId) : Except ExecuteError Bool :=
  nodeMatchesPattern (.bare g) ev id segment.node b

/-- The row that a path makes of a row. -/
def bindFound (b : Bindings) (path : FoundPath) : Bindings :=
  bindVar (bindVar b segment.node.var (.node path.stop)) segment.edge.var (.path path.nodes path.edges)

/-- The node that a hop starts from. -/
def hopStart (prev : NodePattern Expression) (b : Bindings) : Except ExecuteError NodeId :=
  match prev.var with
  | none => .error (.typeError "path pattern requires variable")
  | some prevVar =>
      match (b.lookup prevVar).bind (·.asNode) with
      | some id => .ok id
      | none => .error (.undefinedVariable prevVar)

/-! ## Variable length -/

/-- The path goes on along an edge, unless it has been at the next node already. -/
def FoundPath.extend (path : FoundPath) (e : Edge) : Option FoundPath :=
  let next := getNextNode path.stop e segment.edge.direction
  if next ∈ path.nodes then none else some ⟨next, path.nodes ++ [next], path.edges ++ [e.id]⟩

/-- The paths that go on from a path by one edge. -/
def FoundPath.children (path : FoundPath) : List FoundPath :=
  (hopEdges g segment path.stop).filterMap (path.extend segment)

/-- The path is taken when it is long enough and its end node fits. -/
def tryPath (b : Bindings) (min depth : ℕ) (path : FoundPath) : Except ExecuteError (List FoundPath) :=
  if min ≤ depth then (endMatches g ev segment b path.stop).map fun ok => if ok then [path] else []
  else .ok []

/-- The search from a path on, `left` hops before the maximal depth.  The paths that go on from it
are pushed on a stack, so the last of them comes first. -/
def explore (b : Bindings) (min : ℕ) : (left depth : ℕ) → FoundPath →
    Except ExecuteError (List FoundPath)
  | 0, depth, path => tryPath g ev segment b min depth path
  | left + 1, depth, path =>
      (tryPath g ev segment b min depth path).bind fun here =>
        (Except.collect (explore b min left (depth + 1)) (path.children g segment).reverse).map
          (here ++ ·)

/-- The maximal depth when none is given. -/
def defaultMaxDepth : ℕ := 10

/-- The rows of a variable-length hop from one row. -/
def matchVariableLength (prev : NodePattern Expression) (range : LengthRange) (b : Bindings) :
    Except ExecuteError (List Bindings) :=
  (hopStart prev b).bind fun start =>
    (explore g ev segment b range.min.toNat ((range.max.map UInt32.toNat).getD defaultMaxDepth) 0
      ⟨start, [start], []⟩).map (List.map (bindFound segment b))

/-- `match_variable_length_segment`. -/
def matchVariableLengthSegment (prev : NodePattern Expression) (range : LengthRange)
    (bs : List Bindings) : Except ExecuteError (List Bindings) :=
  Except.collect (matchVariableLength g ev segment prev range) bs

/-! ## Shortest paths -/

/-- The predecessors of a node on shortest paths, each with the edge taken. -/
abbrev Predecessors := HashMap NodeId (List (NodeId × EdgeId))

/-- The search between two layers. -/
structure Layer where
  /-- The number of hops from the start node. -/
  dist : HashMap NodeId ℕ
  preds : Predecessors
  frontier : List NodeId
  depth : ℕ

/-- The search over an edge from a node of the frontier; `frontier` collects the next layer. -/
def Layer.over (kind : ShortestPathKind) (id : NodeId) (s : Layer) (e : Edge) : Layer :=
  let next := getNextNode id e segment.edge.direction
  match s.dist.lookup next with
  | none =>
      { s with
        dist := s.dist.insert next (s.depth + 1)
        preds := s.preds.insert next [(id, e.id)]
        frontier := s.frontier ++ [next] }
  | some d =>
      if d = s.depth + 1 ∧ kind = .all then
        { s with preds := HashMap.modifyDefault s.preds next (· ++ [(id, e.id)]) }
      else s

/-- The next layer. -/
def Layer.next (kind : ShortestPathKind) (s : Layer) : Layer :=
  let expanded := s.frontier.foldl (fun s' id => (hopEdges g segment id).foldl
    (Layer.over segment kind id) s') { s with frontier := [] }
  { expanded with depth := s.depth + 1 }

/-- The search from a layer on: the end nodes in the order in which they are reached, and the
predecessors at the end.  Every layer but the first is reached by an edge of its own, so there are no
more layers than edges, and one. -/
def searchLayers (kind : ShortestPathKind) (b : Bindings) (min : ℕ) (max : Option ℕ)
    (boundEnd : Option NodeId) : ℕ → Layer → Except ExecuteError (List NodeId × Predecessors)
  | 0, s => .ok ([], s.preds)
  | fuel + 1, s =>
      if s.frontier.isEmpty then .ok ([], s.preds)
      else
        (if min ≤ s.depth then Except.keep (endMatches g ev segment b) s.frontier else .ok []).bind
          fun here =>
          if boundEnd.any (fun stop => decide (stop ∈ s.dist)) || max.any (fun m => decide (m ≤ s.depth))
            then .ok (here, s.preds)
          else
            (searchLayers kind b min max boundEnd fuel (s.next g segment kind)).map fun r =>
              (here ++ r.1, r.2)

/-- The paths from `start` that end with the given nodes and edges, found backwards; no shortest path
is longer than the number of nodes that have predecessors. -/
def backwards (preds : Predecessors) (start : NodeId) : ℕ → List NodeId → List EdgeId →
    List (List NodeId × List EdgeId)
  | _, [], _ => []
  | 0, head :: nodes, edges => if head = start then [(head :: nodes, edges)] else []
  | fuel + 1, head :: nodes, edges =>
      if head = start then [(head :: nodes, edges)]
      else
        let before : List (NodeId × EdgeId) := (preds.lookup head).getD []
        -- The partial paths are kept on a stack, so the last one comes first.
        before.reverse.flatMap fun p =>
          backwards preds start fuel (p.1 :: head :: nodes) (p.2 :: edges)

/-- `shortest_paths_to`. -/
def shortestPathsTo (preds : Predecessors) (start stop : NodeId) (kind : ShortestPathKind) :
    List FoundPath :=
  let paths := (backwards preds start preds.keys.length [stop] []).map fun p =>
    (⟨stop, p.1, p.2⟩ : FoundPath)
  match kind with
  | .single => paths.take 1
  | .all => paths

/-- The rows of a shortest-path hop from one row. -/
def matchShortest (prev : NodePattern Expression) (kind : ShortestPathKind) (min : ℕ) (max : Option ℕ)
    (b : Bindings) : Except ExecuteError (List Bindings) :=
  (hopStart prev b).bind fun start =>
    (searchLayers g ev segment kind b min max
      ((segment.node.var.bind b.lookup).bind (·.asNode)) ((GraphBackend.edgeIds g).length + 1)
      ⟨AList.insert start 0 ∅, ∅, [start], 0⟩).map fun found =>
        found.1.flatMap fun stop =>
          (shortestPathsTo found.2 start stop kind).map (bindFound segment b)

/-- The least and the greatest length of a shortest-path hop. -/
def shortestBounds : ℕ × Option ℕ :=
  match segment.edge.lengthRange with
  | some range => (range.min.toNat, range.max.map UInt32.toNat)
  | none => (1, some 1)

/-- `match_shortest_segment`. -/
def matchShortestSegment (prev : NodePattern Expression) (kind : ShortestPathKind)
    (bs : List Bindings) : Except ExecuteError (List Bindings) :=
  if 1 < (shortestBounds segment).1 then
    .error (.typeError "shortestPath() supports only a minimum length of 0 or 1")
  else if prev.var.isNone then .error (.typeError "path pattern requires variable")
  else
    Except.collect
      (matchShortest g ev segment prev kind (shortestBounds segment).1 (shortestBounds segment).2) bs

/-- The searches of the executor. -/
def PathSearch.standard : PathSearch σ where
  variableLength g ev segment prev range bs := matchVariableLengthSegment g ev segment prev range bs
  shortest g ev segment prev kind bs := matchShortestSegment g ev segment prev kind bs

end Maharit
