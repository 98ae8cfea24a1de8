import MaharitDb.Lib.ExceptList
import MaharitDb.Query.Evaluate

/-!
# Matching patterns

How the patterns of a `MATCH` clause extend the rows found so far
(`match_pattern` of `maharit-query/src/executor.rs`).  Expressions are evaluated by a function `ev`.
What a variable-length or a shortest-path hop finds is the parameter `PathSearch`.
-/

namespace Maharit

/-- An evaluator of expressions on the bindings of a row. -/
abbrev Evaluator := Bindings → Expression → Except ExecuteError Value

/-- The hops that are not a single relationship. -/
structure PathSearch (σ : Type) where
  variableLength : σ → Evaluator → PathSegment Expression → NodePattern Expression →
    LengthRange → List Bindings → Except ExecuteError (List Bindings)
  shortest : σ → Evaluator → PathSegment Expression → NodePattern Expression →
    ShortestPathKind → List Bindings → Except ExecuteError (List Bindings)

variable {σ : Type} [GraphBackend σ] (S : PathSearch σ) (x : Executor σ) (ev : Evaluator)

/-! ## Nodes -/

/-- `property_value_matches`. -/
def propertyValueMatches : PropertyValue → Value → Bool
  | .null, .null => true
  | .bool a, .bool e => a == e
  | .int a, .int e => a == e
  | .float a, .float e => a.closeTo e
  | .int a, .float e => (F64.ofInt64 a).closeTo e
  | .float a, .int e => a.closeTo (F64.ofInt64 e)
  | .string a, .string e => a == e
  | _, _ => false

/-- One inline property of a node pattern. -/
def nodeHasProperty (id : NodeId) (b : Bindings) (property : String × Expression) :
    Except ExecuteError Bool :=
  match GraphBackend.getNodeProperty x.graph id property.1 with
  | some actual => (ev b property.2).map (propertyValueMatches actual)
  | none => .ok false

/-- `node_matches_pattern`. -/
def nodeMatchesPattern (id : NodeId) (p : NodePattern Expression) (b : Bindings) :
    Except ExecuteError Bool :=
  -- A variable bound earlier only matches that same node.
  if (p.var.bind b.lookup).any fun bound => bound.asNode ≠ some id then .ok false
  else if p.labels ≠ [] ∧ !GraphBackend.nodeHasAllLabels x.graph id p.labels then .ok false
  else if p.labels = [] ∧ p.properties.isEmpty ∧ !GraphBackend.containsNode x.graph id then .ok false
  else Except.allM (nodeHasProperty x ev id b) p.properties

/-- `range_index_candidates`: the first hint on the variable with an index of the first label. -/
def rangeIndexCandidates (p : NodePattern Expression) : Option (List NodeId) :=
  match p.var, p.labels.head? with
  | some var, some label =>
      x.rangeHints.findSome? fun hint =>
        if hint.var ≠ var ∨ !x.propertyIndex.hasIndex label hint.property then none
        else
          let f? : Option F64 := match hint.value with
            | .int n => some (F64.ofInt64 n)
            | .float f => some f
            | _ => none
          f?.bind fun f =>
            match hint.op with
            | .gt | .gte =>
                some (x.propertyIndex.findByIntRange hint.property f.floorInt64 Int64.maxValue ++
                  x.propertyIndex.findByFloatRange hint.property f F64.max).dedup
            | .lt | .lte =>
                some (x.propertyIndex.findByIntRange hint.property Int64.minValue f.ceilInt64 ++
                  x.propertyIndex.findByFloatRange hint.property F64.min f).dedup
            | _ => none
  | _, _ => none

/-- The nodes looked at when no equality is looked up. -/
def scanCandidates (p : NodePattern Expression) : List NodeId :=
  (rangeIndexCandidates x p).getD <|
    match p.labels.head? with
    | some label => GraphBackend.nodesByLabel x.graph label
    | none => GraphBackend.nodeIds x.graph

/-- The nodes an index lists for the first indexed literal property. -/
def indexLookup (p : NodePattern Expression) : Option (List NodeId) :=
  match p.labels.head? with
  | none => none
  | some label =>
      p.properties.findSome? fun property =>
        match property.2 with
        | .literal lit =>
            if x.propertyIndex.hasIndex label property.1 then
              some (x.propertyIndex.findByProperty property.1 (.ofLiteral lit))
            else none
        | _ => none

/-- The nodes tried for a pattern whose variable is not bound. -/
def nodeCandidates (p : NodePattern Expression) : List NodeId :=
  (indexLookup x p).getD (scanCandidates x p)

/-- Bind the variable of a pattern, if it has one. -/
def bindVar (b : Bindings) (var : Option String) (value : BindingValue) : Bindings :=
  match var with
  | some var => b.insert var value
  | none => b

/-- The rows that a node pattern makes of one row. -/
def matchNode (p : NodePattern Expression) (b : Bindings) : Except ExecuteError (List Bindings) :=
  match p.var.bind b.lookup with
  | some bound =>
      match bound.asNode with
      | some id => (nodeMatchesPattern x ev id p b).map fun ok => if ok then [b] else []
      | none => .ok []
  | none =>
      (Except.keep (fun id => nodeMatchesPattern x ev id p b) (nodeCandidates x p)).map fun ids =>
        ids.map fun id => bindVar b p.var (.node id)

/-- `match_node_pattern`. -/
def matchNodePattern (p : NodePattern Expression) (bs : List Bindings) :
    Except ExecuteError (List Bindings) :=
  Except.collect (matchNode x ev p) bs

/-! ## Paths -/

/-- `get_edges_by_direction`. -/
def getEdgesByDirection (g : σ) (id : NodeId) : EdgeDirection → List Edge
  | .outgoing => GraphBackend.outgoingEdges g id
  | .incoming => GraphBackend.incomingEdges g id
  | .both => GraphBackend.outgoingEdges g id ++ GraphBackend.incomingEdges g id

/-- `get_next_node`. -/
def getNextNode (current : NodeId) (e : Edge) : EdgeDirection → NodeId
  | .outgoing => e.toNode
  | .incoming => e.fromNode
  | .both => if e.fromNode = current then e.toNode else e.fromNode

/-- The relationship has the type of the pattern, and is the one its variable is bound to. -/
def edgeMatches (p : EdgePattern Expression) (b : Bindings) (e : Edge) : Bool :=
  (p.edgeType.all fun t => e.label == t) &&
    (p.var.bind b.lookup).all fun bound =>
      match bound with
      | .edge id => id == e.id
      | _ => false

/-- The row that a hop over an edge makes of a row, if the next node fits. -/
def matchHop (segment : PathSegment Expression) (b : Bindings) (prev : NodeId) (e : Edge) :
    Except ExecuteError (List Bindings) :=
  if edgeMatches segment.edge b e then
    let next := getNextNode prev e segment.edge.direction
    (nodeMatchesPattern x ev next segment.node b).map fun ok =>
      if ok then
        [bindVar (bindVar b segment.node.var (.node next)) segment.edge.var (.edge e.id)]
      else []
  else .ok []

/-- `match_single_hop`. -/
def matchSingleHop (segment : PathSegment Expression) (prev : NodePattern Expression)
    (b : Bindings) : Except ExecuteError (List Bindings) :=
  match prev.var with
  | none => .error (.typeError "path pattern requires variable")
  | some prevVar =>
      match (b.lookup prevVar).bind (·.asNode) with
      | none => .error (.undefinedVariable prevVar)
      | some prevId =>
          Except.collect (matchHop x ev segment b prevId)
            (getEdgesByDirection x.graph prevId segment.edge.direction)

/-- `match_segment`. -/
def matchSegment (segment : PathSegment Expression) (prev : NodePattern Expression)
    (bs : List Bindings) : Except ExecuteError (List Bindings) :=
  match segment.edge.lengthRange with
  | some range => S.variableLength x.graph ev segment prev range bs
  | none => Except.collect (matchSingleHop x ev segment prev) bs

/-- The hops of a path, one after the other. -/
def matchSegments (shortest : Option ShortestPathKind) :
    List (PathSegment Expression) → NodePattern Expression → List Bindings →
      Except ExecuteError (List Bindings)
  | [], _, bs => .ok bs
  | segment :: segments, prev, bs =>
      (match shortest with
        | some kind => S.shortest x.graph ev segment prev kind bs
        | none => matchSegment S x ev segment prev bs).bind
        (matchSegments shortest segments segment.node)

/-- The prefix of hidden variables given to anonymous elements of a path. -/
def anonVarPrefix : String := "\x00anon"

/-- A hidden variable. -/
def anonVar (n : ℕ) : String := anonVarPrefix ++ toString n

/-- The variable of an element; an anonymous one gets the next hidden variable. -/
def nameVar (n : ℕ) : Option String → ℕ × Option String
  | some var => (n, some var)
  | none => (n + 1, some (anonVar (n + 1)))

/-- Name the elements of a hop, counting from `n`: first the node, then the relationship. -/
def nameSegment (bindEdges : Bool) (n : ℕ) (segment : PathSegment Expression) :
    ℕ × PathSegment Expression :=
  let node := nameVar n segment.node.var
  let edge := if bindEdges then nameVar node.1 segment.edge.var else (node.1, segment.edge.var)
  (edge.1,
    { edge := { segment.edge with var := edge.2 }, node := { segment.node with var := node.2 } })

/-- Name the elements of the hops, counting from `n`. -/
def nameSegments (bindEdges : Bool) : ℕ → List (PathSegment Expression) →
    List (PathSegment Expression)
  | _, [] => []
  | n, segment :: segments =>
      (nameSegment bindEdges n segment).2 ::
        nameSegments bindEdges (nameSegment bindEdges n segment).1 segments

/-- Give the anonymous elements of a path hidden variables.  The relationships need one only when
the path has a variable. -/
def nameAnonymous (p : PathPattern Expression) : PathPattern Expression :=
  let start := nameVar 0 p.start.var
  { p with
    start := { p.start with var := start.2 }
    segments := nameSegments p.var.isSome start.1 p.segments }

/-- Whether an element of the path needs a hidden variable. -/
def hasAnonymous (p : PathPattern Expression) : Bool :=
  p.start.var.isNone || p.segments.any (·.node.var.isNone) ||
    (p.var.isSome && p.segments.any (·.edge.var.isNone))

/-- The node a variable is bound to, for `assemble_path`. -/
def pathNode (b : Bindings) (var : Option String) : Except ExecuteError NodeId :=
  match ((var.bind b.lookup).bind (·.asNode)) with
  | some id => .ok id
  | none => .error (.typeError "path node is not bound")

/-- The nodes and edges of the hops of a matched path. -/
def assembleSegments (b : Bindings) : List (PathSegment Expression) →
    Except ExecuteError (List NodeId × List EdgeId)
  | [] => .ok ([], [])
  | segment :: segments =>
      match segment.edge.var.bind b.lookup with
      | some (.edge id) =>
          (pathNode b segment.node.var).bind fun n =>
            (assembleSegments b segments).map fun rest => (n :: rest.1, id :: rest.2)
      | some (.path hopNodes hopEdges) =>
          (assembleSegments b segments).map fun rest =>
            (hopNodes.drop 1 ++ rest.1, hopEdges ++ rest.2)
      | _ => .error (.typeError "path relationship is not bound")

/-- `assemble_path`: the value of the path variable. -/
def assemblePath (p : PathPattern Expression) (b : Bindings) : Except ExecuteError BindingValue :=
  (pathNode b p.start.var).bind fun start =>
    (assembleSegments b p.segments).map fun rest => .path (start :: rest.1) rest.2

/-- Bind the path variable. -/
def bindPath (p : PathPattern Expression) (b : Bindings) : Except ExecuteError (List Bindings) :=
  match p.var with
  | none => .ok [b]
  | some var => (assemblePath p b).map fun path => [b.insert var path]

/-- Drop the hidden variables of a row. -/
def dropHidden (b : Bindings) : Bindings :=
  HashMap.retainKeys b fun name => !anonVarPrefix.isPrefixOf name

/-- `match_path_pattern`. -/
def matchPathPattern (p : PathPattern Expression) (bs : List Bindings) :
    Except ExecuteError (List Bindings) :=
  let named := if hasAnonymous p then nameAnonymous p else p
  (matchNodePattern x ev named.start bs).bind fun bs =>
    (matchSegments S x ev named.shortest named.segments named.start bs).bind fun bs =>
      (Except.collect (bindPath named) bs).map fun bs =>
        if hasAnonymous p then bs.map dropHidden else bs

/-! ## Clauses -/

/-- `match_pattern`. -/
def matchPattern (p : Pattern Expression) (bs : List Bindings) :
    Except ExecuteError (List Bindings) :=
  match p with
  | .node p => matchNodePattern x ev p bs
  | .path p => matchPathPattern S x ev p bs

/-- One pattern after the other. -/
def matchPatterns : List (Pattern Expression) → List Bindings → Except ExecuteError (List Bindings)
  | [], bs => .ok bs
  | p :: ps, bs => (matchPattern S x ev p bs).bind (matchPatterns ps)

/-- `match_patterns_for_binding`: it ends when no row is left. -/
def matchPatternsForBinding : List (Pattern Expression) → List Bindings →
    Except ExecuteError (List Bindings)
  | [], bs => .ok bs
  | p :: ps, bs =>
      if bs.isEmpty then .ok bs else (matchPattern S x ev p bs).bind (matchPatternsForBinding ps)

/-- `execute_match_clause`. -/
def executeMatchClause (clause : MatchClause) (bs : List Bindings) :
    Except ExecuteError (List Bindings) :=
  Except.collect (fun b =>
    if clause.optional then
      (matchPatterns S x ev clause.patterns [b]).map fun rows => if rows.isEmpty then [b] else rows
    else matchPatternsForBinding S x ev clause.patterns [b]) bs

end Maharit
