import MaharitDb.Lib.LayeredSearch
import MaharitDb.Core.BackendLaws
import MaharitDb.Query.Matching

/-!
# What a path pattern means

The declarative meaning of a path pattern whose hops are single relationships: an assignment gives a
node to each node position and a relationship to each relationship position, and it matches when
every element fits its place.  Nothing here says how the assignments are found.

Inline properties are expressions.  They are evaluated on the variables to the left of the element,
in the scope the executor has at that point, where anonymous elements carry hidden names.
-/

namespace Maharit

open LayeredSearch

/-- A hop of an assignment: the relationship taken and the node it leads to. -/
structure Hop where
  edge : Edge
  node : NodeId

/-- Elements for the positions of a path. -/
structure Assignment where
  start : NodeId
  hops : List Hop

/-- A variable is visible when a query can spell it. -/
def IsVisible (name : String) : Prop := anonVarPrefix.isPrefixOf name = false

/-- All variables of the row are visible. -/
def Bindings.Spelled (b : Bindings) : Prop := ∀ name ∈ b, IsVisible name

/-- All variables of the path are visible. -/
structure PathPattern.Spelled (p : PathPattern Expression) : Prop where
  start : ∀ v ∈ p.start.var, IsVisible v
  nodes : ∀ segment ∈ p.segments, ∀ v ∈ segment.node.var, IsVisible v
  edges : ∀ segment ∈ p.segments, ∀ v ∈ segment.edge.var, IsVisible v
  path : ∀ v ∈ p.var, IsVisible v

/-- A path without variable-length or shortest-path parts. -/
structure PathPattern.SingleHops (p : PathPattern Expression) : Prop where
  shortest : p.shortest = none
  lengthRange : ∀ segment ∈ p.segments, segment.edge.lengthRange = none

/-! ## Elements and their places -/

/-- The edge joins the two nodes in the direction of the pattern. -/
def Joined : EdgeDirection → NodeId → Edge → NodeId → Prop
  | .outgoing, n, e, m => e.fromNode = n ∧ e.toNode = m
  | .incoming, n, e, m => e.toNode = n ∧ e.fromNode = m
  | .both, n, e, m => e.fromNode = n ∧ e.toNode = m ∨ e.toNode = n ∧ e.fromNode = m

/-- A variable that is bound already denotes this element. -/
def Denotes (b : Bindings) (var : Option String) (value : BindingValue) : Prop :=
  ∀ bound ∈ var.bind b.lookup, bound = value

section Meaning

variable {σ : Type} [GraphBackend σ] (x : Executor σ) (ev : Evaluator)

/-- The element has the inline properties: the values are equal in the sense of `=`. -/
def HasProperties (scope : Bindings) (get : String → Option PropertyValue)
    (properties : List (String × Expression)) : Prop :=
  ∀ property ∈ properties, ∃ actual expected, get property.1 = some actual ∧
    ev scope property.2 = .ok expected ∧ valuesEqual (.ofProperty actual) expected = true

/-- The node fits the pattern. -/
structure NodeFits (scope : Bindings) (p : NodePattern Expression) (id : NodeId) : Prop where
  denotes : Denotes scope p.var (.node id)
  element : ∃ n, GraphBackend.getNode x.graph id = some n ∧ (∀ l ∈ p.labels, l ∈ n.labels) ∧
    HasProperties ev scope n.getProperty p.properties

/-- The edge fits the pattern, apart from the inline properties. -/
structure EdgeFits (scope : Bindings) (p : EdgePattern Expression) (e : Edge) : Prop where
  live : GraphBackend.getEdge x.graph e.id = some e
  edgeType : ∀ t ∈ p.edgeType, e.label = t
  denotes : Denotes scope p.var (.edge e.id)

/-! ## Hops -/

/-- How far along a path: the scope, the last node with its variable, and the number of hidden
variables used. -/
structure Reached where
  scope : Bindings
  node : NodeId
  var : Option String
  count : ℕ

/-- Bind the variables of a hop. -/
def bindHop (scope : Bindings) (segment : PathSegment Expression) (h : Hop) : Bindings :=
  bindVar (bindVar scope segment.node.var (.node h.node)) segment.edge.var (.edge h.edge.id)

/-- One hop further. -/
def Reached.next (bindEdges : Bool) (segment : PathSegment Expression) (s : Reached) (h : Hop) :
    Reached where
  scope := bindHop s.scope (nameSegment bindEdges s.count segment).2 h
  node := h.node
  var := (nameSegment bindEdges s.count segment).2.node.var
  count := (nameSegment bindEdges s.count segment).1

/-- The hop fits its place, apart from the inline properties of the relationship. -/
structure HopFits (segment : PathSegment Expression) (s : Reached) (h : Hop) : Prop where
  edge : EdgeFits x s.scope segment.edge h.edge
  joined : Joined segment.edge.direction s.node h.edge h.node
  node : NodeFits x ev s.scope segment.node h.node

/-- The relationship has the inline properties of its pattern. -/
def EdgeProperties (segment : PathSegment Expression) (s : Reached) (h : Hop) : Prop :=
  HasProperties ev s.scope h.edge.getProperty segment.edge.properties

/-- The relationship and the node do not share a variable; one name cannot denote both. -/
def TwoVariables (segment : PathSegment Expression) (_ : Reached) (_ : Hop) : Prop :=
  ∀ v ∈ segment.edge.var, v ∉ segment.node.var

/-! ## Assignments -/

/-- At the start node; a variable that is bound already is not bound again. -/
def Reached.first (p : PathPattern Expression) (b : Bindings) (id : NodeId) : Reached where
  scope := match p.start.var.bind b.lookup with
    | some _ => b
    | none => bindVar b (nameVar 0 p.start.var).2 (.node id)
  node := id
  var := (nameVar 0 p.start.var).2
  count := (nameVar 0 p.start.var).1

namespace Assignment

variable (p : PathPattern Expression) (b : Bindings)

/-- Every hop satisfies a condition. -/
def AllHops (ok : PathSegment Expression → Reached → Hop → Prop) (a : Assignment) : Prop :=
  IsPath (Reached.next p.var.isSome) ok p.segments (.first p b a.start) a.hops

/-- The elements as a path value. -/
def path (a : Assignment) : BindingValue :=
  .path (a.start :: a.hops.map (·.node)) (a.hops.map (·.edge.id))

/-- The scope at the end of the path. -/
def scope (a : Assignment) : Bindings :=
  (stateAfter (Reached.next p.var.isSome) p.segments (.first p b a.start) a.hops).scope

/-- The row of an assignment: its elements under the variables of the pattern. -/
def row (a : Assignment) : Bindings := dropHidden (bindVar (a.scope p b) p.var a.path)

/-- The assignment fits, apart from the inline properties of relationships and the variables that
only later elements use. -/
structure Fits (a : Assignment) : Prop where
  start : NodeFits x ev b p.start a.start
  hops : a.AllHops p b (HopFits x ev)

/-- The assignment matches the pattern. -/
structure Matches (a : Assignment) : Prop extends Fits x ev p b a where
  properties : a.AllHops p b (EdgeProperties ev)
  twoVariables : a.AllHops p b TwoVariables
  denotes : Denotes (a.scope p b) p.var a.path

end Assignment

/-- The rows are, up to order, one row for each match of the pattern. -/
def OneRowEach (p : PathPattern Expression) (bs rows : List Bindings) : Prop :=
  ∃ found : Bindings → List Assignment,
    (∀ b ∈ bs, (found b).Nodup ∧ ∀ a, a ∈ found b ↔ a.Matches x ev p b) ∧
      rows.Perm (bs.flatMap fun b => (found b).map (Assignment.row p b))

end Meaning

end Maharit
