import MaharitDb.Core.PropertyValue

/-!
# The syntax of queries

The abstract syntax (`maharit-query/src/ast.rs`).  A property map of a pattern is a list of keys
with their expressions, in the order in which the map is iterated.  Patterns and return items are
generic in the type of expressions, which in turn hold patterns and return items.
-/

namespace Maharit

/-- The direction of a relationship pattern. -/
inductive EdgeDirection where
  /-- `->` -/
  | outgoing
  /-- `<-` -/
  | incoming
  /-- `--` -/
  | both
  deriving DecidableEq, Repr

/-- A node pattern `(variable:Label1:Label2 {props})`. -/
structure NodePattern (E : Type) where
  var : Option String
  /-- A node must carry all of them. -/
  labels : List String
  properties : List (String × E)

/-- The length `*min..max` of a variable-length relationship. -/
structure LengthRange where
  min : UInt32
  /-- `none` is unlimited. -/
  max : Option UInt32
  deriving DecidableEq, Repr

/-- A relationship pattern `[variable:TYPE {props}]`. -/
structure EdgePattern (E : Type) where
  var : Option String
  edgeType : Option String
  properties : List (String × E)
  direction : EdgeDirection
  /-- `none` is exactly one hop. -/
  lengthRange : Option LengthRange

/-- A hop `-[r:TYPE]->(node)` of a path. -/
structure PathSegment (E : Type) where
  edge : EdgePattern E
  node : NodePattern E

/-- `shortestPath(..)` or `allShortestPaths(..)` around a path. -/
inductive ShortestPathKind where
  | single
  | all
  deriving DecidableEq, Repr

/-- A path pattern `(a)-[r:TYPE]->(b)`. -/
structure PathPattern (E : Type) where
  /-- The `p` of `MATCH p = (a)-->(b)`. -/
  var : Option String
  start : NodePattern E
  segments : List (PathSegment E)
  shortest : Option ShortestPathKind

/-- A pattern. -/
inductive Pattern (E : Type) where
  | node (pattern : NodePattern E)
  | path (pattern : PathPattern E)

/-- A scalar function; the functions on paths and on elements take the name of a variable. -/
inductive ScalarFunction (E : Type) where
  | nodes (path : String)
  | relationships (path : String)
  | length (path : String)
  | shortestPath (start stop : String)
  | allShortestPaths (start stop : String)
  | trim (s : E)
  | lTrim (s : E)
  | rTrim (s : E)
  | toLower (s : E)
  | toUpper (s : E)
  | reverse (s : E)
  | toString (v : E)
  | size (s : E)
  | left (s len : E)
  | right (s len : E)
  | substring (s start : E) (len : Option E)
  | split (s delim : E)
  | replace (s search rep : E)
  | abs (v : E)
  | ceil (v : E)
  | floor (v : E)
  | round (v : E) (precision : Option E)
  | sign (v : E)
  | rand
  | isNaN (v : E)
  | log (v : E)
  | log10 (v : E)
  | sqrt (v : E)
  | e
  | pi
  | id (v : String)
  | elementId (v : String)
  | type (r : String)
  | startNode (r : String)
  | endNode (r : String)
  | labels (n : String)
  | properties (v : String)
  | keys (v : String)
  | coalesce (vs : List E)
  | nullIf (a b : E)
  | toBoolean (v : E)
  | toFloat (v : E)
  | toInteger (v : E)
  | timestamp
  | randomUUID
  | head (list : E)
  | last (list : E)
  | tail (list : E)
  | range (start stop : E) (step : Option E)
  /-- `reduce(acc = init, x IN list | body)` -/
  | reduce (accVar : String) (init : E) (itemVar : String) (list body : E)
  | dateFunc (v : Option E)
  | dateTimeFunc (v : Option E)
  | durationFunc (v : E)

mutual

/-- An item of `RETURN` or `WITH`. -/
inductive ReturnItem (E : Type) where
  | variable (name : String)
  | property (name property : String)
  /-- `RETURN *` -/
  | all
  | aggregate (function : AggregateFunction E)
  | function (function : ScalarFunction E)
  /-- Any other expression. -/
  | expr (expression : E)
  | alias (item : ReturnItem E) (name : String)

/-- An aggregate function. -/
inductive AggregateFunction (E : Type) where
  /-- `COUNT(expr)` or `COUNT(*)` -/
  | count (item : Option (ReturnItem E))
  | sum (item : ReturnItem E)
  | avg (item : ReturnItem E)
  | min (item : ReturnItem E)
  | max (item : ReturnItem E)
  | collect (item : ReturnItem E)
  | percentileCont (item percentile : ReturnItem E)
  | percentileDisc (item percentile : ReturnItem E)
  | stDev (item : ReturnItem E)
  | stDevP (item : ReturnItem E)
  | countDistinct (item : ReturnItem E)
  | sumDistinct (item : ReturnItem E)
  | avgDistinct (item : ReturnItem E)
  | collectDistinct (item : ReturnItem E)

end

/-- A literal. -/
inductive Literal where
  | null
  | bool (b : Bool)
  | int (n : Int64)
  | float (x : F64)
  | string (s : String)
  deriving DecidableEq, Repr

/-- A binary operator. -/
inductive BinaryOp where
  | eq | neq | lt | gt | lte | gte
  | and | or
  | add | sub | mul | div
  | regex | contains | startsWith | endsWith
  /-- `value IN list` -/
  | in_
  deriving DecidableEq, Repr

/-- A unary operator. -/
inductive UnaryOp where
  | not | neg | isNormalized | isNull | isNotNull
  deriving DecidableEq, Repr

/-- `all`, `any`, `none` or `single` of a list predicate. -/
inductive ListPredicateKind where
  | all | any | none | single
  deriving DecidableEq, Repr

/-- An expression. -/
inductive Expression where
  | literal (lit : Literal)
  | variable (name : String)
  /-- `variable.property` -/
  | property (name property : String)
  | binaryOp (left : Expression) (op : BinaryOp) (right : Expression)
  | unaryOp (op : UnaryOp) (operand : Expression)
  /-- `CASE operand WHEN .. THEN .. ELSE .. END` -/
  | case (operand : Option Expression) (whenClauses : List (Expression × Expression))
      (elseClause : Option Expression)
  | list (elements : List Expression)
  | indexAccess (list index : Expression)
  | listSlice (list start stop : Expression)
  /-- `[x IN list WHERE pred | expr]` -/
  | listComprehension (name : String) (list : Expression) (predicate : Option Expression)
      (result : Expression)
  /-- `$name` -/
  | parameter (name : String)
  | existsSubquery (patterns : List (Pattern Expression)) (whereClause : Option Expression)
  | countSubquery (patterns : List (Pattern Expression)) (whereClause : Option Expression)
  | collectSubquery (patterns : List (Pattern Expression)) (whereClause : Option Expression)
      (returnItem : ReturnItem Expression)
  | listPredicate (kind : ListPredicateKind) (name : String) (list predicate : Expression)
  | exists_ (operand : Expression)
  | isEmpty (operand : Expression)
  | patternPredicate (patterns : List (Pattern Expression))
  | map (entries : List (String × Expression))
  | scalarFn (function : ScalarFunction Expression)

/-! ## Clauses -/

/-- A `MATCH` clause, optional or not. -/
structure MatchClause where
  patterns : List (Pattern Expression)
  optional : Bool

inductive OrderDirection where
  | asc
  | desc
  deriving DecidableEq, Repr

/-- Where nulls are sorted; by default last when ascending and first when descending. -/
inductive NullsOrder where
  | first
  | last
  | default
  deriving DecidableEq, Repr

/-- An item of `ORDER BY`. -/
structure OrderByItem where
  expression : ReturnItem Expression
  direction : OrderDirection
  nullsOrder : NullsOrder

/-- A `RETURN` clause. -/
structure ReturnClause where
  distinct : Bool
  items : List (ReturnItem Expression)
  orderBy : Option (List OrderByItem)
  skip : Option Expression
  limit : Option Expression

/-- An item of `WITH`. -/
structure WithItem where
  expression : ReturnItem Expression
  /-- `AS name` -/
  asName : Option String

/-- A `WITH` clause. -/
structure WithClause where
  distinct : Bool
  items : List WithItem
  orderBy : Option (List OrderByItem)
  skip : Option Expression
  limit : Option Expression

/-- A segment of a query: `MATCH` clauses, `WHERE` and `WITH`. -/
structure QuerySegment where
  matchClauses : List MatchClause
  whereClause : Option Expression
  withClause : Option WithClause

inductive UnionType where
  /-- without duplicates -/
  | union
  | unionAll
  deriving DecidableEq, Repr

/-- A returned item of a `CALL` subquery. -/
structure CallReturnItem where
  expression : ReturnItem Expression
  /-- `AS name` -/
  asName : Option String

/-- One branch of a `CALL` subquery. -/
structure CallBranch where
  /-- The variables imported by `WITH`. -/
  withImport : Option (List String)
  matchClause : MatchClause
  whereClause : Option Expression
  returnItems : List CallReturnItem

/-- A `CALL` subquery: its first branch, and those that follow with `UNION` or `UNION ALL`. -/
structure CallSubquery where
  branch : CallBranch
  unions : List (UnionType × CallBranch)

/-- A `MATCH` statement. -/
structure MatchStatement where
  /-- The segments, separated by `WITH`. -/
  segments : List QuerySegment
  callClause : Option CallSubquery
  returnClause : ReturnClause

/-- An item of `SET`. -/
inductive SetItem where
  /-- `n.prop = value` -/
  | property (name property : String) (value : Expression)
  /-- `n += {key: value, ..}` -/
  | mergeProperties (name : String) (properties : List (String × Expression))
  /-- `n:NewLabel` -/
  | addLabel (name label : String)

/-- An item of `REMOVE`. -/
inductive RemoveItem where
  /-- `n.prop` -/
  | property (name property : String)
  /-- `n:Label` -/
  | label (name label : String)

/-- A `SET` or `REMOVE` clause. -/
inductive UpdateClause where
  | set (items : List SetItem)
  | remove (items : List RemoveItem)

/-- A `DELETE` clause. -/
structure DeleteClause where
  detach : Bool
  targets : List String

/-! ## Statements that write -/

/-- `MATCH .. WHERE .. SET .. DELETE ..` -/
structure DeleteStatement where
  patterns : List (Pattern Expression)
  whereClause : Option Expression
  setClause : Option (List SetItem)
  deleteClause : DeleteClause

/-- `MATCH .. CREATE ..` -/
structure MatchCreateStatement where
  segments : List QuerySegment
  whereClause : Option Expression
  createClause : List (Pattern Expression)
  returnClause : Option ReturnClause

/-- `MATCH .. SET ..` -/
structure MatchSetStatement where
  segments : List QuerySegment
  whereClause : Option Expression
  setClause : List SetItem
  /-- The `SET` and `REMOVE` clauses that follow. -/
  moreUpdates : List UpdateClause
  returnClause : Option ReturnClause

/-- `MATCH .. REMOVE ..` -/
structure MatchRemoveStatement where
  segments : List QuerySegment
  whereClause : Option Expression
  removeClause : List RemoveItem
  /-- The `SET` and `REMOVE` clauses that follow. -/
  moreUpdates : List UpdateClause
  returnClause : Option ReturnClause

/-- `MATCH .. MERGE ..` -/
structure MergeStatement where
  matchClauses : List MatchClause
  whereClause : Option Expression
  patterns : List (Pattern Expression)
  onCreateSet : Option (List SetItem)
  onMatchSet : Option (List SetItem)
  returnClause : Option ReturnClause

/-- `UNWIND list AS variable CREATE .. SET ..` -/
structure UnwindStatement where
  expression : Expression
  var : String
  createClause : Option (List (Pattern Expression))
  /-- Applied after `CREATE` only. -/
  setClause : Option (List SetItem)
  returnClause : Option ReturnClause

mutual

/-- An update of `FOREACH`. -/
inductive ForeachClause where
  | create (patterns : List (Pattern Expression))
  | set (items : List SetItem)
  | remove (items : List RemoveItem)
  | delete (clause : DeleteClause)
  | merge (patterns : List (Pattern Expression))
  | foreach (statement : ForeachStatement)

/-- `FOREACH (variable IN list | clauses)` -/
inductive ForeachStatement where
  | mk (var : String) (list : Expression) (clauses : List ForeachClause)

end

/-- `MATCH .. FOREACH ..` -/
structure MatchForeachStatement where
  segments : List QuerySegment
  foreachClause : ForeachStatement

/-! ## Statements on the schema and on users -/

/-- The type named by `IS :: TYPE`. -/
inductive PropertyTypeAst where
  | integer
  | float
  | string
  | boolean
  deriving DecidableEq, Repr

/-- The kind of a constraint. -/
inductive ConstraintTypeAst where
  | unique
  | notNull
  | typeCheck (type : PropertyTypeAst)
  | requiredLabel (label : String)
  | endpointLabel (sourceLabel targetLabel : String)
  deriving DecidableEq, Repr

/-- `CREATE CONSTRAINT name` -/
structure CreateConstraintStatement where
  name : String
  label : String
  var : String
  constraintType : ConstraintTypeAst
  properties : List String
  deriving DecidableEq, Repr

/-- `CREATE FULLTEXT INDEX name` -/
structure CreateFulltextIndexStatement where
  name : String
  label : String
  var : String
  properties : List String
  deriving DecidableEq, Repr

/-- `CREATE USER` -/
structure CreateUserStatement where
  username : String
  password : String
  role : String
  deriving DecidableEq, Repr

/-- `ALTER USER` -/
structure AlterUserStatement where
  username : String
  password : Option String
  role : Option String
  deriving DecidableEq, Repr

/-! ## Statements -/

/-- `column AS name` of `YIELD`. -/
structure YieldItem where
  column : String
  /-- `AS name` -/
  asName : Option String
  deriving DecidableEq, Repr

/-- The variable that a yielded column is bound to. -/
def YieldItem.name (item : YieldItem) : String := item.asName.getD item.column

/-- `CALL proc.name(args) YIELD ..`, followed by segments and by `FOREACH` or `RETURN`. -/
structure ProcedureCallStatement where
  procedure : String
  arguments : List Expression
  /-- Empty for all columns of the procedure. -/
  yieldItems : List YieldItem
  segments : List QuerySegment
  foreachClause : Option ForeachStatement
  returnClause : Option ReturnClause

/-- `MATCH .. UNION MATCH ..` -/
structure UnionStatement where
  queries : List MatchStatement
  unionType : UnionType

/-- A statement. -/
inductive Statement where
  | create (patterns : List (Pattern Expression))
  | createReturn (patterns : List (Pattern Expression)) (returnClause : ReturnClause)
  | match (statement : MatchStatement)
  | delete (statement : DeleteStatement)
  | union (statement : UnionStatement)
  | matchCreate (statement : MatchCreateStatement)
  | matchSet (statement : MatchSetStatement)
  | merge (statement : MergeStatement)
  | matchRemove (statement : MatchRemoveStatement)
  | unwind (statement : UnwindStatement)
  | foreach (statement : ForeachStatement)
  | matchForeach (statement : MatchForeachStatement)
  | createConstraint (statement : CreateConstraintStatement)
  | dropConstraint (name : String)
  | showConstraints
  | createIndex (label property : String)
  | dropIndex (label property : String)
  | showIndexes
  | createFulltextIndex (statement : CreateFulltextIndexStatement)
  | dropFulltextIndex (name : String)
  | createUser (statement : CreateUserStatement)
  | dropUser (username : String)
  | alterUser (statement : AlterUserStatement)
  | showUsers
  | explain (statement : Statement)
  | profile (statement : Statement)
  | procedureCall (statement : ProcedureCallStatement)
  | return (returnClause : ReturnClause)

/-- `is_read_only`. -/
def isReadOnly : Statement → Bool
  | .match _ => true
  | .return _ => true
  | .union _ => true
  | .showConstraints => true
  | .showUsers => true
  | .procedureCall pc => pc.foreachClause.isNone
  | .explain inner => isReadOnly inner
  | .profile inner => isReadOnly inner
  | .showIndexes => true
  | _ => false

end Maharit
