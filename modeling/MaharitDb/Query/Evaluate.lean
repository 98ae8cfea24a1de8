import MaharitDb.Query.Value

/-!
# Evaluating expressions

The evaluator (`evaluate_expression` of `maharit-query/src/executor.rs`).  Comparisons, equality and
the logical operators are modelled here; what the other operators and the scalar functions compute
is the parameter `Interpretation`.  The expressions that match patterns are evaluated by a function
`sub`, since matching a pattern evaluates expressions in turn.
-/

namespace Maharit

/-- The meaning of the operators and functions that are not comparisons or logic. -/
structure Interpretation (σ : Type) where
  /-- `+`, `-`, `*`, `/`, `=~`, `CONTAINS`, `STARTS WITH`, `ENDS WITH`. -/
  binary : BinaryOp → Value → Value → Except ExecuteError Value
  /-- Negation and `IS NORMALIZED`. -/
  unary : UnaryOp → Value → Except ExecuteError Value
  /-- A field of a temporal value. -/
  temporalField : Value → String → Value
  /-- A scalar function, given the values of its arguments. -/
  scalar : σ → Bindings → ScalarFunction (Except ExecuteError Value) → Except ExecuteError Value
  /-- `reduce(acc = init, x IN list | body)`, given the body as a function of its bindings. -/
  reduce : Bindings → String → Value → String → Value →
    (Bindings → Except ExecuteError Value) → Except ExecuteError Value

/-! ## Operators -/

/-- `values_equal`. -/
def valuesEqual : Value → Value → Bool
  | .null, .null => true
  | .bool a, .bool b => a == b
  | .int a, .int b => a == b
  | .float a, .float b => a.closeTo b
  | .int a, .float b => (F64.ofInt64 a).closeTo b
  | .float a, .int b => (F64.ofInt64 b).closeTo a
  | .string a, .string b => a == b
  | .node a, .node b => a == b
  | .date a, .date b => a == b
  | .dateTime a, .dateTime b => a == b
  | .duration ma da msa, .duration mb db msb => ma == mb && da == db && msa == msb
  | _, _ => false

/-- The order of two values of comparable types; a NaN is equal to everything. -/
def valueOrdering : Value → Value → Option Ordering
  | .int a, .int b => some (compare a b)
  | .float a, .float b => some ((a.partialCmp b).getD .eq)
  | .int a, .float b => some (((F64.ofInt64 a).partialCmp b).getD .eq)
  | .float a, .int b => some ((a.partialCmp (F64.ofInt64 b)).getD .eq)
  | .string a, .string b => some (compare a b)
  | .date a, .date b => some (compare a b)
  | .dateTime a, .dateTime b => some (compare a b)
  | _, _ => none

/-- `compare_values`. -/
def compareValues (left right : Value) (pred : Ordering → Bool) : Except ExecuteError Value :=
  match valueOrdering left right with
  | some ord => .ok (.bool (pred ord))
  | none => .error (.typeError "cannot compare values")

/-- `apply_binary_op`. -/
def applyBinaryOp {σ : Type} (I : Interpretation σ) (left : Value) (op : BinaryOp) (right : Value) :
    Except ExecuteError Value :=
  match op with
  | .eq => .ok (.bool (valuesEqual left right))
  | .neq => .ok (.bool (!valuesEqual left right))
  | .lt => compareValues left right (·.isLT)
  | .gt => compareValues left right (·.isGT)
  | .lte => compareValues left right (·.isLE)
  | .gte => compareValues left right (·.isGE)
  | .and =>
      match left, right with
      | .bool a, .bool b => .ok (.bool (a && b))
      | _, _ => .error (.typeError "AND requires booleans")
  | .or =>
      match left, right with
      | .bool a, .bool b => .ok (.bool (a || b))
      | _, _ => .error (.typeError "OR requires booleans")
  | .in_ =>
      match right with
      | .list items => .ok (.bool (items.any (valuesEqual left)))
      | .null => .ok .null
      | _ => .ok (.bool false)
  | op => I.binary op left right

/-- `apply_unary_op`. -/
def applyUnaryOp {σ : Type} (I : Interpretation σ) (op : UnaryOp) (value : Value) :
    Except ExecuteError Value :=
  match op with
  | .not =>
      match value with
      | .bool b => .ok (.bool !b)
      | _ => .error (.typeError "NOT requires boolean")
  | .isNull => .ok (.bool (value matches .null))
  | .isNotNull => .ok (.bool !(value matches .null))
  | op => I.unary op value

/-! ## Variables and lists -/

section Evaluate

variable {σ : Type} [GraphBackend σ] (I : Interpretation σ) (x : Executor σ)

/-- A bound variable as a value. -/
def BindingValue.toValue : BindingValue → Value
  | .node id => .node id
  | .edge id => .int (Int64.ofInt id.toNat)
  | .path nodes edges => .path nodes edges
  | .scalar value => value

/-- `Expression::Variable`. -/
def evaluateVariable (b : Bindings) (name : String) : Except ExecuteError Value :=
  match b.lookup name with
  | some value => .ok value.toValue
  | none => .error (.undefinedVariable name)

/-- An optional property as a value. -/
def propertyOrNull (p : Option PropertyValue) : Value := (p.map Value.ofProperty).getD .null

/-- `Expression::Property`. -/
def evaluateProperty (b : Bindings) (name property : String) : Except ExecuteError Value :=
  match b.lookup name with
  | none => .error (.undefinedVariable name)
  | some (.node id) =>
      match GraphBackend.getNode x.graph id with
      | some n => .ok (propertyOrNull (n.getProperty property))
      | none => .error (.typeError "node not found")
  | some (.edge id) =>
      match GraphBackend.getEdge x.graph id with
      | some e => .ok (propertyOrNull (e.getProperty property))
      | none => .error (.typeError "edge not found")
  | some (.scalar (.map entries)) => .ok ((entries.lookup property).getD .null)
  | some (.scalar (.node id)) =>
      .ok (propertyOrNull ((GraphBackend.getNode x.graph id).bind (·.getProperty property)))
  | some (.scalar (.nodeData _ _ properties)) => .ok (propertyOrNull (properties.lookup property))
  | some (.scalar value) => .ok (I.temporalField value property)
  | some (.path _ _) =>
      .error (.typeError ("cannot access property '" ++ property ++ "' on path value"))

/-- `list[index]`; a negative index counts from the end. -/
def indexAccess : Value → Value → Value
  | .list items, .int i =>
      let i := if i < 0 then (items.length : ℤ) + i.toInt else i.toInt
      if 0 ≤ i then items.getD i.toNat .null else .null
  | _, _ => .null

/-- `list[start..stop]`. -/
def listSlice : Value → Value → Value → Value
  | .list items, .int s, .int e =>
      let len : ℤ := items.length
      let s := (if s < 0 then max (len + s.toInt) 0 else min s.toInt len).toNat
      let e := (if e < 0 then max (len + e.toInt) 0 else min e.toInt len).toNat
      .list ((items.take (max s e)).drop (min s e))
  | _, _, _ => .null

/-- The list a comprehension or a list predicate ranges over; null stays null. -/
def listItems (what : String) : Value → Except ExecuteError (Option (List Value))
  | .list items => .ok (some items)
  | .null => .ok none
  | _ => .error (.typeError (what ++ " requires a list"))

/-- `list_predicate`: how many items must satisfy the predicate. -/
def ListPredicateKind.holds : ListPredicateKind → ℕ → ℕ → Bool
  | .all, count, len => count == len
  | .any, count, _ => 0 < count
  | .none, count, _ => count == 0
  | .single, count, _ => count == 1

/-- The bindings of a row with one more scalar. -/
def bindScalar (b : Bindings) (name : String) (value : Value) : Bindings :=
  b.insert name (.scalar value)

/-! ## Expressions -/

variable (sub : Expression → Bindings → Except ExecuteError Value)

mutual

/-- `evaluate_expression`. -/
def evaluateWith : Expression → Bindings → Except ExecuteError Value
  | .literal lit, _ => .ok (.ofLiteral lit)
  | .variable name, b => evaluateVariable b name
  | .property name property, b => evaluateProperty I x b name property
  | .binaryOp left op right, b => do
      let l ← evaluateWith left b
      let r ← evaluateWith right b
      applyBinaryOp I l op r
  | .unaryOp op operand, b => do applyUnaryOp I op (← evaluateWith operand b)
  | .case operand whens otherwise, b => do
      match ← evaluateWhens (← evaluateOption operand b) whens b with
      | some value => return value
      | none => return (← evaluateOption otherwise b).getD .null
  | .list elements, b => return .list (← evaluateList elements b)
  | .indexAccess list index, b => do
      let l ← evaluateWith list b
      let i ← evaluateWith index b
      return indexAccess l i
  | .listSlice list start stop, b => do
      let l ← evaluateWith list b
      let s ← evaluateWith start b
      let e ← evaluateWith stop b
      return listSlice l s e
  | .listComprehension name list predicate result, b => do
      match ← listItems "list comprehension" (← evaluateWith list b) with
      | none => return .null
      | some items =>
          let values ← items.mapM fun item => do
            match ← evaluateOption predicate (bindScalar b name item) with
            | some (.bool true) | none => return some (← evaluateWith result (bindScalar b name item))
            | some _ => return none
          return .list (values.filterMap fun v => v)
  | .parameter name, _ =>
      match x.params.lookup name with
      | some value => .ok value
      | none => .error (.undefinedVariable ("$" ++ name))
  | .listPredicate kind name list predicate, b => do
      match ← listItems "list predicate" (← evaluateWith list b) with
      | none => return .null
      | some items =>
          let values ← items.mapM fun item => evaluateWith predicate (bindScalar b name item)
          return .bool (kind.holds (values.countP Value.isTrue) items.length)
  | .exists_ operand, b => do return .bool !((← evaluateWith operand b) matches .null)
  | .isEmpty operand, b => do
      match ← evaluateWith operand b with
      | .list items => return .bool items.isEmpty
      | .string s => return .bool s.isEmpty
      | .null => return .null
      | _ => throw (.typeError "isEmpty() requires a list or string")
  | .map entries, b => return .map (← evaluateEntries entries b)
  | .scalarFn function, b => evaluateFunction function b
  | .existsSubquery patterns whereClause, b => sub (.existsSubquery patterns whereClause) b
  | .countSubquery patterns whereClause, b => sub (.countSubquery patterns whereClause) b
  | .collectSubquery patterns whereClause item, b =>
      sub (.collectSubquery patterns whereClause item) b
  | .patternPredicate patterns, b => sub (.patternPredicate patterns) b

/-- An optional expression. -/
def evaluateOption : Option Expression → Bindings → Except ExecuteError (Option Value)
  | none, _ => .ok none
  | some e, b => return some (← evaluateWith e b)

/-- The first `WHEN` that applies, of `evaluate_case_expression`. -/
def evaluateWhens (operand : Option Value) :
    List (Expression × Expression) → Bindings → Except ExecuteError (Option Value)
  | [], _ => .ok none
  | (condition, result) :: whens, b => do
      let c ← evaluateWith condition b
      let hit := match operand with
        | some value => valuesEqual value c
        | none => c.isTrue
      if hit then return some (← evaluateWith result b) else evaluateWhens operand whens b

/-- The elements of a list. -/
def evaluateList : List Expression → Bindings → Except ExecuteError (List Value)
  | [], _ => .ok []
  | e :: es, b => do
      let v ← evaluateWith e b
      return v :: (← evaluateList es b)

/-- The entries of a map. -/
def evaluateEntries :
    List (String × Expression) → Bindings → Except ExecuteError (List (String × Value))
  | [], _ => .ok []
  | (k, e) :: es, b => do
      let v ← evaluateWith e b
      return (k, v) :: (← evaluateEntries es b)

/-- An optional argument of a function. -/
def evaluateArgument : Option Expression → Bindings → Option (Except ExecuteError Value)
  | none, _ => none
  | some e, b => some (evaluateWith e b)

/-- The arguments of a function with any number of them. -/
def evaluateArguments : List Expression → Bindings → List (Except ExecuteError Value)
  | [], _ => []
  | e :: es, b => evaluateWith e b :: evaluateArguments es b

/-- `evaluate_scalar_function`. -/
def evaluateFunction : ScalarFunction Expression → Bindings → Except ExecuteError Value
  | .nodes v, b => I.scalar x.graph b (.nodes v)
  | .relationships v, b => I.scalar x.graph b (.relationships v)
  | .length v, b => I.scalar x.graph b (.length v)
  | .id v, b => I.scalar x.graph b (.id v)
  | .elementId v, b => I.scalar x.graph b (.elementId v)
  | .type v, b => I.scalar x.graph b (.type v)
  | .startNode v, b => I.scalar x.graph b (.startNode v)
  | .endNode v, b => I.scalar x.graph b (.endNode v)
  | .labels v, b => I.scalar x.graph b (.labels v)
  | .properties v, b => I.scalar x.graph b (.properties v)
  | .keys v, b => I.scalar x.graph b (.keys v)
  | .shortestPath s e, b => I.scalar x.graph b (.shortestPath s e)
  | .allShortestPaths s e, b => I.scalar x.graph b (.allShortestPaths s e)
  | .rand, b => I.scalar x.graph b .rand
  | .e, b => I.scalar x.graph b .e
  | .pi, b => I.scalar x.graph b .pi
  | .timestamp, b => I.scalar x.graph b .timestamp
  | .randomUUID, b => I.scalar x.graph b .randomUUID
  | .trim v, b => I.scalar x.graph b (.trim (evaluateWith v b))
  | .lTrim v, b => I.scalar x.graph b (.lTrim (evaluateWith v b))
  | .rTrim v, b => I.scalar x.graph b (.rTrim (evaluateWith v b))
  | .toLower v, b => I.scalar x.graph b (.toLower (evaluateWith v b))
  | .toUpper v, b => I.scalar x.graph b (.toUpper (evaluateWith v b))
  | .reverse v, b => I.scalar x.graph b (.reverse (evaluateWith v b))
  | .toString v, b => I.scalar x.graph b (.toString (evaluateWith v b))
  | .size v, b => I.scalar x.graph b (.size (evaluateWith v b))
  | .abs v, b => I.scalar x.graph b (.abs (evaluateWith v b))
  | .ceil v, b => I.scalar x.graph b (.ceil (evaluateWith v b))
  | .floor v, b => I.scalar x.graph b (.floor (evaluateWith v b))
  | .sign v, b => I.scalar x.graph b (.sign (evaluateWith v b))
  | .isNaN v, b => I.scalar x.graph b (.isNaN (evaluateWith v b))
  | .log v, b => I.scalar x.graph b (.log (evaluateWith v b))
  | .log10 v, b => I.scalar x.graph b (.log10 (evaluateWith v b))
  | .sqrt v, b => I.scalar x.graph b (.sqrt (evaluateWith v b))
  | .toBoolean v, b => I.scalar x.graph b (.toBoolean (evaluateWith v b))
  | .toFloat v, b => I.scalar x.graph b (.toFloat (evaluateWith v b))
  | .toInteger v, b => I.scalar x.graph b (.toInteger (evaluateWith v b))
  | .head v, b => I.scalar x.graph b (.head (evaluateWith v b))
  | .last v, b => I.scalar x.graph b (.last (evaluateWith v b))
  | .tail v, b => I.scalar x.graph b (.tail (evaluateWith v b))
  | .durationFunc v, b => I.scalar x.graph b (.durationFunc (evaluateWith v b))
  | .left u v, b => I.scalar x.graph b (.left (evaluateWith u b) (evaluateWith v b))
  | .right u v, b => I.scalar x.graph b (.right (evaluateWith u b) (evaluateWith v b))
  | .split u v, b => I.scalar x.graph b (.split (evaluateWith u b) (evaluateWith v b))
  | .nullIf u v, b => I.scalar x.graph b (.nullIf (evaluateWith u b) (evaluateWith v b))
  | .replace s search rep, b =>
      I.scalar x.graph b (.replace (evaluateWith s b) (evaluateWith search b) (evaluateWith rep b))
  | .substring s start len, b =>
      I.scalar x.graph b
        (.substring (evaluateWith s b) (evaluateWith start b) (evaluateArgument len b))
  | .range start stop step, b =>
      I.scalar x.graph b
        (.range (evaluateWith start b) (evaluateWith stop b) (evaluateArgument step b))
  | .round v precision, b =>
      I.scalar x.graph b (.round (evaluateWith v b) (evaluateArgument precision b))
  | .dateFunc v, b => I.scalar x.graph b (.dateFunc (evaluateArgument v b))
  | .dateTimeFunc v, b => I.scalar x.graph b (.dateTimeFunc (evaluateArgument v b))
  | .coalesce vs, b => I.scalar x.graph b (.coalesce (evaluateArguments vs b))
  | .reduce accVar init itemVar list body, b => do
      let i ← evaluateWith init b
      let l ← evaluateWith list b
      I.reduce b accVar i itemVar l (evaluateWith body)

end

end Evaluate

end Maharit
