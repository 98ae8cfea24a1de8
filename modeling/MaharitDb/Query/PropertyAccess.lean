import MaharitDb.Query.Pushdown

/-!
# Properties in `RETURN` and in expressions

`v.p` is evaluated by `evaluate_return_item` when it stands alone and by `evaluate_expression` when an
operator follows (`maharit-query/src/executor.rs`).  The first looks at a value that is bound to `v` only
for the fields of a temporal value; the second also looks into maps and into nodes held as values.
`propertyItemsAgree_iff` says when that makes a difference.
-/

namespace Maharit

/-- `access_temporal_field`. -/
def accessTemporalField (value : Value) (field : String) : Value :=
  match value with
  | .date days =>
      let (y, m, d) := Temporal.daysToYmd days
      match field with
      | "year" => .int (Int64.ofInt y.toInt)
      | "month" => .int (Int64.ofInt m.toInt)
      | "day" => .int (Int64.ofInt d.toInt)
      | _ => .null
  | .dateTime ms =>
      let (y, mo, d, h, mi, sec, _) := Temporal.millisToDatetime ms
      match field with
      | "year" => .int (Int64.ofInt y.toInt)
      | "month" => .int (Int64.ofInt mo.toInt)
      | "day" => .int (Int64.ofInt d.toInt)
      | "hour" => .int (Int64.ofInt h)
      | "minute" => .int (Int64.ofInt mi)
      | "second" => .int (Int64.ofInt sec)
      | _ => .null
  | .duration months days millis =>
      match field with
      | "years" => .int (Int64.ofInt (months.toInt.tdiv 12))
      | "months" => .int (Int64.ofInt (months.toInt.tmod 12))
      | "days" => .int (Int64.ofInt days.toInt)
      | "hours" => .int (Int64.ofInt (millis.toInt.tdiv 3600000))
      | "minutes" => .int (Int64.ofInt ((millis.toInt.tmod 3600000).tdiv 60000))
      | "seconds" => .int (Int64.ofInt ((millis.toInt.tmod 60000).tdiv 1000))
      | "milliseconds" => .int (Int64.ofInt (millis.toInt.tmod 1000))
      | _ => .null
  | _ => .null

variable {σ : Type} [GraphBackend σ] (M : Semantics σ) (I : Interpretation σ)
  (sub : Executor σ → Expression → Bindings → Except ExecuteError Value) (x : Executor σ)

/-- The evaluator of the executor, with the temporal fields of both of its evaluations. -/
def Semantics.withFields : Semantics σ :=
  { M.standard { I with temporalField := accessTemporalField } sub with
    temporalField := fun value field => .ok (accessTemporalField value field) }

/-- The property of a map, or of a node held as a value; null for every other value. -/
def heldProperty (value : Value) (property : String) : Value :=
  match value with
  | .map entries => (entries.lookup property).getD .null
  | .node id => propertyOrNull ((GraphBackend.getNode x.graph id).bind (·.getProperty property))
  | .nodeData _ _ properties => propertyOrNull (properties.lookup property)
  | _ => .null

/-- A returned property has the value of the expression, whenever that has one. -/
def PropertyItemsAgree (b : Bindings) (name property : String) : Prop :=
  ∀ value, M.evaluate x b (.property name property) = .ok value →
    evaluateReturnItem M x b (.property name property) = .ok value

/-- The values that properties are read from: maps, and nodes held as values. -/
def Value.holdsProperties : Value → Bool
  | .map _ | .node _ | .nodeData _ _ _ => true
  | _ => false

/-- Only maps and nodes hold properties. -/
lemma heldProperty_eq_null {value : Value} (h : value.holdsProperties = false) (property : String) :
    heldProperty x value property = .null := by
  cases value <;> first | rfl | cases h

/-- Maps and nodes have no temporal fields. -/
lemma accessTemporalField_eq_null {value : Value} (h : value.holdsProperties = true) (field : String) :
    accessTemporalField value field = .null := by
  cases value <;> first | rfl | cases h

/-- What `RETURN v.p` makes of a value bound to `v`. -/
lemma evaluateReturnItem_scalar {b : Bindings} {name property : String} {value : Value}
    (hb : b.lookup name = some (.scalar value)) :
    evaluateReturnItem (M.withFields I sub) x b (.property name property) =
      .ok (accessTemporalField value property) := by
  rw [evaluateReturnItem, returnProperty, hb]
  rfl

/-- What the expression `v.p` makes of a value bound to `v`. -/
lemma evaluate_property_scalar {b : Bindings} {name property : String} {value : Value}
    (hb : b.lookup name = some (.scalar value)) :
    (M.withFields I sub).evaluate x b (.property name property) =
      .ok (if value.holdsProperties then heldProperty x value property
        else accessTemporalField value property) := by
  change evaluateWith _ x (sub x) (.property name property) b = _
  rw [evaluateWith, evaluateProperty, hb]
  cases value <;> rfl

/-- A node or an edge that the expression finds has the same property in `RETURN`; a path has none. -/
lemma propertyItemsAgree_of_not_scalar {b : Bindings} {name property : String}
    (hb : ∀ value, b.lookup name ≠ some (.scalar value)) :
    PropertyItemsAgree (M.withFields I sub) x b name property := by
  intro value hvalue
  change evaluateWith _ x (sub x) (.property name property) b = _ at hvalue
  rw [evaluateWith, evaluateProperty] at hvalue
  rw [evaluateReturnItem, returnProperty]
  rcases hlookup : b.lookup name with _ | bound
  · rw [hlookup] at hvalue
    exact absurd hvalue (by simp)
  · rw [hlookup] at hvalue
    cases bound with
    | node id =>
      cases hnode : GraphBackend.getNode x.graph id with
      | none => simp [hnode] at hvalue
      | some n => simpa [hnode] using hvalue
    | edge id =>
      cases hedge : GraphBackend.getEdge x.graph id with
      | none => simp [hedge] at hvalue
      | some e => simpa [hedge] using hvalue
    | path nodes edges => exact absurd hvalue (by simp)
    | scalar held => exact absurd hlookup (hb held)

/-- `RETURN v.p` has the value of the expression `v.p` exactly when `v` is not bound to a map or to a node
held as a value that has a property `p` which is not null. -/
theorem propertyItemsAgree_iff (b : Bindings) (name property : String) :
    PropertyItemsAgree (M.withFields I sub) x b name property ↔
      ∀ value, b.lookup name = some (.scalar value) → heldProperty x value property = .null := by
  constructor
  · intro h value hb
    by_cases hholds : value.holdsProperties = true
    · have hexpr : (M.withFields I sub).evaluate x b (.property name property) =
          .ok (heldProperty x value property) := by
        rw [evaluate_property_scalar M I sub x hb, if_pos hholds]
      have hreturn := h _ hexpr
      rw [evaluateReturnItem_scalar M I sub x hb, accessTemporalField_eq_null hholds] at hreturn
      exact (Except.ok.inj hreturn).symm
    · exact heldProperty_eq_null x (by simpa using hholds) property
  · intro h
    by_cases hscalar : ∃ value, b.lookup name = some (.scalar value)
    · obtain ⟨value, hb⟩ := hscalar
      intro result hresult
      rw [evaluate_property_scalar M I sub x hb] at hresult
      rw [evaluateReturnItem_scalar M I sub x hb, ← hresult]
      by_cases hholds : value.holdsProperties = true
      · rw [if_pos hholds, h value hb, accessTemporalField_eq_null hholds]
      · rw [if_neg hholds]
    · exact propertyItemsAgree_of_not_scalar M I sub x fun value hb => hscalar ⟨value, hb⟩

/-- After `UNWIND [{a: 1}] AS m`, `RETURN m.a` is null and the expression `m.a` is 1. -/
theorem not_propertyItemsAgree_map :
    ¬ PropertyItemsAgree (plainSemantics.withFields plainInterpretation fun _ _ _ => .ok .null)
      (.bare ConcurrentGraph.new) (bindScalar ∅ "m" (.map [("a", .int 1)])) "m" "a" := by
  intro h
  have hnull : heldProperty (Executor.bare ConcurrentGraph.new) (.map [("a", .int 1)]) "a" = .null :=
    (propertyItemsAgree_iff _ _ _ _ _ _ _).mp h _ rfl
  exact Value.noConfusion hnull

end Maharit
