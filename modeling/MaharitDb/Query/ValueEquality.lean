import MaharitDb.Query.Pushdown
import Mathlib.Data.Set.Basic

/-!
# Equality of values

What `values_equal` of `maharit-query/src/executor.rs` makes of values without floats.  The function
lists the pairs of kinds it compares and answers `false` for every other pair; lists, maps, paths and
nodes with their data are such pairs.  `EqualityLaws` says what the operators `=` and `IN` promise, and
`equalityLaws_iff` which values they keep it for.
-/

namespace Maharit

namespace Value

mutual

/-- No float anywhere in the value. -/
def isFloatFree : Value → Bool
  | .float _ => false
  | .nodeData _ _ properties => properties.all fun e => !(e.2 matches .float _)
  | .list items => allFloatFree items
  | .map entries => entriesFloatFree entries
  | _ => true

/-- No float in the items of a list. -/
def allFloatFree : List Value → Bool
  | [] => true
  | v :: vs => v.isFloatFree && allFloatFree vs

/-- No float in the entries of a map. -/
def entriesFloatFree : List (String × Value) → Bool
  | [] => true
  | (_, v) :: es => v.isFloatFree && entriesFloatFree es

end

/-- The kinds that `values_equal` compares with themselves, floats apart. -/
def isComparedByValue : Value → Bool
  | .null | .bool _ | .int _ | .string _ | .node _ | .date _ | .dateTime _ | .duration _ _ _ => true
  | _ => false

/-- The node a value refers to, in either representation. -/
def nodeReference : Value → Option NodeId
  | .node id => some id
  | .nodeData id _ _ => some id
  | _ => none

/-- A value that refers to a node and is compared by value is a bare reference. -/
lemma eq_node_of_nodeReference {v : Value} {id : NodeId} (hv : v.isComparedByValue = true)
    (href : v.nodeReference = some id) : v = .node id := by
  cases v with
  | node _ =>
    have hid := Option.some.inj href
    rw [hid]
  | nodeData _ _ _ => exact absurd hv (by simp [isComparedByValue])
  | _ => exact absurd href (by simp [nodeReference])

end Value

/-- On values without floats, `values_equal` is the equality of the kinds it lists and `false` on all
others. -/
lemma valuesEqual_iff {v w : Value} (hv : v.isFloatFree = true) (hw : w.isFloatFree = true) :
    valuesEqual v w = true ↔ v = w ∧ v.isComparedByValue = true := by
  cases v with
  | float _ => exact absurd hv (by simp [Value.isFloatFree])
  | duration _ _ _ => cases w <;> simp [valuesEqual, Value.isComparedByValue, and_assoc]
  | int _ =>
    cases w with
    | float _ => exact absurd hw (by simp [Value.isFloatFree])
    | _ => simp [valuesEqual, Value.isComparedByValue]
  | _ => cases w <;> simp [valuesEqual, Value.isComparedByValue]

/-- `values_equal` is symmetric on values without floats, whatever their kinds. -/
lemma valuesEqual_symm {v w : Value} (hv : v.isFloatFree = true) (hw : w.isFloatFree = true)
    (h : valuesEqual v w = true) : valuesEqual w v = true := by
  obtain ⟨rfl, _⟩ := (valuesEqual_iff hv hw).mp h
  exact h

/-- `values_equal` is transitive on values without floats, whatever their kinds. -/
lemma valuesEqual_trans {u v w : Value} (hu : u.isFloatFree = true) (hv : v.isFloatFree = true)
    (h : valuesEqual u v = true) (h' : valuesEqual v w = true) : valuesEqual u w = true := by
  obtain ⟨rfl, _⟩ := (valuesEqual_iff hu hv).mp h
  exact h'

/-- What `=` and `IN` promise for the values of a set. -/
structure EqualityLaws {σ : Type} (I : Interpretation σ) (U : Set Value) : Prop where
  refl : ∀ v ∈ U, valuesEqual v v = true
  symm : ∀ v ∈ U, ∀ w ∈ U, valuesEqual v w = true → valuesEqual w v = true
  trans : ∀ u ∈ U, ∀ v ∈ U, ∀ w ∈ U,
    valuesEqual u v = true → valuesEqual v w = true → valuesEqual u w = true
  /-- Two references to one node are equal, whatever their representations. -/
  sameNode : ∀ v ∈ U, ∀ w ∈ U, ∀ id,
    v.nodeReference = some id → w.nodeReference = some id → valuesEqual v w = true
  /-- A list has its elements `IN` it. -/
  isIn : ∀ items : List Value, (∀ v ∈ items, v ∈ U) → ∀ v ∈ items,
    applyBinaryOp I v .in_ (.list items) = .ok (.bool true)

/-- `IN` holds as soon as one element is equal. -/
lemma applyBinaryOp_in_list {σ : Type} (I : Interpretation σ) {v : Value} {items : List Value} :
    applyBinaryOp I v .in_ (.list items) = .ok (.bool true) ↔
      ∃ w ∈ items, valuesEqual v w = true := by
  simp [applyBinaryOp]

/-- The laws hold for a set of values without floats exactly when it has no list, no map, no path and no
node with its data. -/
theorem equalityLaws_iff {σ : Type} (I : Interpretation σ) (U : Set Value)
    (hU : ∀ v ∈ U, v.isFloatFree = true) :
    EqualityLaws I U ↔ ∀ v ∈ U, v.isComparedByValue = true := by
  have hiff : ∀ v ∈ U, ∀ w ∈ U, valuesEqual v w = true ↔ v = w ∧ v.isComparedByValue = true :=
    fun v hv w hw => valuesEqual_iff (hU v hv) (hU w hw)
  constructor
  · intro h v hv
    exact ((hiff v hv v hv).mp (h.refl v hv)).2
  · intro h
    have hrefl : ∀ v ∈ U, valuesEqual v v = true := fun v hv => (hiff v hv v hv).mpr ⟨rfl, h v hv⟩
    refine ⟨hrefl, fun v hv w hw => valuesEqual_symm (hU v hv) (hU w hw),
      fun u hu v hv w _ => valuesEqual_trans (hU u hu) (hU v hv), ?_, ?_⟩
    · intro v hv w hw id hvref hwref
      have hveq : v = .node id := Value.eq_node_of_nodeReference (h v hv) hvref
      have hweq : w = .node id := Value.eq_node_of_nodeReference (h w hw) hwref
      rw [hveq, hweq]
      simp [valuesEqual]
    · intro items hitems v hv
      exact (applyBinaryOp_in_list I).mpr ⟨v, hv, hrefl v (hitems v hv)⟩

/-- The laws on a scalar and two bare references. -/
theorem equalityLaws_simple : EqualityLaws plainInterpretation {.null, .int 1, .node 1, .node 2} :=
  (equalityLaws_iff plainInterpretation _ (by simp [Value.isFloatFree])).mpr
    (by simp [Value.isComparedByValue])

/-- `[1] = [1]` is false, a node is not equal to the same node with its data, and `[1] IN [[1]]` is
false. -/
theorem not_equalityLaws_list_nodeData :
    valuesEqual (.list [.int 1]) (.list [.int 1]) = false ∧
      valuesEqual (.node 1) (.nodeData 1 ["Person"] []) = false ∧
      applyBinaryOp plainInterpretation (.list [.int 1]) .in_ (.list [.list [.int 1]]) =
        .ok (.bool false) :=
  ⟨rfl, rfl, rfl⟩

end Maharit
