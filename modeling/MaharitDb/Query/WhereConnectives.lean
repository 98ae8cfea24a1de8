import MaharitDb.Query.Pushdown

/-!
# `AND` and `OR` in `WHERE`

Which rows a `WHERE` clause keeps, for a condition joined by `AND` or `OR` (`apply_binary_op` and
`execute_query_segment` of `maharit-query/src/executor.rs`).  The connectives are defined on booleans
only; an operand that is null, of another type or fails makes the whole condition fail, and the row is
dropped.  For `AND` that is the intersection all the same; `OR` loses the rows that the other operand
keeps.
-/

namespace Maharit

variable {σ : Type} [GraphBackend σ] (M : Semantics σ) (I : Interpretation σ)
  (sub : Executor σ → Expression → Bindings → Except ExecuteError Value) (x : Executor σ)

/-- `matches!(v, Ok(Value::Bool(_)))`. -/
def isBoolean : Except ExecuteError Value → Bool
  | .ok (.bool _) => true
  | _ => false

omit [GraphBackend σ] in
/-- A condition keeps a row when its value is `true`. -/
lemma whereHolds_iff {p : Expression} {b : Bindings} :
    whereHolds M x p b = true ↔ M.evaluate x b p = .ok (.bool true) := by
  rw [whereHolds]
  cases M.evaluate x b p with
  | error e => simp
  | ok v =>
    cases v with
    | bool c => cases c <;> simp [Value.isTrue]
    | _ => simp [Value.isTrue]

/-- What a binary operator evaluates to, from its operands. -/
lemma evaluate_binaryOp {p q : Expression} {op : BinaryOp} {b : Bindings} :
    (M.standard I sub).evaluate x b (.binaryOp p op q) =
      ((M.standard I sub).evaluate x b p).bind fun l =>
        ((M.standard I sub).evaluate x b q).bind fun r => applyBinaryOp I l op r := by
  change evaluateWith I x (sub x) (.binaryOp p op q) b = _
  rw [evaluateWith]
  rfl

omit [GraphBackend σ] in
/-- `AND` is true exactly on two true operands. -/
lemma applyBinaryOp_and {l r : Value} :
    applyBinaryOp I l .and r = .ok (.bool true) ↔ l = .bool true ∧ r = .bool true := by
  cases l with
  | bool a => cases r <;> simp [applyBinaryOp]
  | _ => simp [applyBinaryOp]

omit [GraphBackend σ] in
/-- `OR` is true exactly on two booleans of which one is true. -/
lemma applyBinaryOp_or {l r : Value} :
    applyBinaryOp I l .or r = .ok (.bool true) ↔
      ∃ c d, l = .bool c ∧ r = .bool d ∧ (c || d) = true := by
  cases l with
  | bool a => cases r <;> simp [applyBinaryOp]
  | _ => simp [applyBinaryOp]

/-- A row is kept by `p AND q` when both keep it. -/
lemma whereHolds_and {p q : Expression} {b : Bindings} :
    whereHolds (M.standard I sub) x (.binaryOp p .and q) b =
      (whereHolds (M.standard I sub) x p b && whereHolds (M.standard I sub) x q b) := by
  rw [Bool.eq_iff_iff, Bool.and_eq_true, whereHolds_iff, whereHolds_iff, whereHolds_iff,
    evaluate_binaryOp]
  cases (M.standard I sub).evaluate x b p with
  | error e => simp [Except.bind]
  | ok l =>
    cases (M.standard I sub).evaluate x b q with
    | error e => simp [Except.bind]
    | ok r => simpa [Except.bind] using applyBinaryOp_and I

/-- A row is kept by `p OR q` when both are boolean on it and one keeps it. -/
lemma whereHolds_or {p q : Expression} {b : Bindings} :
    whereHolds (M.standard I sub) x (.binaryOp p .or q) b = true ↔
      isBoolean ((M.standard I sub).evaluate x b p) = true ∧
        isBoolean ((M.standard I sub).evaluate x b q) = true ∧
        (whereHolds (M.standard I sub) x p b = true ∨ whereHolds (M.standard I sub) x q b = true) := by
  rw [whereHolds_iff, whereHolds_iff, whereHolds_iff, evaluate_binaryOp]
  cases (M.standard I sub).evaluate x b p with
  | error e => simp [Except.bind, isBoolean]
  | ok l =>
    cases (M.standard I sub).evaluate x b q with
    | error e => simp [Except.bind, isBoolean]
    | ok r =>
      have hor := applyBinaryOp_or I (l := l) (r := r)
      cases l with
      | bool c => cases r <;> simpa [Except.bind, isBoolean] using hor
      | _ => simpa [Except.bind, isBoolean] using hor

/-- The rows that `AND` and `OR` should keep: those kept by both, and those kept by one. -/
structure ConnectiveLaws (p q : Expression) (bs : List Bindings) : Prop where
  and : retainWhere M x (some (.binaryOp p .and q)) bs =
    bs.filter fun b => whereHolds M x p b && whereHolds M x q b
  or : retainWhere M x (some (.binaryOp p .or q)) bs =
    bs.filter fun b => whereHolds M x p b || whereHolds M x q b

/-- Neither operand keeps the row while the other is no boolean. -/
def NoneLost (p q : Expression) (b : Bindings) : Prop :=
  (whereHolds M x p b = true → isBoolean (M.evaluate x b q) = true) ∧
    (whereHolds M x q b = true → isBoolean (M.evaluate x b p) = true)

/-- A condition that keeps a row is boolean on it. -/
lemma isBoolean_of_whereHolds {p : Expression} {b : Bindings} (h : whereHolds M x p b = true) :
    isBoolean (M.evaluate x b p) = true := by
  rw [(whereHolds_iff M x).mp h]
  rfl

/-- `OR` keeps a row like the union exactly when neither operand fails where the other is true. -/
lemma whereHolds_or_eq_iff {p q : Expression} {b : Bindings} :
    whereHolds (M.standard I sub) x (.binaryOp p .or q) b =
        (whereHolds (M.standard I sub) x p b || whereHolds (M.standard I sub) x q b) ↔
      NoneLost (M.standard I sub) x p q b := by
  have hp := isBoolean_of_whereHolds (M.standard I sub) x (p := p) (b := b)
  have hq := isBoolean_of_whereHolds (M.standard I sub) x (p := q) (b := b)
  rw [Bool.eq_iff_iff, Bool.or_eq_true, whereHolds_or, NoneLost]
  tauto

/-- Two filters agree when their predicates do on every element. -/
lemma filter_eq_filter_iff {α : Type} {f g : α → Bool} {l : List α} :
    l.filter f = l.filter g ↔ ∀ a ∈ l, f a = g a := by
  constructor
  · intro h a ha
    have hmem : a ∈ l.filter f ↔ a ∈ l.filter g := by rw [h]
    rw [List.mem_filter, List.mem_filter] at hmem
    rw [Bool.eq_iff_iff]
    tauto
  · exact fun h => List.filter_congr h

/-- The connectives act as intersection and union on a list of rows exactly when no row is kept by one
operand while the other is null, of another type or fails on it. -/
theorem connectiveLaws_iff (p q : Expression) (bs : List Bindings) :
    ConnectiveLaws (M.standard I sub) x p q bs ↔
      ∀ b ∈ bs, NoneLost (M.standard I sub) x p q b := by
  have hand : retainWhere (M.standard I sub) x (some (.binaryOp p .and q)) bs =
      bs.filter fun b =>
        whereHolds (M.standard I sub) x p b && whereHolds (M.standard I sub) x q b :=
    List.filter_congr fun b _ => whereHolds_and M I sub x
  have hor : retainWhere (M.standard I sub) x (some (.binaryOp p .or q)) bs =
      bs.filter (fun b =>
        whereHolds (M.standard I sub) x p b || whereHolds (M.standard I sub) x q b) ↔
      ∀ b ∈ bs, NoneLost (M.standard I sub) x p q b := by
    refine filter_eq_filter_iff.trans ?_
    exact forall₂_congr fun b _ => whereHolds_or_eq_iff M I sub x
  exact ⟨fun h => hor.mp h.or, fun h => ⟨hand, hor.mpr h⟩⟩

/-- The row is kept by `true`, and `true OR null` drops it. -/
theorem not_connectiveLaws_true_null :
    ¬ ConnectiveLaws standardSemantics (.bare (ConcurrentGraph.new)) (.literal (.bool true))
      (.literal .null) [∅] := by
  intro h
  have hnone : NoneLost standardSemantics (.bare (ConcurrentGraph.new)) (.literal (.bool true))
      (.literal .null) ∅ :=
    (connectiveLaws_iff plainSemantics plainInterpretation _ _ _ _ _).mp h ∅ List.mem_cons_self
  have hboolean : isBoolean (.ok .null) = true := hnone.1 rfl
  exact absurd hboolean (by decide)

end Maharit
