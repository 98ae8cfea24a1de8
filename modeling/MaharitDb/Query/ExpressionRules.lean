import MaharitDb.Lib.EnoughFuel
import MaharitDb.Query.ExpressionParser

/-!
# Rules of the expression grammar

What the functions of the expression parser return with enough fuel, one rule for each way through a level of the
grammar.  A derivation with these rules never names a bound on the nested calls.
-/

namespace Maharit

variable (S : OtherSyntax) (U : CharTables)

/-- With enough fuel a function of the parser reads the tokens as a value and leaves some. -/
def ReadsAs {α : Type} (parse : ℕ → List Token → Parse (α × List Token)) (ts : List Token) (a : α)
    (rest : List Token) : Prop :=
  WithFuel (fun n => parse n ts) (· = .ok (a, rest))

namespace ReadsAs

variable {α β : Type} {ts rest rest' : List Token} {a : α} {b : β}
variable {parse : ℕ → List Token → Parse (α × List Token)}

/-- A function whose body is known. -/
lemma of_succ {body : ℕ → Parse (α × List Token)} (h : ∀ n, parse (n + 1) ts = body n)
    (hbody : WithFuel body (· = .ok (a, rest))) : ReadsAs parse ts a rest :=
  WithFuel.of_succ h hbody

/-- A result that takes no calls. -/
lemma of_eq (h : ∀ n, parse (n + 1) ts = .ok (a, rest)) : ReadsAs parse ts a rest :=
  of_succ h (WithFuel.of_forall fun _ => rfl)

/-- A call, and then the rest of the function on what it reads. -/
lemma bind {next : ℕ → α × List Token → Parse (β × List Token)} (h : ReadsAs parse ts a rest)
    (hnext : WithFuel (fun n => next n (a, rest)) (· = .ok (b, rest'))) :
    WithFuel (fun n => parse n ts >>= next n) (· = .ok (b, rest')) :=
  WithFuel.bind_ok h hnext

end ReadsAs

/-- A level of left-associative operators reads the tokens as an expression. -/
abbrev ReadsBinary (level : BinaryLevel) (ts : List Token) (e : Expression) (rest : List Token) : Prop :=
  ReadsAs (fun n => parseBinary S U n level) ts e rest

/-- The operand of a level. -/
abbrev ReadsOperand (level : BinaryLevel) (ts : List Token) (e : Expression) (rest : List Token) : Prop :=
  ReadsAs (fun n => parseOperand S U n level) ts e rest

/-- The rest of a level after an operand. -/
abbrev ReadsLoop (level : BinaryLevel) (left : Expression) (ts : List Token) (e : Expression) (rest : List Token) :
    Prop :=
  ReadsAs (fun n => parseBinaryLoop S U n level left) ts e rest

abbrev ReadsComparison (ts : List Token) (e : Expression) (rest : List Token) : Prop :=
  ReadsAs (parseComparison S U) ts e rest

abbrev ReadsUnary (ts : List Token) (e : Expression) (rest : List Token) : Prop :=
  ReadsAs (parseUnary S U) ts e rest

abbrev ReadsPrimary (ts : List Token) (e : Expression) (rest : List Token) : Prop :=
  ReadsAs (parsePrimary S U) ts e rest

variable {S U}

/-! ## Levels -/

section Levels

variable {level : BinaryLevel} {ts rest rest' : List Token} {t : Token} {e left right : Expression}

/-- An operand and what the level makes of it. -/
theorem ReadsOperand.binary (h : ReadsOperand S U level ts left rest) (hloop : ReadsLoop S U level left rest e rest') :
    ReadsBinary S U level ts e rest' :=
  ReadsAs.of_succ (fun _ => rfl) (ReadsAs.bind h hloop)

/-- The level ends before a token that is none of its operators. -/
theorem ReadsLoop.stop (ht : level.operator t = none) : ReadsLoop S U level e (t :: rest) e (t :: rest) :=
  ReadsAs.of_eq fun n => by
    rw [parseBinaryLoop]
    dsimp only
    rw [ht]

/-- An operator and its right operand. -/
theorem ReadsLoop.step {op : BinaryOp} (ht : level.operator t = some op) (hright : ReadsOperand S U level ts right rest)
    (hloop : ReadsLoop S U level (.binaryOp left op right) rest e rest') :
    ReadsLoop S U level left (t :: ts) e rest' := by
  have hbody : ∀ n, parseBinaryLoop S U (n + 1) level left (t :: ts) =
      (parseOperand S U n level ts >>= fun r =>
        parseBinaryLoop S U n level (.binaryOp left op r.1) r.2) := by
    intro n
    rw [parseBinaryLoop, ht]
  exact ReadsAs.of_succ hbody (ReadsAs.bind hright hloop)

/-- The operands of `OR` are the level of `AND`. -/
theorem ReadsBinary.operand_or (h : ReadsBinary S U .and ts e rest) : ReadsOperand S U .or ts e rest :=
  ReadsAs.of_succ (fun _ => rfl) h

theorem ReadsComparison.operand_and (h : ReadsComparison S U ts e rest) : ReadsOperand S U .and ts e rest :=
  ReadsAs.of_succ (fun _ => rfl) h

theorem ReadsBinary.operand_additive (h : ReadsBinary S U .multiplicative ts e rest) :
    ReadsOperand S U .additive ts e rest :=
  ReadsAs.of_succ (fun _ => rfl) h

theorem ReadsUnary.operand_multiplicative (h : ReadsUnary S U ts e rest) :
    ReadsOperand S U .multiplicative ts e rest :=
  ReadsAs.of_succ (fun _ => rfl) h

/-- An operand before a token that is no operator of the level. -/
theorem ReadsOperand.alone (h : ReadsOperand S U level ts e (t :: rest)) (ht : level.operator t = none) :
    ReadsBinary S U level ts e (t :: rest) :=
  h.binary (ReadsLoop.stop ht)

end Levels

/-! ## Comparisons -/

section Comparison

variable {ts rest rest' : List Token} {t : Token} {e left right : Expression}

/-- A token that compares what is before it. -/
def Token.compares (t : Token) : Bool :=
  (comparisonOperator t).isSome || t == .keyword .starts || t == .keyword .ends || t == .keyword .is

/-- A comparison level without a comparison. -/
theorem ReadsBinary.comparison (h : ReadsBinary S U .additive ts e (t :: rest)) (ht : t.compares = false) :
    ReadsComparison S U ts e (t :: rest) := by
  refine ReadsAs.of_succ (fun _ => rfl) (ReadsAs.bind h (WithFuel.of_forall fun n => ?_))
  simp only [Token.compares, Bool.or_eq_false_iff, Option.isSome_eq_false_iff, Option.isNone_iff_eq_none,
    beq_eq_false_iff_ne] at ht
  obtain ⟨⟨⟨hop, hstarts⟩, hends⟩, his⟩ := ht
  split
  rename_i left ts heq
  cases heq
  split
  · rename_i heq
    exact absurd (List.cons.inj heq).1 hstarts
  · rename_i heq
    exact absurd (List.cons.inj heq).1 hends
  · rename_i heq
    exact absurd (List.cons.inj heq).1 his
  · rename_i heq
    cases heq
    rw [hop]
    rfl
  · rename_i heq
    cases heq

/-- A comparison with an operator of one token. -/
theorem ReadsBinary.compare {op : BinaryOp} (h : ReadsBinary S U .additive ts left (t :: rest))
    (ht : comparisonOperator t = some op) (hright : ReadsBinary S U .additive rest right rest') :
    ReadsComparison S U ts (.binaryOp left op right) rest' := by
  have hrest : WithFuel (fun n => parseBinary S U n .additive rest >>= fun r =>
      Except.ok (Expression.binaryOp left op r.1, r.2)) (· = .ok (Expression.binaryOp left op right, rest')) :=
    ReadsAs.bind hright (WithFuel.of_forall fun _ => rfl)
  refine ReadsAs.of_succ (fun _ => rfl) (ReadsAs.bind h ?_)
  unfold comparisonOperator at ht
  split at ht <;> cases ht <;> exact hrest

end Comparison

/-! ## Unary operators and primary expressions -/

section Unary

variable {ts rest rest' : List Token} {t : Token} {e : Expression}

theorem ReadsUnary.not (h : ReadsUnary S U ts e rest) :
    ReadsUnary S U (.keyword .not :: ts) (.unaryOp .not e) rest :=
  ReadsAs.of_succ (fun _ => rfl) (ReadsAs.bind h (WithFuel.of_forall fun _ => rfl))

theorem ReadsUnary.neg (h : ReadsUnary S U ts e rest) : ReadsUnary S U (.dash :: ts) (.unaryOp .neg e) rest :=
  ReadsAs.of_succ (fun _ => rfl) (ReadsAs.bind h (WithFuel.of_forall fun _ => rfl))

/-- A primary expression without an operator before it and a bracket after it. -/
theorem ReadsPrimary.unary (h : ReadsPrimary S U ts e (t :: rest)) (hnot : ts.head? ≠ some (.keyword .not))
    (hdash : ts.head? ≠ some .dash) (ht : t ≠ .lBracket) : ReadsUnary S U ts e (t :: rest) := by
  have hloop : ReadsAs (fun n => parseSubscripts S U n e) (t :: rest) e (t :: rest) :=
    ReadsAs.of_eq fun n => parseSubscripts.eq_3 S U e (t :: rest) n fun ts heq => ht (List.cons.inj heq).1
  have hbody : ∀ n, parseUnary S U (n + 1) ts =
      (parsePrimary S U n ts >>= fun r => parseSubscripts S U n r.1 r.2) := by
    intro n
    refine parseUnary.eq_4 S U ts n ?_ ?_
    · rintro ts' rfl
      exact hnot rfl
    · rintro ts' rfl
      exact hdash rfl
  exact ReadsAs.of_succ hbody (ReadsAs.bind h hloop)

/-- A literal of one token. -/
theorem ReadsPrimary.literal {l : Literal} (h : parseLiteral (t :: ts) = .ok (l, ts)) :
    ReadsPrimary S U (t :: ts) (.literal l) ts := by
  refine ReadsAs.of_eq fun n => ?_
  have hne : ∀ {t' : Token} {ts' : List Token}, t :: ts = t' :: ts' →
      (∀ r, parseLiteral (t' :: ts') ≠ .ok r) → False := fun heq hno => hno _ (heq ▸ h)
  rw [parsePrimary.eq_11, h]
  · exact fun ts' heq => hne heq fun r hr => by cases hr
  · exact fun name ts' heq => hne heq fun r hr => by cases hr
  · exact fun name ts' heq => hne heq fun r hr => by cases hr
  · exact fun ts' heq => hne heq fun r hr => by cases hr
  · exact fun ts' heq => hne heq fun r hr => by cases hr
  · exact fun ts' heq => hne heq fun r hr => by cases hr
  · exact fun ts' heq => hne heq fun r hr => by cases hr

/-- A name before a token that makes it no call, no subquery and no property. -/
theorem ReadsPrimary.variable_ (name : String) (hparen : t ≠ .lParen) (hbrace : t ≠ .lBrace) (hdot : t ≠ .dot) :
    ReadsPrimary S U (.ident name :: t :: ts) (.variable name) (t :: ts) := by
  refine ReadsAs.of_eq fun n => ?_
  rw [parsePrimary.eq_5]
  · unfold parseName tryConsumeDotProperty
    split
    · rename_i heq
      exact absurd (List.cons.inj heq).1 hdot
    · rfl
  · exact fun ts' heq => hparen (List.cons.inj heq).1
  · exact fun ts' heq => hbrace (List.cons.inj heq).1

/-- A name, a dot and a token that stands for a name. -/
theorem ReadsPrimary.property (name : String) {property : String} (ht : t.asName = some property) :
    ReadsPrimary S U (.ident name :: .dot :: t :: ts) (.property name property) ts := by
  refine ReadsAs.of_eq fun n => ?_
  rw [parsePrimary.eq_5]
  · simp only [parseName, tryConsumeDotProperty, expectIdentOrKeyword, ht]
    rfl
  · exact fun ts' heq => by cases heq
  · exact fun ts' heq => by cases heq

end Unary

/-! ## Whole expressions -/

section Expression

variable {ts rest rest' : List Token} {t : Token} {e : Expression}

/-- A token that continues no expression. -/
structure Token.Stops (t : Token) : Prop where
  operator : ∀ level : BinaryLevel, level.operator t = none
  compares : t.compares = false
  bracket : t ≠ .lBracket

theorem ReadsUnary.expression (h : ReadsUnary S U ts e (t :: rest)) (ht : t.Stops) :
    ReadsBinary S U .or ts e (t :: rest) :=
  have hmultiplicative := h.operand_multiplicative.alone (ht.operator _)
  have hadditive := hmultiplicative.operand_additive.alone (ht.operator _)
  have hand := (hadditive.comparison ht.compares).operand_and.alone (ht.operator _)
  hand.operand_or.alone (ht.operator _)

/-- A variable is an expression. -/
theorem readsExpression_variable (name : String) (ht : t.Stops) (hparen : t ≠ .lParen) (hbrace : t ≠ .lBrace)
    (hdot : t ≠ .dot) : ReadsBinary S U .or (.ident name :: t :: ts) (.variable name) (t :: ts) :=
  ((ReadsPrimary.variable_ name hparen hbrace hdot).unary (by simp) (by simp) ht.bracket).expression ht

end Expression

/-! ## Properties -/

section Properties

variable {ts ts' rest : List Token} {t : Token} {key : String} {value : Expression} {props : HashMap String Expression}

/-- The last entry of a property map. -/
theorem ReadsAs.lastProperty (props : HashMap String Expression) (hkey : parsePropertyKey ts = .ok (key, .colon :: ts'))
    (hvalue : ReadsBinary S U .or ts' value (t :: rest)) (ht : t ≠ .comma) :
    ReadsAs (fun n => parsePropertiesLoop S U n props) ts (AList.insert key value props) (t :: rest) := by
  have hbody : ∀ n, parseBinary S U n .or ts' = .ok (value, t :: rest) →
      parsePropertiesLoop S U (n + 1) props ts = .ok (AList.insert key value props, t :: rest) := by
    intro n hread
    rw [parsePropertiesLoop, hkey]
    have hcolon : expectToken .colon ":" (.colon :: ts') = .ok ((), ts') := rfl
    have hread : parseExpression S U n ts' = .ok (value, t :: rest) := hread
    simp only [Bind.bind, Except.bind, hcolon, hread]
    split
    · rename_i heq
      exact absurd (List.cons.inj heq).1 ht
    · rfl
  exact WithFuel.succ_of hvalue hbody

/-- A property map that is not empty. -/
theorem ReadsAs.properties (h : ReadsAs (fun n => parsePropertiesLoop S U n ∅) ts props (.rBrace :: rest))
    (hts : ∀ ts', ts = .rBrace :: ts' → False) : ReadsAs (parseProperties S U) (.lBrace :: ts) props rest := by
  have hbody : ∀ n, parseProperties S U n (.lBrace :: ts) = (parsePropertiesLoop S U n ∅ ts >>= fun r =>
      expectToken .rBrace (String.singleton (Char.ofNat 125)) r.2 >>= fun r' => .ok (r.1, r'.2)) := by
    intro n
    cases ts with
    | nil => rfl
    | cons t ts =>
      cases t with
      | rBrace => exact (hts ts rfl).elim
      | _ => rfl
  refine WithFuel.mono (Q := (· = .ok (props, rest))) ?_ fun r hr => hr
  simp only [hbody]
  exact WithFuel.bind_ok h (WithFuel.of_forall fun _ => rfl)

end Properties

end Maharit
