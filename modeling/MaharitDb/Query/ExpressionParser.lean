import MaharitDb.Lib.AssocMap
import MaharitDb.Query.Ast
import MaharitDb.Query.Lexer

/-!
# Parsing expressions

The expression grammar of `maharit-query/src/parser.rs`, one function for each of its levels, on lists of
tokens.  Lists, maps, `CASE`, quantifiers, functions and subqueries are read by a function of `OtherSyntax`.
Positions are left out of the errors.  The functions take a bound on the number of nested calls.
-/

namespace Maharit

/-- `ParseError`, without the position; and the end of the bound on calls. -/
inductive ParseError where
  | unexpectedToken (expected : String) (found : Token)
  | unexpectedEof
  | lexerError (e : LexerError)
  | tooDeep
  deriving DecidableEq, Repr

/-- What a parser reads and the tokens that are left, or an error. -/
abbrev Parse := Except ParseError

/-- The syntax that this model leaves open. -/
structure OtherSyntax where
  /-- `parse_properties`. -/
  properties : List Token → Parse (List (String × Expression) × List Token)
  /-- `parse_primary` on lists, maps, `CASE`, and names that are followed by a parenthesis or a subquery. -/
  primary : List Token → Parse (Expression × List Token)

/-- `unexpected_token`. -/
def unexpectedToken (expected : String) : List Token → ParseError
  | t :: _ => .unexpectedToken expected t
  | [] => .unexpectedEof

/-- `expect` of a token without a value. -/
def expectToken (t : Token) (spelling : String) : List Token → Parse (Unit × List Token)
  | t' :: ts => if t' = t then .ok ((), ts) else .error (.unexpectedToken spelling t')
  | [] => .error .unexpectedEof

/-- The name a token stands for where keywords are names. -/
def Token.asName : Token → Option String
  | .ident name => some name
  | .keyword k => some k.lower
  | _ => none

/-- `expect_ident_or_keyword`. -/
def expectIdentOrKeyword (ts : List Token) : Parse (String × List Token) :=
  match ts with
  | t :: ts' =>
      match t.asName with
      | some name => .ok (name, ts')
      | none => .error (.unexpectedToken "identifier" t)
  | [] => .error .unexpectedEof

/-! ## Patterns -/

variable (S : OtherSyntax)

/-- An optional name. -/
def optionalIdent : List Token → Option String × List Token
  | .ident name :: ts => (some name, ts)
  | ts => (none, ts)

/-- The labels of a node pattern; every label takes two tokens. -/
def parseLabels : ℕ → List Token → Parse (List String × List Token)
  | n + 1, .colon :: ts => do
      let (label, ts) ← expectIdentOrKeyword ts
      let (labels, ts) ← parseLabels n ts
      return (label :: labels, ts)
  | _, ts => .ok ([], ts)

/-- The optional properties of a pattern. -/
def optionalProperties : List Token → Parse (List (String × Expression) × List Token)
  | .lBrace :: ts => S.properties (.lBrace :: ts)
  | ts => .ok ([], ts)

/-- `parse_node_pattern`. -/
def parseNodePattern (ts : List Token) : Parse (NodePattern Expression × List Token) := do
  let (_, ts) ← expectToken .lParen "(" ts
  let (var, ts) := optionalIdent ts
  let (labels, ts) ← parseLabels ts.length ts
  let (properties, ts) ← optionalProperties S ts
  let (_, ts) ← expectToken .rParen ")" ts
  return ({ var := var, labels := labels, properties := properties }, ts)

/-- `is_edge_start`. -/
def isEdgeStart : List Token → Bool
  | .dash :: _ => true
  | .arrowLeft :: _ => true
  | _ => false

/-- `as u32`. -/
def lengthBound (n : Int64) : UInt32 := UInt32.ofNat (n.toInt % 2 ^ 32).toNat

/-- `parse_length_range`. -/
def parseLengthRange (ts : List Token) : Parse (LengthRange × List Token) :=
  let (min, ts) : Option Int64 × List Token :=
    match ts with
    | .int n :: ts => (some n, ts)
    | ts => (none, ts)
  let least := (min.map lengthBound).getD 1
  match ts with
  | .dot :: ts => do
      let (_, ts) ← expectToken .dot "." ts
      match ts with
      | .int n :: ts => return ({ min := least, max := some (lengthBound n) }, ts)
      | ts => return ({ min := least, max := none }, ts)
  | ts => .ok ({ min := least, max := min.map lengthBound }, ts)

/-- The details of a relationship pattern in brackets, without its direction. -/
def parseEdgeDetails (direction : EdgeDirection) (ts : List Token) : Parse (EdgePattern Expression × List Token) :=
  match ts with
  | .lBracket :: ts => do
      let (var, ts) := optionalIdent ts
      let (edgeType, ts) ←
        match ts with
        | .colon :: ts => do
            let (name, ts) ← expectIdentOrKeyword ts
            pure (some name, ts)
        | ts => pure (none, ts)
      let (lengthRange, ts) ←
        match ts with
        | .star :: ts => do
            let (range, ts) ← parseLengthRange ts
            pure (some range, ts)
        | ts => pure (none, ts)
      let (properties, ts) ← optionalProperties S ts
      let (_, ts) ← expectToken .rBracket "]" ts
      return ({ var := var, edgeType := edgeType, properties := properties, direction := direction,
                lengthRange := lengthRange }, ts)
  | ts => .ok ({ var := none, edgeType := none, properties := [], direction := direction,
                 lengthRange := none }, ts)

/-- `parse_edge_pattern`. -/
def parseEdgePattern (ts : List Token) : Parse (EdgePattern Expression × List Token) :=
  match ts with
  | .arrowLeft :: ts => do
      let (edge, ts) ← parseEdgeDetails S .incoming ts
      let (_, ts) ← expectToken .dash "-" ts
      return (edge, ts)
  | ts => do
      let (_, ts) ← expectToken .dash "-" ts
      let (edge, ts) ← parseEdgeDetails S .outgoing ts
      match ts with
      | .arrow :: ts => return (edge, ts)
      | .dash :: ts => return ({ edge with direction := .both }, ts)
      | ts => throw (unexpectedToken "-> or -" ts)

/-- The hops of a path. -/
def parseSegments : ℕ → List Token → Parse (List (PathSegment Expression) × List Token)
  | 0, _ => .error .tooDeep
  | n + 1, ts =>
      if isEdgeStart ts then do
        let (edge, ts) ← parseEdgePattern S ts
        let (node, ts) ← parseNodePattern S ts
        let (segments, ts) ← parseSegments n ts
        return (⟨edge, node⟩ :: segments, ts)
      else .ok ([], ts)

/-! ## Operators -/

/-- The levels of left-associative operators. -/
inductive BinaryLevel where
  | or | and | additive | multiplicative
  deriving DecidableEq, Repr

/-- The operator of a level that a token is. -/
def BinaryLevel.operator : BinaryLevel → Token → Option BinaryOp
  | .or, .keyword .or => some .or
  | .and, .keyword .and => some .and
  | .additive, .plus => some .add
  | .additive, .dash => some .sub
  | .multiplicative, .star => some .mul
  | .multiplicative, .slash => some .div
  | _, _ => none

/-- The comparison that one token is. -/
def comparisonOperator : Token → Option BinaryOp
  | .eq => some .eq
  | .neq => some .neq
  | .lt => some .lt
  | .gt => some .gt
  | .lte => some .lte
  | .gte => some .gte
  | .regexMatch => some .regex
  | .keyword .contains => some .contains
  | .keyword .in_ => some .in_
  | _ => none

/-- What follows `IS`. -/
def parseIs (left : Expression) (ts : List Token) : Parse (Expression × List Token) :=
  match ts with
  | .keyword .not :: .keyword .null :: ts => .ok (.unaryOp .isNotNull left, ts)
  | .keyword .null :: ts => .ok (.unaryOp .isNull left, ts)
  | .keyword .normalized :: ts => .ok (.unaryOp .isNormalized left, ts)
  | .keyword .not :: ts => .error (unexpectedToken "NULL, NOT NULL or NORMALIZED" ts)
  | ts => .error (unexpectedToken "NULL, NOT NULL or NORMALIZED" ts)

/-- `parse_literal`. -/
def parseLiteral (ts : List Token) : Parse (Literal × List Token) :=
  match ts with
  | .int n :: ts => .ok (.int n, ts)
  | .float x :: ts => .ok (.float x, ts)
  | .string s :: ts => .ok (.string s, ts)
  | .keyword .true_ :: ts => .ok (.bool true, ts)
  | .keyword .false_ :: ts => .ok (.bool false, ts)
  | .keyword .null :: ts => .ok (.null, ts)
  | t :: _ => .error (.unexpectedToken "literal" t)
  | [] => .error .unexpectedEof

/-- `try_consume_dot_property`. -/
def tryConsumeDotProperty (ts : List Token) : Parse (Option String × List Token) :=
  match ts with
  | .dot :: ts => do
      let (name, ts) ← expectIdentOrKeyword ts
      return (some name, ts)
  | ts => .ok (none, ts)

/-- A name that no parenthesis and no subquery follows: a variable or a property. -/
def parseName (name : String) (ts : List Token) : Parse (Expression × List Token) := do
  match ← tryConsumeDotProperty ts with
  | (some property, ts) => return (.property name property, ts)
  | (none, ts) => return (.variable name, ts)

/-- The names that a brace makes a subquery. -/
def isSubqueryName (U : CharTables) (name : String) : Bool :=
  U.toUppercase name ∈ ["EXISTS", "COUNT", "COLLECT"]

/-! ## Expressions -/

variable (U : CharTables)

mutual

/-- A level of left-associative operators. -/
def parseBinary : ℕ → BinaryLevel → List Token → Parse (Expression × List Token)
  | 0, _, _ => .error .tooDeep
  | n + 1, level, ts => do
      let (left, ts) ← parseOperand n level ts
      parseBinaryLoop n level left ts

/-- The loop of a level. -/
def parseBinaryLoop : ℕ → BinaryLevel → Expression → List Token → Parse (Expression × List Token)
  | 0, _, _, _ => .error .tooDeep
  | n + 1, level, left, ts =>
      match ts with
      | t :: ts' =>
          match level.operator t with
          | some op => do
              let (right, ts) ← parseOperand n level ts'
              parseBinaryLoop n level (.binaryOp left op right) ts
          | none => .ok (left, ts)
      | [] => .ok (left, ts)

/-- The operands of a level: the next level. -/
def parseOperand : ℕ → BinaryLevel → List Token → Parse (Expression × List Token)
  | 0, _, _ => .error .tooDeep
  | n + 1, .or, ts => parseBinary n .and ts
  | n + 1, .and, ts => parseComparison n ts
  | n + 1, .additive, ts => parseBinary n .multiplicative ts
  | n + 1, .multiplicative, ts => parseUnary n ts

/-- `parse_comparison`; a comparison is not compared again. -/
def parseComparison : ℕ → List Token → Parse (Expression × List Token)
  | 0, _ => .error .tooDeep
  | n + 1, ts => do
      let (left, ts) ← parseBinary n .additive ts
      match ts with
      | .keyword .starts :: ts => do
          let (_, ts) ← expectToken (.keyword .with_) "WITH" ts
          let (right, ts) ← parseBinary n .additive ts
          return (.binaryOp left .startsWith right, ts)
      | .keyword .ends :: ts => do
          let (_, ts) ← expectToken (.keyword .with_) "WITH" ts
          let (right, ts) ← parseBinary n .additive ts
          return (.binaryOp left .endsWith right, ts)
      | .keyword .is :: ts => parseIs left ts
      | t :: ts' =>
          match comparisonOperator t with
          | some op => do
              let (right, ts) ← parseBinary n .additive ts'
              return (.binaryOp left op right, ts)
          | none => return (left, ts)
      | [] => return (left, ts)

/-- `parse_unary`. -/
def parseUnary : ℕ → List Token → Parse (Expression × List Token)
  | 0, _ => .error .tooDeep
  | n + 1, .keyword .not :: ts => do
      let (operand, ts) ← parseUnary n ts
      return (.unaryOp .not operand, ts)
  | n + 1, .dash :: ts => do
      let (operand, ts) ← parseUnary n ts
      return (.unaryOp .neg operand, ts)
  | n + 1, ts => do
      let (e, ts) ← parsePrimary n ts
      parseSubscripts n e ts

/-- The loop of `parse_postfix`. -/
def parseSubscripts : ℕ → Expression → List Token → Parse (Expression × List Token)
  | 0, _, _ => .error .tooDeep
  | n + 1, e, .lBracket :: ts => do
      let (start, ts) ← parseBinary n .or ts
      match ts with
      | .dot :: ts => do
          -- The second dot is not checked.
          let (stop, ts) ← parseBinary n .or (ts.drop 1)
          let (_, ts) ← expectToken .rBracket "]" ts
          parseSubscripts n (.listSlice e start stop) ts
      | ts => do
          let (_, ts) ← expectToken .rBracket "]" ts
          parseSubscripts n (.indexAccess e start) ts
  | _ + 1, e, ts => .ok (e, ts)

/-- `parse_primary`.  A parenthesis is first read as a node pattern. -/
def parsePrimary : ℕ → List Token → Parse (Expression × List Token)
  | 0, _ => .error .tooDeep
  | n + 1, .lParen :: ts =>
      match parseNodePattern S (.lParen :: ts) with
      | .ok (start, rest) =>
          if isEdgeStart rest then do
            let (segments, rest) ← parseSegments S n rest
            return (.patternPredicate
              [.path { var := none, start := start, segments := segments, shortest := none }], rest)
          else if !start.labels.isEmpty || !start.properties.isEmpty then
            .ok (.patternPredicate [.node start], rest)
          else do
            let (e, ts) ← parseBinary n .or ts
            let (_, ts) ← expectToken .rParen ")" ts
            return (e, ts)
      | .error _ => do
          let (e, ts) ← parseBinary n .or ts
          let (_, ts) ← expectToken .rParen ")" ts
          return (e, ts)
  | _ + 1, .ident name :: ts =>
      match ts with
      | .lParen :: _ => S.primary (.ident name :: ts)
      | .lBrace :: _ =>
          if isSubqueryName U name then S.primary (.ident name :: ts) else parseName name ts
      | ts => parseName name ts
  | _ + 1, .parameter name :: ts => .ok (.parameter name, ts)
  | _ + 1, .lBracket :: ts => S.primary (.lBracket :: ts)
  | _ + 1, .lBrace :: ts => S.primary (.lBrace :: ts)
  | _ + 1, .keyword .case_ :: ts => S.primary (.keyword .case_ :: ts)
  | _ + 1, .keyword .all :: ts => S.primary (.keyword .all :: ts)
  | _ + 1, ts =>
      match parseLiteral ts with
      | .ok (lit, rest) => .ok (.literal lit, rest)
      | .error _ => .error (unexpectedToken "expression" ts)

end

/-- `parse_or_expression`. -/
def parseOrExpression (n : ℕ) (ts : List Token) : Parse (Expression × List Token) := parseBinary S U n .or ts

/-- `parse_and_expression`. -/
def parseAndExpression (n : ℕ) (ts : List Token) : Parse (Expression × List Token) := parseBinary S U n .and ts

/-- `parse_additive`. -/
def parseAdditive (n : ℕ) (ts : List Token) : Parse (Expression × List Token) := parseBinary S U n .additive ts

/-- `parse_multiplicative`. -/
def parseMultiplicative (n : ℕ) (ts : List Token) : Parse (Expression × List Token) :=
  parseBinary S U n .multiplicative ts

/-- `parse_expression`. -/
def parseExpression (n : ℕ) (ts : List Token) : Parse (Expression × List Token) := parseOrExpression S U n ts

/-! ## Properties -/

/-- `parse_property_key`. -/
def parsePropertyKey (ts : List Token) : Parse (String × List Token) :=
  match ts with
  | .string key :: ts => .ok (key, ts)
  | ts => expectIdentOrKeyword ts

/-- The loop of `parse_properties`. -/
def parsePropertiesLoop : ℕ → HashMap String Expression → List Token → Parse (HashMap String Expression × List Token)
  | 0, _, _ => .error .tooDeep
  | n + 1, props, ts => do
      let (key, ts) ← parsePropertyKey ts
      let (_, ts) ← expectToken .colon ":" ts
      let (value, ts) ← parseExpression S U n ts
      match ts with
      | .comma :: ts => parsePropertiesLoop n (AList.insert key value props) ts
      | ts => return (AList.insert key value props, ts)

/-- `parse_properties`. -/
def parseProperties (n : ℕ) (ts : List Token) : Parse (HashMap String Expression × List Token) := do
  let (_, ts) ← expectToken .lBrace (String.singleton (Char.ofNat 123)) ts
  let (props, ts) ← match ts with
    | .rBrace :: _ => pure (∅, ts)
    | ts => parsePropertiesLoop S U n ∅ ts
  let (_, ts) ← expectToken .rBrace (String.singleton (Char.ofNat 125)) ts
  return (props, ts)

/-- The expression that a text is, up to its end. -/
def parseText (n : ℕ) (text : String) : Except ParseError Expression :=
  match Lexer.tokenize U text with
  | .error e => .error (.lexerError e)
  | .ok tokens =>
      match parseExpression S U n tokens with
      | .ok (e, [.eof]) => .ok e
      | .ok (_, rest) => .error (unexpectedToken "end of query" rest)
      | .error e => .error e

end Maharit
