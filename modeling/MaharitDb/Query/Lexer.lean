import MaharitDb.Core.PropertyValue

/-!
# Tokens

The lexer of `maharit-query/src/lexer.rs` on lists of characters.  Positions in the text are left out.  What the
standard library knows about characters and decimal numbers enters through `CharTables`.
-/

namespace Maharit

/-! ## Tokens -/

/-- The keywords. -/
inductive Keyword where
  | create | match_ | where_ | return_ | delete | set | detach | and | or
  | not | true_ | false_ | null | order | by_ | asc | desc | limit
  | skip | distinct | nulls | first | last | optional | with_ | as | case_
  | when | then_ | else_ | end_ | union | all | merge | remove | unwind
  | on | constraint | require | unique | show | drop | for_ | foreach | is
  | explain | profile | contains | fulltext | index | user | password | role | alter
  | starts | ends | normalized | in_ | call | yield
  deriving DecidableEq, Repr

namespace Keyword

/-- All keywords. -/
def all_ : List Keyword :=
  [.create, .match_, .where_, .return_, .delete, .set, .detach, .and, .or,
   .not, .true_, .false_, .null, .order, .by_, .asc, .desc, .limit,
   .skip, .distinct, .nulls, .first, .last, .optional, .with_, .as, .case_,
   .when, .then_, .else_, .end_, .union, .all, .merge, .remove, .unwind,
   .on, .constraint, .require, .unique, .show, .drop, .for_, .foreach, .is,
   .explain, .profile, .contains, .fulltext, .index, .user, .password, .role, .alter,
   .starts, .ends, .normalized, .in_, .call, .yield]

/-- The spelling in capitals. -/
def upper : Keyword → String
  | .create => "CREATE"
  | .match_ => "MATCH"
  | .where_ => "WHERE"
  | .return_ => "RETURN"
  | .delete => "DELETE"
  | .set => "SET"
  | .detach => "DETACH"
  | .and => "AND"
  | .or => "OR"
  | .not => "NOT"
  | .true_ => "TRUE"
  | .false_ => "FALSE"
  | .null => "NULL"
  | .order => "ORDER"
  | .by_ => "BY"
  | .asc => "ASC"
  | .desc => "DESC"
  | .limit => "LIMIT"
  | .skip => "SKIP"
  | .distinct => "DISTINCT"
  | .nulls => "NULLS"
  | .first => "FIRST"
  | .last => "LAST"
  | .optional => "OPTIONAL"
  | .with_ => "WITH"
  | .as => "AS"
  | .case_ => "CASE"
  | .when => "WHEN"
  | .then_ => "THEN"
  | .else_ => "ELSE"
  | .end_ => "END"
  | .union => "UNION"
  | .all => "ALL"
  | .merge => "MERGE"
  | .remove => "REMOVE"
  | .unwind => "UNWIND"
  | .on => "ON"
  | .constraint => "CONSTRAINT"
  | .require => "REQUIRE"
  | .unique => "UNIQUE"
  | .show => "SHOW"
  | .drop => "DROP"
  | .for_ => "FOR"
  | .foreach => "FOREACH"
  | .is => "IS"
  | .explain => "EXPLAIN"
  | .profile => "PROFILE"
  | .contains => "CONTAINS"
  | .fulltext => "FULLTEXT"
  | .index => "INDEX"
  | .user => "USER"
  | .password => "PASSWORD"
  | .role => "ROLE"
  | .alter => "ALTER"
  | .starts => "STARTS"
  | .ends => "ENDS"
  | .normalized => "NORMALIZED"
  | .in_ => "IN"
  | .call => "CALL"
  | .yield => "YIELD"

/-- `keyword_as_ident`: the spelling in small letters. -/
def lower (k : Keyword) : String := String.ofList (k.upper.toList.map Char.toLower)

end Keyword

/-- `lookup_keyword`. -/
def lookupKeyword (upper : String) : Option Keyword := Keyword.all_.find? fun k => k.upper == upper

/-- `TokenKind`. -/
inductive Token where
  | keyword (k : Keyword)
  | parameter (name : String)
  | ident (name : String)
  | int (n : Int64)
  | float (x : F64)
  | string (s : String)
  | eq | neq | lt | gt | lte | gte | regexMatch
  | plus | plusEquals | star | slash
  | lParen | rParen | lBracket | rBracket | lBrace | rBrace
  | colon | comma | dot | pipe
  /-- `->` -/
  | arrow
  /-- `<-` -/
  | arrowLeft
  | dash
  | eof
  deriving DecidableEq, Repr

/-- `LexerError`, without the position. -/
inductive LexerError where
  | unexpectedChar (c : Char)
  | unterminatedString
  | invalidNumber
  deriving DecidableEq, Repr

/-- Facts about characters and numbers that the standard library knows. -/
structure CharTables where
  /-- `char::is_alphanumeric`. -/
  isAlphanumeric : Char → Bool
  /-- `char::is_whitespace`. -/
  isWhitespace : Char → Bool
  /-- `str::to_uppercase`. -/
  toUppercase : String → String
  /-- `str::parse::<f64>`. -/
  parseF64 : String → Option F64
  isAlphanumeric_ascii : ∀ c : Char, c.toNat < 128 → isAlphanumeric c = c.isAlphanum
  isWhitespace_ascii : ∀ c : Char, c.toNat < 128 →
    isWhitespace c = (c.toNat == 32 || (9 ≤ c.toNat && c.toNat ≤ 13))
  isWhitespace_of_isAlphanumeric : ∀ c : Char, isAlphanumeric c = true → isWhitespace c = false
  toUppercase_ascii : ∀ s : String, (∀ c ∈ s.toList, c.toNat < 128) →
    toUppercase s = String.ofList (s.toList.map Char.toUpper)

namespace Lexer

/-- The quotes and the escape character. -/
def doubleQuote : Char := Char.ofNat 34

def singleQuote : Char := Char.ofNat 39

def backslash : Char := Char.ofNat 92

def newline : Char := Char.ofNat 10

variable (U : CharTables)

/-! ## Whitespace and comments -/

/-- What follows a block comment; one that is not ended runs to the end. -/
def skipBlockComment : List Char → List Char
  | '*' :: '/' :: cs => cs
  | _ :: cs => skipBlockComment cs
  | [] => []

lemma length_skipBlockComment_le (cs : List Char) : (skipBlockComment cs).length ≤ cs.length := by
  induction cs using skipBlockComment.induct with
  | case1 cs => simp [skipBlockComment]; omega
  | case2 c cs hne ih =>
    rw [skipBlockComment.eq_2 _ _ hne]
    exact ih.trans (Nat.le_succ _)
  | case3 => simp [skipBlockComment]

/-- `skip_whitespace`. -/
def skipWhitespace (cs : List Char) : List Char :=
  match _h : cs.dropWhile U.isWhitespace with
  | '/' :: '/' :: rest => skipWhitespace (rest.dropWhile fun c => c ≠ newline)
  | '/' :: '*' :: rest => skipWhitespace (skipBlockComment rest)
  | rest => rest
termination_by cs.length
decreasing_by
  · have hle := (List.dropWhile_suffix (l := cs) U.isWhitespace).length_le
    have hle' := (List.dropWhile_suffix (l := rest) fun c => c ≠ newline).length_le
    rw [_h, List.length_cons, List.length_cons] at hle
    omega
  · have hle := (List.dropWhile_suffix (l := cs) U.isWhitespace).length_le
    have hle' := length_skipBlockComment_le rest
    rw [_h, List.length_cons, List.length_cons] at hle
    omega

/-! ## One token -/

/-- The characters of a name after the first one. -/
def isNameChar (c : Char) : Bool := U.isAlphanumeric c || c == '_'

/-- The first character of a name. -/
def isNameStart (c : Char) : Bool :=
  ('a' ≤ c && c ≤ 'z') || ('A' ≤ c && c ≤ 'Z') || c == '_'

/-- A name is a keyword, whatever its case, or an identifier. -/
def nameToken (name : String) : Token :=
  match lookupKeyword (U.toUppercase name) with
  | some k => .keyword k
  | none => .ident name

/-- `read_ident`. -/
def readIdent (cs : List Char) : Token × List Char :=
  (nameToken U (String.ofList (cs.takeWhile (isNameChar U))), cs.dropWhile (isNameChar U))

/-- An integer without a sign. -/
def intToken (digits : List Char) : Except LexerError Token :=
  let n := Nat.ofDigitChars 10 digits 0
  if n < 2 ^ 63 then .ok (.int (Int64.ofNat n)) else .error .invalidNumber

/-- A number with a dot. -/
def floatToken (text : List Char) : Except LexerError Token :=
  match U.parseF64 (String.ofList text) with
  | some x => .ok (.float x)
  | none => .error .invalidNumber

/-- `read_number`.  A dot belongs to the number at the end of the text and before a digit. -/
def readNumber (cs : List Char) : Except LexerError (Token × List Char) :=
  let digits := cs.takeWhile Char.isDigit
  match cs.dropWhile Char.isDigit with
  | ['.'] => return (← floatToken U (digits ++ ['.']), [])
  | '.' :: c :: rest =>
      if c.isDigit then
        return (← floatToken U (digits ++ '.' :: (c :: rest).takeWhile Char.isDigit),
          (c :: rest).dropWhile Char.isDigit)
      else return (← intToken digits, '.' :: c :: rest)
  | rest => return (← intToken digits, rest)

/-- The character an escape stands for. -/
def unescape (c : Char) : Char :=
  if c = 'n' then newline else if c = 't' then Char.ofNat 9 else c

/-- `read_string`, after the opening quote. -/
def readString (quote : Char) : List Char → Except LexerError (List Char × List Char)
  | [] => .error .unterminatedString
  | c :: cs =>
      if c = quote then .ok ([], cs)
      else if c = backslash then
        match cs with
        | [] => .error .unterminatedString
        | e :: cs => do
            let (value, rest) ← readString quote cs
            return (unescape e :: value, rest)
      else do
        let (value, rest) ← readString quote cs
        return (c :: value, rest)

/-- A token that one character decides, after that character; the longer one where there are two. -/
def symbol : Char → List Char → Option (Token × List Char)
  | '=', '~' :: cs => some (.regexMatch, cs)
  | '=', cs => some (.eq, cs)
  | '<', '>' :: cs => some (.neq, cs)
  | '<', '=' :: cs => some (.lte, cs)
  | '<', '-' :: cs => some (.arrowLeft, cs)
  | '<', cs => some (.lt, cs)
  | '>', '=' :: cs => some (.gte, cs)
  | '>', cs => some (.gt, cs)
  | '+', '=' :: cs => some (.plusEquals, cs)
  | '+', cs => some (.plus, cs)
  | '-', '>' :: cs => some (.arrow, cs)
  | '-', cs => some (.dash, cs)
  | '*', cs => some (.star, cs)
  | '/', cs => some (.slash, cs)
  | '(', cs => some (.lParen, cs)
  | ')', cs => some (.rParen, cs)
  | '[', cs => some (.lBracket, cs)
  | ']', cs => some (.rBracket, cs)
  | ':', cs => some (.colon, cs)
  | ',', cs => some (.comma, cs)
  | '.', cs => some (.dot, cs)
  | '|', cs => some (.pipe, cs)
  | c, cs =>
      if c = Char.ofNat 123 then some (.lBrace, cs)
      else if c = Char.ofNat 125 then some (.rBrace, cs)
      else none

/-- `next_token`. -/
def nextToken (cs : List Char) : Except LexerError (Token × List Char) :=
  match skipWhitespace U cs with
  | [] => .ok (.eof, [])
  | c :: cs =>
      if isNameStart c then .ok (readIdent U (c :: cs))
      else if c.isDigit then readNumber U (c :: cs)
      else if c = doubleQuote ∨ c = singleQuote then do
        let (value, rest) ← readString c cs
        return (.string (String.ofList value), rest)
      else if c = '$' then
        let name := cs.takeWhile (isNameChar U)
        if name = [] then .error (.unexpectedChar c)
        else .ok (.parameter (String.ofList name), cs.dropWhile (isNameChar U))
      else
        match symbol c cs with
        | some r => .ok r
        | none => .error (.unexpectedChar c)

/-- The tokens of the text, up to the end; every token but the last one takes a character. -/
def tokenizeFrom : ℕ → List Char → Except LexerError (List Token)
  | 0, _ => .ok []
  | n + 1, cs => do
      let (token, rest) ← nextToken U cs
      if token = .eof then return [token]
      else return token :: (← tokenizeFrom n rest)

/-- `tokenize`. -/
def tokenize (text : String) : Except LexerError (List Token) :=
  tokenizeFrom U (text.toList.length + 1) text.toList

end Lexer

end Maharit
