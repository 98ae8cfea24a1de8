import MaharitDb.Query.ExpressionRules
import MaharitDb.Query.TokenText

/-!
# The spelling of names

Labels, relationship types, property keys and property accesses from the text to the syntax tree
(`maharit-query/src/lexer.rs`, `parser.rs`).  The lexer takes every word that is a keyword in some case for the
keyword, and the parser goes back to a name by the small letters of the keyword.
-/

namespace Maharit

open Lexer

section Words

variable (U : CharTables)

/-- The shape of a name: letters, digits and underscores, the first one no digit. -/
structure IsWord (w : String) : Prop where
  nonempty : w.toList ≠ []
  chars : ∀ c ∈ w.toList, isNameChar U c = true
  first : ∀ c ∈ w.toList.head?, c.isDigit = false

/-- The word begins with a letter of ASCII or an underscore. -/
def StartsName (w : String) : Prop := ∃ c ∈ w.toList.head?, isNameStart c = true

instance (w : String) : Decidable (StartsName w) :=
  decidable_of_iff (w.toList.head?.any isNameStart = true) (Option.any_eq_true ..)

/-- The name the parser makes of a word. -/
def nameOf (w : String) : String := ((lookupKeyword (U.toUppercase w)).map Keyword.lower).getD w

/-- A word that the parser keeps. -/
structure PlainName where
  text : String
  word : IsWord U text
  starts : StartsName text
  plain : lookupKeyword (U.toUppercase text) = none

variable {U}

lemma asName_nameToken (w : String) : (nameToken U w).asName = some (nameOf U w) := by
  unfold nameToken nameOf
  cases lookupKeyword (U.toUppercase w) <;> rfl

lemma nameOf_eq_self {w : String} (h : lookupKeyword (U.toUppercase w) = none) : nameOf U w = w := by
  unfold nameOf
  rw [h]
  rfl

@[simp] lemma PlainName.nameOf_text (x : PlainName U) : nameOf U x.text = x.text := nameOf_eq_self x.plain

lemma PlainName.nameToken_text (x : PlainName U) : nameToken U x.text = .ident x.text := by
  unfold nameToken
  rw [x.plain]

/-- A word in front of a text that does not go on with it. -/
lemma reads_word {w : String} {rest : List Char} {ts : List Token} (hw : IsWord U w) (hstart : StartsName w)
    (h : Reads U rest ts) (hend : ∀ c ∈ rest.head?, isNameChar U c = false) :
    Reads U (w.toList ++ rest) (nameToken U w :: ts) := by
  obtain ⟨c, hc, hcstart⟩ := hstart
  obtain ⟨cs, hcs⟩ : ∃ cs, w.toList = c :: cs := by
    cases hlist : w.toList with
    | nil => exact absurd hlist hw.nonempty
    | cons d ds =>
      rw [hlist] at hc
      cases hc
      exact ⟨ds, rfl⟩
  have hchars : ∀ d ∈ cs, isNameChar U d = true := fun d hd => hw.chars d (hcs ▸ List.mem_cons_of_mem c hd)
  have hword := Reads.word h hcstart hchars hend
  rwa [← hcs, String.ofList_toList] at hword

/-- A character of names that no name begins with is outside ASCII. -/
lemma unicode_of_nameChar {c : Char} (hname : isNameChar U c = true) (hdigit : c.isDigit = false)
    (hstart : isNameStart c = false) : 128 ≤ c.toNat := by
  by_contra hascii
  rw [← Bool.not_eq_true, isNameStart_iff] at hstart
  have hscore : c ≠ '_' := by
    rintro rfl
    exact hstart (by decide)
  simp only [isNameChar, U.isAlphanumeric_ascii c (by omega), Char.isAlphanum, hdigit, Bool.or_false,
    Bool.or_eq_true, beq_iff_eq, hscore, or_false, isAlpha_iff, isUpper_iff, isLower_iff] at hname
  rcases hname with hupper | hlower
  · exact hstart (Or.inr (Or.inl hupper))
  · exact hstart (Or.inl hlower)

/-- No symbol is written with a character outside ASCII. -/
lemma symbol_unicode {c : Char} (cs : List Char) (h : 128 ≤ c.toNat) : symbol c cs = none := by
  fun_cases symbol c cs
  all_goals first
    | rfl
    | exact absurd h (by decide)

/-- A word that begins with another character has no tokens. -/
lemma not_reads_word {w : String} {rest : List Char} {ts : List Token} (hw : IsWord U w) (hstart : ¬ StartsName w) :
    ¬ Reads U (w.toList ++ rest) ts := by
  obtain ⟨c, cs, hcs⟩ : ∃ c cs, w.toList = c :: cs := List.exists_cons_of_ne_nil hw.nonempty
  have hname : isNameChar U c = true := hw.chars c (by simp [hcs])
  have hdigit : c.isDigit = false := hw.first c (by simp [hcs])
  have hnostart : isNameStart c = false := by
    rw [Bool.eq_false_iff]
    exact fun h => hstart ⟨c, by simp [hcs], h⟩
  have hunicode : 128 ≤ c.toNat := unicode_of_nameChar hname hdigit hnostart
  have hne : ∀ d : Char, d.toNat < 128 → c ≠ d := by
    rintro d hd rfl
    omega
  have halnum : U.isAlphanumeric c = true := by
    simpa [isNameChar, hne '_' (by decide)] using hname
  have herror : nextToken U (w.toList ++ rest) = .error (.unexpectedChar c) := by
    unfold nextToken
    rw [hcs, List.cons_append, skipWhitespace_cons U c _ (U.isWhitespace_of_isAlphanumeric c halnum) (hne '/' (by decide))]
    simp [hnostart, hdigit, hne doubleQuote (by decide), hne singleQuote (by decide), hne '$' (by decide),
      symbol_unicode _ hunicode]
  intro h
  cases h with
  | eof h => rw [herror] at h; cases h
  | token h _ _ => rw [herror] at h; cases h

/-! ## Keywords -/

/-- Keywords are written with letters of ASCII. -/
lemma Keyword.ascii (k : Keyword) : ∀ c ∈ k.upper.toList ++ k.lower.toList, c.toNat < 128 := by
  have hall : (k.upper.toList ++ k.lower.toList).all (fun c => decide (c.toNat < 128)) = true := by
    cases k <;> decide +kernel
  exact fun c hc => of_decide_eq_true (List.all_eq_true.mp hall c hc)

lemma toUppercase_lower (k : Keyword) : U.toUppercase k.lower = k.upper := by
  rw [U.toUppercase_ascii k.lower fun c hc => k.ascii c (List.mem_append_right _ hc)]
  cases k <;> decide +kernel

lemma toUppercase_upper (k : Keyword) : U.toUppercase k.upper = k.upper := by
  rw [U.toUppercase_ascii k.upper fun c hc => k.ascii c (List.mem_append_left _ hc)]
  cases k <;> decide +kernel

lemma lookupKeyword_upper (k : Keyword) : lookupKeyword k.upper = some k := by
  cases k <;> decide +kernel

/-- The two spellings of a keyword differ. -/
lemma upper_ne_lower (k : Keyword) : k.upper ≠ k.lower := by
  cases k <;> decide +kernel

lemma startsName_upper (k : Keyword) : StartsName k.upper := by
  cases k <;> decide +kernel

lemma isWord_upper (k : Keyword) : IsWord U k.upper := by
  have hchars : k.upper.toList.all isNameStart = true := by cases k <;> decide +kernel
  have hne : k.upper.toList ≠ [] := by cases k <;> decide +kernel
  have hdigit : (k.upper.toList.head?.all fun c => !c.isDigit) = true := by cases k <;> decide +kernel
  refine ⟨hne, fun c hc => isNameChar_of_start U (List.all_eq_true.mp hchars c hc), fun c hc => ?_⟩
  rw [Option.mem_def.mp hc] at hdigit
  simpa using hdigit

end Words

/-! ## Positions of names -/

section Positions

variable (S : OtherSyntax) (U : CharTables)

/-- What the parser makes of a part of a query that has a name. -/
inductive NamedSyntax where
  | node (pattern : NodePattern Expression)
  | edge (pattern : EdgePattern Expression)
  | properties (props : HashMap String Expression)
  | expression (e : Expression)

/-- A place for a name in a query, with what is written around it. -/
inductive NamePosition where
  /-- `(v:l₁:…:name:…:lₙ)` -/
  | label (var : Option (PlainName U)) (before after : List (PlainName U))
  /-- `-[v:name]->`, `<-[v:name]-` or `-[v:name]-` -/
  | edgeType (var : Option (PlainName U)) (direction : EdgeDirection)
  /-- `{name:v}` -/
  | propertyKey (value : PlainName U)
  /-- `v.name` -/
  | propertyAccess (var : PlainName U)

variable {U}

/-- The text of an optional variable. -/
def optionalText (var : Option (PlainName U)) : List Char := (var.map fun x => x.text.toList).getD []

/-- The text of labels. -/
def labelsText (labels : List String) : List Char := labels.flatMap fun l => ':' :: l.toList

namespace NamePosition

/-- The part of the query, with a word for the name. -/
def text (w : String) : NamePosition U → List Char
  | label var before after =>
      '(' :: (optionalText var ++ labelsText (before.map PlainName.text ++ w :: after.map PlainName.text) ++ [')'])
  | edgeType var .incoming => '<' :: '-' :: '[' :: (optionalText var ++ labelsText [w] ++ [']', '-'])
  | edgeType var .outgoing => '-' :: '[' :: (optionalText var ++ labelsText [w] ++ [']', '-', '>'])
  | edgeType var .both => '-' :: '[' :: (optionalText var ++ labelsText [w] ++ [']', '-'])
  | propertyKey value => Char.ofNat 123 :: (w.toList ++ ':' :: value.text.toList ++ [Char.ofNat 125])
  | propertyAccess var => var.text.toList ++ '.' :: w.toList

/-- The syntax of the part of the query with a name. -/
def ast (name : String) : NamePosition U → NamedSyntax
  | label var before after =>
      .node { var := var.map PlainName.text,
              labels := before.map PlainName.text ++ name :: after.map PlainName.text, properties := [] }
  | edgeType var direction =>
      .edge { var := var.map PlainName.text, edgeType := some name, properties := [], direction := direction,
              lengthRange := none }
  | propertyKey value => .properties (AList.insert name (.variable value.text) ∅)
  | propertyAccess var => .expression (.property var.text name)

/-- The function of the parser that reads the part of the query. -/
def parse (position : NamePosition U) (n : ℕ) (ts : List Token) : Parse (NamedSyntax × List Token) :=
  match position with
  | label _ _ _ => (parseNodePattern S ts).map (Prod.map NamedSyntax.node id)
  | edgeType _ _ => (parseEdgePattern S ts).map (Prod.map NamedSyntax.edge id)
  | propertyKey _ => (parseProperties S U n ts).map (Prod.map NamedSyntax.properties id)
  | propertyAccess _ => (parsePrimary S U n ts).map (Prod.map NamedSyntax.expression id)

/-- The rest of the query does not go on with the last token of the part. -/
def EndsBefore (position : NamePosition U) (rest : List Char) : Prop :=
  match position with
  | edgeType _ .incoming => rest.head? ≠ some '>'
  | edgeType _ .both => rest.head? ≠ some '>'
  | propertyAccess _ => ∀ c ∈ rest.head?, isNameChar U c = false
  | _ => True

/-- In every query that has the part with this word, the parser makes the syntax of it and goes on with the rest. -/
def Yields (position : NamePosition U) (w : String) (a : NamedSyntax) : Prop :=
  ∀ rest ts, position.EndsBefore rest.toList → tokenize U rest = .ok ts →
    ∃ tokens, tokenize U (String.ofList (position.text w ++ rest.toList)) = .ok tokens ∧
      ReadsAs (position.parse S) tokens a ts

end NamePosition

/-- A name that can be written in a query: some token of some text stands for it. -/
def CanBeWritten (U : CharTables) (w : String) : Prop :=
  ∃ text tokens t, tokenize U text = .ok tokens ∧ t ∈ tokens ∧ t.asName = some w

/-- A word at a position is a name with its spelling. -/
structure KeepsSpelling (position : NamePosition U) (w : String) : Prop where
  /-- The name in the syntax tree is the word. -/
  spelling : position.Yields S w (position.ast w)
  /-- No other word gives the same syntax. -/
  distinct : ∀ w' a, IsWord U w' → position.Yields S w a → position.Yields S w' a → w' = w
  /-- Some query has the name. -/
  written : CanBeWritten U w

/-! ## Reading the parts of a query -/

variable {S}

/-- The tokens of an optional variable. -/
def optionalTokens (var : Option (PlainName U)) : List Token := (var.map fun x => Token.ident x.text).toList

/-- The tokens of labels. -/
def labelTokens (U : CharTables) (labels : List String) : List Token :=
  labels.flatMap fun l => [.colon, nameToken U l]

lemma reads_optional (var : Option (PlainName U)) {rest : List Char} {ts : List Token} (h : Reads U rest ts)
    (hend : ∀ c ∈ rest.head?, isNameChar U c = false) :
    Reads U (optionalText var ++ rest) (optionalTokens var ++ ts) := by
  cases var with
  | none => exact h
  | some x =>
    have hx := reads_word x.word x.starts h hend
    rw [x.nameToken_text] at hx
    exact hx

/-- No symbol is a character of names. -/
lemma not_isNameChar_ascii {c : Char} (hascii : c.toNat < 128) (halnum : c.isAlphanum = false) (hscore : c ≠ '_') :
    isNameChar U c = false := by
  simp [isNameChar, U.isAlphanumeric_ascii c hascii, halnum, hscore]

/-- A text that begins with a symbol goes on with no word. -/
lemma head_symbol {c : Char} (hascii : c.toNat < 128) (halnum : c.isAlphanum = false) (hscore : c ≠ '_')
    (rest : List Char) : ∀ d ∈ (c :: rest).head?, isNameChar U d = false := by
  intro d hd
  cases hd
  exact not_isNameChar_ascii hascii halnum hscore

lemma reads_labels {labels : List String} (hlabels : ∀ l ∈ labels, IsWord U l ∧ StartsName l) {rest : List Char}
    {ts : List Token} (h : Reads U rest ts) (hend : ∀ c ∈ rest.head?, isNameChar U c = false) :
    Reads U (labelsText labels ++ rest) (labelTokens U labels ++ ts) ∧
      ∀ c ∈ (labelsText labels ++ rest).head?, isNameChar U c = false := by
  induction labels with
  | nil => exact ⟨h, hend⟩
  | cons l labels ih =>
    obtain ⟨hrest, hend'⟩ := ih fun l' hl' => hlabels l' (List.mem_cons_of_mem l hl')
    obtain ⟨hword, hstart⟩ := hlabels l List.mem_cons_self
    have hl := reads_word hword hstart hrest hend'
    refine ⟨?_, ?_⟩
    · have hcolon := Reads.symbol hl (by decide : isSymbolChar ':' = true) (by decide) rfl
      simpa [labelsText, labelTokens, List.append_assoc] using hcolon
    · exact head_symbol (by decide) (by decide) (by decide) _

/-- The labels of a pattern are the names of its words. -/
lemma parseLabels_labelTokens (labels : List String) {t : Token} (ht : t ≠ .colon) (ts : List Token) {n : ℕ}
    (hn : labels.length ≤ n) :
    parseLabels n (labelTokens U labels ++ t :: ts) = .ok (labels.map (nameOf U), t :: ts) := by
  induction labels generalizing n with
  | nil =>
    show parseLabels n (t :: ts) = _
    cases n with
    | zero => rfl
    | succ n => exact parseLabels.eq_2 _ _ fun n' ts' _ heq => ht (List.cons.inj heq).1
  | cons l labels ih =>
    obtain ⟨n, rfl⟩ : ∃ k, n = k + 1 := ⟨n - 1, by simp at hn; omega⟩
    have hih := ih (n := n) (by simpa using hn)
    show parseLabels (n + 1) (.colon :: nameToken U l :: (labelTokens U labels ++ t :: ts)) = _
    rw [parseLabels]
    simp only [expectIdentOrKeyword, asName_nameToken]
    exact Except.bind_eq_ok.mpr ⟨_, rfl, Except.bind_eq_ok.mpr ⟨_, hih, rfl⟩⟩

/-- An optional variable in front of tokens that begin with no name. -/
lemma optionalIdent_optionalTokens (var : Option (PlainName U)) {ts : List Token}
    (hts : ∀ name ts', ts = .ident name :: ts' → False) :
    optionalIdent (optionalTokens var ++ ts) = (var.map PlainName.text, ts) := by
  cases var with
  | none => exact optionalIdent.eq_2 _ hts
  | some x => rfl

lemma labelTokens_append_ne_ident (labels : List String) {t : Token} (ht : ∀ name, t ≠ .ident name) (ts : List Token)
    (name : String) (ts' : List Token) : labelTokens U labels ++ t :: ts = .ident name :: ts' → False := by
  intro h
  cases labels with
  | nil => exact ht name (List.cons.inj h).1
  | cons l labels => cases (List.cons.inj h).1

variable (p : NamePosition U)

/-- The tokens of a part of a query with a word for the name. -/
def NamePosition.tokens (w : String) : NamePosition U → List Token
  | label var before after =>
      .lParen :: (optionalTokens var ++
        labelTokens U (before.map PlainName.text ++ w :: after.map PlainName.text) ++ [.rParen])
  | edgeType var .incoming => .arrowLeft :: .lBracket :: (optionalTokens var ++ labelTokens U [w] ++ [.rBracket, .dash])
  | edgeType var .outgoing => .dash :: .lBracket :: (optionalTokens var ++ labelTokens U [w] ++ [.rBracket, .arrow])
  | edgeType var .both => .dash :: .lBracket :: (optionalTokens var ++ labelTokens U [w] ++ [.rBracket, .dash])
  | propertyKey value => [.lBrace, nameToken U w, .colon, .ident value.text, .rBrace]
  | propertyAccess var => [.ident var.text, .dot, nameToken U w]

/-- The lexer goes through the part of the query when every word begins as a name. -/
lemma NamePosition.reads {w : String} (hw : IsWord U w) (hstart : StartsName w) {rest : List Char} {ts : List Token}
    (hend : p.EndsBefore rest) (h : Reads U rest ts) : Reads U (p.text w ++ rest) (p.tokens w ++ ts) := by
  have hplain : ∀ (names : List (PlainName U)), ∀ l ∈ names.map PlainName.text, IsWord U l ∧ StartsName l := by
    intro names l hl
    obtain ⟨x, -, rfl⟩ := List.mem_map.mp hl
    exact ⟨x.word, x.starts⟩
  cases p with
  | label var before after =>
    have hparen : Reads U (')' :: rest) (.rParen :: ts) := Reads.symbol h (by decide) (by decide) rfl
    have hlabels : ∀ l ∈ before.map PlainName.text ++ w :: after.map PlainName.text, IsWord U l ∧ StartsName l := by
      intro l hl
      rcases List.mem_append.mp hl with hl | hl
      · exact hplain before l hl
      · rcases List.mem_cons.mp hl with rfl | hl
        · exact ⟨hw, hstart⟩
        · exact hplain after l hl
    obtain ⟨hread, hend'⟩ := reads_labels hlabels hparen (head_symbol (by decide) (by decide) (by decide) _)
    have hopen := Reads.symbol (reads_optional var hread hend') (by decide : isSymbolChar '(' = true) (by decide) rfl
    simpa [NamePosition.text, NamePosition.tokens, List.append_assoc] using hopen
  | edgeType var direction =>
    have hword : ∀ l ∈ [w], IsWord U l ∧ StartsName l := by
      intro l hl
      rw [List.mem_singleton] at hl
      exact hl ▸ ⟨hw, hstart⟩
    have hbracket : ∀ {rest : List Char} {ts : List Token}, Reads U rest ts →
        Reads U ('[' :: (optionalText var ++ labelsText [w] ++ ']' :: rest))
          (.lBracket :: (optionalTokens var ++ labelTokens U [w] ++ .rBracket :: ts)) := by
      intro rest ts h
      have hclose : Reads U (']' :: rest) (.rBracket :: ts) := Reads.symbol h (by decide) (by decide) rfl
      obtain ⟨hread, hend'⟩ := reads_labels hword hclose (head_symbol (by decide) (by decide) (by decide) _)
      have hopen := Reads.symbol (reads_optional var hread hend') (by decide : isSymbolChar '[' = true) (by decide) rfl
      simpa [List.append_assoc] using hopen
    cases direction with
    | incoming =>
      have hdash : Reads U ('-' :: rest) (.dash :: ts) := h.dash hend
      have harrow : Reads U ('<' :: '-' :: _) (.arrowLeft :: _) :=
        Reads.symbol (hbracket hdash) (by decide) (by decide) rfl
      simpa [NamePosition.text, NamePosition.tokens, List.append_assoc] using harrow
    | outgoing =>
      have harrow : Reads U ('-' :: '>' :: rest) (.arrow :: ts) := Reads.symbol h (by decide) (by decide) rfl
      have hdash := Reads.dash (hbracket harrow) (by simp)
      simpa [NamePosition.text, NamePosition.tokens, List.append_assoc] using hdash
    | both =>
      have hdash : Reads U ('-' :: rest) (.dash :: ts) := h.dash hend
      have hdash' := Reads.dash (hbracket hdash) (by simp)
      simpa [NamePosition.text, NamePosition.tokens, List.append_assoc] using hdash'
  | propertyKey value =>
    have hbrace : Reads U (Char.ofNat 125 :: rest) (.rBrace :: ts) := Reads.symbol h (by decide) (by decide) rfl
    have hvalue := reads_word value.word value.starts hbrace (head_symbol (by decide) (by decide) (by decide) _)
    have hcolon := Reads.symbol hvalue (by decide : isSymbolChar ':' = true) (by decide) rfl
    have hkey := reads_word hw hstart hcolon (head_symbol (by decide) (by decide) (by decide) _)
    have hopen := Reads.symbol hkey (by decide : isSymbolChar (Char.ofNat 123) = true) (by decide) rfl
    rw [value.nameToken_text] at hopen
    simpa [NamePosition.text, NamePosition.tokens, List.append_assoc] using hopen
  | propertyAccess var =>
    have hname := reads_word hw hstart h hend
    have hdot := Reads.symbol hname (by decide : isSymbolChar '.' = true) (by decide) rfl
    have hvar := reads_word var.word var.starts hdot (head_symbol (by decide) (by decide) (by decide) _)
    rw [var.nameToken_text] at hvar
    simpa [NamePosition.text, NamePosition.tokens, List.append_assoc] using hvar

/-! ## Parsing the parts of a query -/

lemma length_le_labelTokens (labels : List String) : labels.length ≤ (labelTokens U labels).length := by
  induction labels with
  | nil => exact Nat.le_refl 0
  | cons l labels ih =>
    show labels.length + 1 ≤ (labelTokens U labels).length + 2
    omega

lemma parseNodePattern_labels (var : Option (PlainName U)) (labels : List String) (ts : List Token) :
    parseNodePattern S (.lParen :: (optionalTokens var ++ (labelTokens U labels ++ .rParen :: ts))) =
      .ok ({ var := var.map PlainName.text, labels := labels.map (nameOf U), properties := [] }, ts) := by
  have hvar := optionalIdent_optionalTokens var
    (labelTokens_append_ne_ident (U := U) labels (t := .rParen) (fun name => by simp) ts)
  have hlength : labels.length ≤ (labelTokens U labels ++ .rParen :: ts).length := by
    rw [List.length_append]
    exact (length_le_labelTokens labels).trans (Nat.le_add_right _ _)
  have hlabels := parseLabels_labelTokens (U := U) labels (t := .rParen) (by decide) ts hlength
  simp only [parseNodePattern, expectToken, if_true, bind, Except.bind, hvar, hlabels]
  rfl

lemma parseEdgeDetails_type (var : Option (PlainName U)) (w : String) (direction : EdgeDirection) (ts : List Token) :
    parseEdgeDetails S direction (.lBracket :: (optionalTokens var ++ (labelTokens U [w] ++ .rBracket :: ts))) =
      .ok ({ var := var.map PlainName.text, edgeType := some (nameOf U w), properties := [], direction := direction,
             lengthRange := none }, ts) := by
  have hvar := optionalIdent_optionalTokens var
    (labelTokens_append_ne_ident (U := U) [w] (t := .rBracket) (fun name => by simp) ts)
  have hname : expectIdentOrKeyword (nameToken U w :: .rBracket :: ts) = .ok (nameOf U w, .rBracket :: ts) := by
    simp only [expectIdentOrKeyword, asName_nameToken]
  simp only [parseEdgeDetails, hvar]
  exact Except.bind_eq_ok.mpr ⟨_, hname, rfl⟩

lemma NamePosition.readsAs (w : String) (ts : List Token) :
    ReadsAs (p.parse S) (p.tokens w ++ ts) (p.ast (nameOf U w)) ts := by
  have hplain : ∀ names : List (PlainName U), (names.map PlainName.text).map (nameOf U) = names.map PlainName.text := by
    intro names
    rw [List.map_map]
    exact List.map_congr_left fun x _ => x.nameOf_text
  cases p with
  | label var before after =>
    refine WithFuel.of_forall fun n => ?_
    have hparse := parseNodePattern_labels (S := S) var
      (before.map PlainName.text ++ w :: after.map PlainName.text) ts
    rw [List.map_append, List.map_cons, hplain, hplain] at hparse
    simp only [NamePosition.parse, NamePosition.tokens, List.cons_append, List.append_assoc, List.nil_append, hparse]
    rfl
  | edgeType var direction =>
    refine WithFuel.of_forall fun n => ?_
    cases direction with
    | incoming =>
      have hdetails := parseEdgeDetails_type (S := S) var w .incoming (.dash :: ts)
      have hparse : parseEdgePattern S (.arrowLeft :: .lBracket ::
          (optionalTokens var ++ (labelTokens U [w] ++ .rBracket :: .dash :: ts))) = .ok (_, ts) :=
        Except.bind_eq_ok.mpr ⟨_, hdetails, rfl⟩
      simp only [NamePosition.parse, NamePosition.tokens, List.cons_append, List.append_assoc, List.nil_append, hparse]
      rfl
    | outgoing =>
      have hdetails := parseEdgeDetails_type (S := S) var w .outgoing (.arrow :: ts)
      have hparse : parseEdgePattern S (.dash :: .lBracket ::
          (optionalTokens var ++ (labelTokens U [w] ++ .rBracket :: .arrow :: ts))) = .ok (_, ts) :=
        Except.bind_eq_ok.mpr ⟨_, hdetails, rfl⟩
      simp only [NamePosition.parse, NamePosition.tokens, List.cons_append, List.append_assoc, List.nil_append, hparse]
      rfl
    | both =>
      have hdetails := parseEdgeDetails_type (S := S) var w .outgoing (.dash :: ts)
      have hparse : parseEdgePattern S (.dash :: .lBracket ::
          (optionalTokens var ++ (labelTokens U [w] ++ .rBracket :: .dash :: ts))) = .ok (_, ts) :=
        Except.bind_eq_ok.mpr ⟨_, hdetails, rfl⟩
      simp only [NamePosition.parse, NamePosition.tokens, List.cons_append, List.append_assoc, List.nil_append, hparse]
      rfl
  | propertyKey value =>
    have hstops : Token.Stops .rBrace := ⟨fun level => by cases level <;> rfl, rfl, by decide⟩
    have hvalue : ReadsBinary S U .or (.ident value.text :: .rBrace :: ts) (.variable value.text) (.rBrace :: ts) :=
      readsExpression_variable value.text hstops (by decide) (by decide) (by decide)
    have hkey : ∀ ts', parsePropertyKey (nameToken U w :: ts') = .ok (nameOf U w, ts') := by
      intro ts'
      rw [parsePropertyKey.eq_2]
      · simp only [expectIdentOrKeyword, asName_nameToken]
      · intro key ts'' heq
        have hname := asName_nameToken (U := U) w
        rw [(List.cons.inj heq).1] at hname
        cases hname
    have hloop := ReadsAs.lastProperty (S := S) (U := U) ∅ (hkey _) hvalue (by decide)
    have hprops := ReadsAs.properties (S := S) (U := U) hloop fun ts' heq => by
      have hname := asName_nameToken (U := U) w
      rw [(List.cons.inj heq).1] at hname
      cases hname
    refine WithFuel.map hprops (f := fun r => r.map (Prod.map NamedSyntax.properties id)) fun r hr => ?_
    rw [hr]
    rfl
  | propertyAccess var =>
    have haccess : ReadsPrimary S U (.ident var.text :: .dot :: nameToken U w :: ts) _ ts :=
      ReadsPrimary.property var.text (asName_nameToken w)
    refine WithFuel.map haccess (f := fun r => r.map (Prod.map NamedSyntax.expression id)) fun r hr => ?_
    rw [hr]
    rfl

/-! ## Words without tokens -/

/-- A token in front of a text without tokens. -/
lemma not_reads_of_nextToken {cs rest : List Char} {t : Token} (hnext : nextToken U cs = .ok (t, rest)) (ht : t ≠ .eof)
    (hrest : ∀ ts, ¬ Reads U rest ts) (ts : List Token) : ¬ Reads U cs ts := by
  intro h
  cases h with
  | eof h =>
    rw [hnext] at h
    cases h
    exact ht rfl
  | token h _ hread =>
    rw [hnext] at h
    cases h
    exact hrest _ hread

/-- A plain name in front of a text without tokens. -/
lemma not_reads_plain (x : PlainName U) {rest : List Char} (hend : ∀ c ∈ rest.head?, isNameChar U c = false)
    (hrest : ∀ ts, ¬ Reads U rest ts) (ts : List Token) : ¬ Reads U (x.text.toList ++ rest) ts := by
  obtain ⟨c, cs, hcs⟩ : ∃ c cs, x.text.toList = c :: cs := List.exists_cons_of_ne_nil x.word.nonempty
  have hstart : isNameStart c = true := by
    obtain ⟨d, hd, hdstart⟩ := x.starts
    rw [hcs] at hd
    cases hd
    exact hdstart
  have hchars : ∀ d ∈ cs, isNameChar U d = true := fun d hd => x.word.chars d (hcs ▸ List.mem_cons_of_mem c hd)
  rw [hcs]
  exact not_reads_of_nextToken (nextToken_word U hstart hchars hend) (nameToken_ne_eof _) hrest ts

lemma not_reads_optional (var : Option (PlainName U)) {rest : List Char}
    (hend : ∀ c ∈ rest.head?, isNameChar U c = false) (hrest : ∀ ts, ¬ Reads U rest ts) (ts : List Token) :
    ¬ Reads U (optionalText var ++ rest) ts := by
  cases var with
  | none => exact hrest ts
  | some x => exact not_reads_plain x hend hrest ts

/-- Labels without tokens after labels with plain names. -/
lemma not_reads_labels (names : List (PlainName U)) {rest : List Char}
    (hrest : ∀ ts, ¬ Reads U (':' :: rest) ts) (ts : List Token) :
    ¬ Reads U (labelsText (names.map PlainName.text) ++ ':' :: rest) ts := by
  induction names generalizing ts with
  | nil => exact hrest ts
  | cons x names ih =>
    have hend : ∀ c ∈ (labelsText (names.map PlainName.text) ++ ':' :: rest).head?, isNameChar U c = false := by
      cases names with
      | nil => exact head_symbol (by decide) (by decide) (by decide) _
      | cons y names => exact head_symbol (by decide) (by decide) (by decide) _
    have hname := not_reads_plain x hend ih
    have hcolon := not_reads_of_nextToken (nextToken_symbol U (by decide : isSymbolChar ':' = true) rfl) (by decide)
      hname ts
    simpa [labelsText, List.append_assoc] using hcolon

/-- A part of a query with a word that begins with another character has no tokens. -/
lemma NamePosition.not_reads {w : String} (hw : IsWord U w) (hstart : ¬ StartsName w) (rest : List Char)
    (ts : List Token) : ¬ Reads U (p.text w ++ rest) ts := by
  have hcolon : ∀ (rest : List Char) (ts : List Token), ¬ Reads U (':' :: (w.toList ++ rest)) ts := fun rest ts =>
    not_reads_of_nextToken (nextToken_symbol U (by decide) rfl) (by decide) (fun ts => not_reads_word hw hstart) ts
  cases p with
  | label var before after =>
    have hlabels := not_reads_labels before
      (hcolon (labelsText (after.map PlainName.text) ++ ')' :: rest))
    have hend : ∀ c ∈ (labelsText (before.map PlainName.text) ++
        ':' :: (w.toList ++ (labelsText (after.map PlainName.text) ++ ')' :: rest))).head?, isNameChar U c = false := by
      cases before with
      | nil => exact head_symbol (by decide) (by decide) (by decide) _
      | cons y names => exact head_symbol (by decide) (by decide) (by decide) _
    have hopen := not_reads_of_nextToken (nextToken_symbol U (by decide : isSymbolChar '(' = true) rfl) (by decide)
      (not_reads_optional var hend hlabels) ts
    simpa [NamePosition.text, labelsText, List.append_assoc] using hopen
  | edgeType var direction =>
    have hbracket : ∀ (rest : List Char) (ts : List Token),
        ¬ Reads U ('[' :: (optionalText var ++ ':' :: (w.toList ++ rest))) ts := fun rest ts =>
      not_reads_of_nextToken (nextToken_symbol U (by decide) rfl) (by decide)
        (not_reads_optional var (head_symbol (by decide) (by decide) (by decide) _) (hcolon rest)) ts
    have hdash : ∀ (rest : List Char) (ts : List Token),
        ¬ Reads U ('-' :: '[' :: (optionalText var ++ ':' :: (w.toList ++ rest))) ts := fun rest ts =>
      not_reads_of_nextToken (nextToken_symbol U (by decide) rfl) (by decide) (hbracket rest) ts
    have harrow : ∀ (rest : List Char) (ts : List Token),
        ¬ Reads U ('<' :: '-' :: '[' :: (optionalText var ++ ':' :: (w.toList ++ rest))) ts := fun rest ts =>
      not_reads_of_nextToken (nextToken_symbol U (by decide) rfl) (by decide) (hbracket rest) ts
    cases direction with
    | incoming => simpa [NamePosition.text, labelsText, List.append_assoc] using harrow (']' :: '-' :: rest) ts
    | outgoing => simpa [NamePosition.text, labelsText, List.append_assoc] using hdash (']' :: '-' :: '>' :: rest) ts
    | both => simpa [NamePosition.text, labelsText, List.append_assoc] using hdash (']' :: '-' :: rest) ts
  | propertyKey value =>
    have hkey : ∀ ts, ¬ Reads U (w.toList ++ ':' :: (value.text.toList ++ Char.ofNat 125 :: rest)) ts := fun ts =>
      not_reads_word hw hstart
    have hopen := not_reads_of_nextToken (nextToken_symbol U (by decide : isSymbolChar (Char.ofNat 123) = true) rfl)
      (by decide) hkey ts
    simpa [NamePosition.text, List.append_assoc] using hopen
  | propertyAccess var =>
    have hdot : ∀ ts, ¬ Reads U ('.' :: (w.toList ++ rest)) ts := fun ts =>
      not_reads_of_nextToken (nextToken_symbol U (by decide) rfl) (by decide) (fun ts => not_reads_word hw hstart) ts
    have hvar := not_reads_plain var (head_symbol (by decide) (by decide) (by decide) _) hdot ts
    simpa [NamePosition.text, List.append_assoc] using hvar

/-! ## Which words are kept -/

lemma NamePosition.ast_injective : Function.Injective fun name => p.ast name := by
  intro a b h
  cases p with
  | label var before after => simpa [NamePosition.ast] using h
  | edgeType var direction => simpa [NamePosition.ast] using h
  | propertyKey value =>
    simp only [NamePosition.ast, NamedSyntax.properties.injEq] at h
    have hmem : a ∈ AList.insert a (Expression.variable value.text) (∅ : HashMap String Expression) :=
      (AList.mem_insert _).mpr (Or.inl rfl)
    rw [h] at hmem
    rcases (AList.mem_insert _).mp hmem with h | h
    · exact h
    · exact absurd h (AList.notMem_empty a)
  | propertyAccess var => simpa [NamePosition.ast] using h

/-- A word that begins as a name gives the name that the parser makes of it. -/
lemma NamePosition.yields_nameOf {w : String} (hw : IsWord U w) (hstart : StartsName w) :
    p.Yields S w (p.ast (nameOf U w)) := by
  intro rest ts hend hrest
  have hread := p.reads hw hstart hend (tokenize_eq_ok_iff.mp hrest)
  refine ⟨p.tokens w ++ ts, tokenize_eq_ok_iff.mpr ?_, p.readsAs w ts⟩
  rw [String.toList_ofList]
  exact hread

/-- The syntax of a part of a query is decided by its text. -/
lemma NamePosition.Yields.eq {w : String} {a : NamedSyntax} (h : p.Yields S w a) (hw : IsWord U w) :
    StartsName w ∧ a = p.ast (nameOf U w) := by
  have hend : p.EndsBefore [] := by
    cases p with
    | edgeType var direction => cases direction <;> simp [NamePosition.EndsBefore]
    | _ => simp [NamePosition.EndsBefore]
  have heof : tokenize U "" = .ok [.eof] := tokenize_eq_ok_iff.mpr reads_nil
  obtain ⟨tokens, htokens, hparse⟩ := h "" [.eof] hend heof
  have hread := tokenize_eq_ok_iff.mp htokens
  rw [String.toList_ofList] at hread
  have hstart : StartsName w := by
    by_contra hno
    exact p.not_reads hw hno _ _ hread
  refine ⟨hstart, ?_⟩
  obtain ⟨tokens', htokens', hparse'⟩ := p.yields_nameOf (S := S) hw hstart "" [.eof] hend heof
  rw [htokens] at htokens'
  cases htokens'
  obtain ⟨n, hn, hn'⟩ := (hparse.and hparse').exists_bound
  rw [hn] at hn'
  cases hn'
  rfl

/-- The syntax has the word exactly when the word begins as a name and is the name the parser makes of it. -/
theorem NamePosition.yields_iff {w : String} (hw : IsWord U w) :
    p.Yields S w (p.ast w) ↔ StartsName w ∧ nameOf U w = w := by
  constructor
  · intro h
    obtain ⟨hstart, heq⟩ := h.eq p hw
    exact ⟨hstart, (p.ast_injective heq).symm⟩
  · rintro ⟨hstart, hname⟩
    have hyields := p.yields_nameOf (S := S) hw hstart
    rwa [hname] at hyields

/-- Two words with one syntax have one name. -/
theorem NamePosition.Yields.nameOf_eq {w w' : String} {a : NamedSyntax} (h : p.Yields S w a) (h' : p.Yields S w' a)
    (hw : IsWord U w) (hw' : IsWord U w') : nameOf U w = nameOf U w' :=
  p.ast_injective ((h.eq p hw).2.symm.trans (h'.eq p hw').2)

/-- A word that begins as a name can be written with its name. -/
lemma canBeWritten_nameOf {w : String} (hw : IsWord U w) (hstart : StartsName w) : CanBeWritten U (nameOf U w) := by
  have hread := reads_word hw hstart reads_nil (by simp)
  rw [List.append_nil] at hread
  exact ⟨w, _, nameToken U w, tokenize_eq_ok_iff.mpr hread, List.mem_cons_self, asName_nameToken w⟩

/-- A word that keeps its spelling is no keyword in any case. -/
lemma KeepsSpelling.plain {w : String} (hw : IsWord U w) (h : KeepsSpelling S p w) :
    StartsName w ∧ lookupKeyword (U.toUppercase w) = none := by
  obtain ⟨hstart, hname⟩ := (p.yields_iff hw).mp h.spelling
  refine ⟨hstart, Option.eq_none_iff_forall_ne_some.mpr fun k hk => ?_⟩
  have hlower : k.lower = w := by
    unfold nameOf at hname
    rw [hk] at hname
    exact hname
  have hupper : nameOf U k.upper = w := by
    unfold nameOf
    rw [toUppercase_upper, lookupKeyword_upper]
    exact hlower
  -- The keyword in capitals is another word with the same name.
  have hyields := p.yields_nameOf (S := S) (isWord_upper k) (startsName_upper k)
  rw [hupper] at hyields
  have heq : k.upper = w := h.distinct k.upper _ (isWord_upper k) h.spelling hyields
  exact upper_ne_lower k (heq.trans hlower.symm)

/-- A word keeps its spelling exactly when it begins with a letter of ASCII or an underscore and is in no case a
keyword. -/
theorem keepsSpelling_iff {w : String} (hw : IsWord U w) :
    KeepsSpelling S p w ↔ StartsName w ∧ lookupKeyword (U.toUppercase w) = none := by
  refine ⟨KeepsSpelling.plain p hw, ?_⟩
  rintro ⟨hstart, hplain⟩
  have hname : nameOf U w = w := nameOf_eq_self hplain
  refine ⟨(p.yields_iff hw).mpr ⟨hstart, hname⟩, ?_, ?_⟩
  · intro w' a hw' h h'
    have heq : nameOf U w = nameOf U w' := h.nameOf_eq p h' hw hw'
    rw [hname] at heq
    cases hk : lookupKeyword (U.toUppercase w') with
    | none => exact (nameOf_eq_self hk).symm.trans heq.symm
    | some k =>
      -- The name of a keyword is the keyword again.
      have hlower : w = k.lower := by
        rw [heq, nameOf, hk]
        rfl
      rw [hlower, toUppercase_lower, lookupKeyword_upper] at hplain
      cases hplain
  · have hwritten := canBeWritten_nameOf hw hstart
    rwa [hname] at hwritten

end Positions

/-! ## A keyword as a label -/

/-- No letter and no digit of ASCII is white space. -/
lemma not_whitespace_of_isAlphanum {c : Char} (h : c.isAlphanum = true) :
    (c.toNat == 32 || (9 ≤ c.toNat && c.toNat ≤ 13)) = false := by
  have hdigit : c.isDigit = true ↔ 48 ≤ c.toNat ∧ c.toNat ≤ 57 :=
    Bool.and_eq_true_iff.trans (and_congr (decide_eq_true_iff.trans UInt32.le_iff_toNat_le)
      (decide_eq_true_iff.trans UInt32.le_iff_toNat_le))
  rw [Char.isAlphanum, Bool.or_eq_true, isAlpha_iff, isUpper_iff, isLower_iff, hdigit] at h
  rw [Bool.eq_false_iff]
  simp only [ne_eq, Bool.or_eq_true, beq_iff_eq, Bool.and_eq_true, decide_eq_true_eq]
  omega

/-- The tables on texts of ASCII, without numbers with a dot. -/
def asciiTables : CharTables where
  isAlphanumeric c := c.isAlphanum
  isWhitespace c := c.toNat == 32 || (9 ≤ c.toNat && c.toNat ≤ 13)
  toUppercase s := String.ofList (s.toList.map Char.toUpper)
  parseF64 _ := none
  isAlphanumeric_ascii _ _ := rfl
  isWhitespace_ascii _ _ := rfl
  isWhitespace_of_isAlphanumeric _ := not_whitespace_of_isAlphanum
  toUppercase_ascii _ _ := rfl

/-- Syntax in which nothing else is read. -/
def noOtherSyntax : OtherSyntax where
  properties ts := .error (unexpectedToken "properties" ts)
  primary ts := .error (unexpectedToken "expression" ts)

instance (w : String) : Decidable (IsWord asciiTables w) :=
  decidable_of_iff (w.toList ≠ [] ∧ w.toList.all (isNameChar asciiTables) = true ∧
    (w.toList.head?.all fun c => !c.isDigit) = true) <| by
      constructor
      · rintro ⟨hne, hchars, hdigit⟩
        refine ⟨hne, List.all_eq_true.mp hchars, fun c hc => ?_⟩
        rw [Option.mem_def.mp hc] at hdigit
        simpa using hdigit
      · intro h
        refine ⟨h.nonempty, List.all_eq_true.mpr h.chars, ?_⟩
        cases hhead : w.toList.head? with
        | none => rfl
        | some c => simp [h.first c hhead]

theorem keepsSpelling_iff_person :
    KeepsSpelling noOtherSyntax (.label none [] [] : NamePosition asciiTables) "Person" ↔
      StartsName "Person" ∧ lookupKeyword (asciiTables.toUppercase "Person") = none :=
  keepsSpelling_iff (U := asciiTables) (.label none [] []) (by decide +kernel)

/-- `MATCH (:User)` has the label `user`. -/
theorem not_keepsSpelling_user :
    ¬ ∀ (p : NamePosition asciiTables) (w : String), IsWord asciiTables w → KeepsSpelling noOtherSyntax p w := by
  intro h
  have hword : IsWord asciiTables "User" := by decide +kernel
  have hplain := (h (.label none [] []) "User" hword).plain _ hword
  exact absurd hplain.2 (by decide +kernel)

end Maharit
