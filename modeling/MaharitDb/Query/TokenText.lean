import MaharitDb.Lib.ExceptList
import MaharitDb.Query.Lexer

/-!
# Texts and their tokens

How the lexer goes through a text from left to right.  `Reads` says which tokens a list of characters has, without
a bound on their number, and is what `tokenize` computes.  A blank, a symbol or a word in front of a text puts its
token in front of the tokens of the text.
-/

namespace Maharit

namespace Lexer

variable (U : CharTables)

/-! ## Whitespace -/

lemma length_skipWhitespace_le (cs : List Char) : (skipWhitespace U cs).length ≤ cs.length := by
  fun_induction skipWhitespace U cs with
  | case1 cs rest h ih =>
    have hle := (List.dropWhile_suffix (l := cs) U.isWhitespace).length_le
    have hle' := (List.dropWhile_suffix (l := rest) fun c => c ≠ newline).length_le
    rw [h, List.length_cons, List.length_cons] at hle
    omega
  | case2 cs rest h ih =>
    have hle := (List.dropWhile_suffix (l := cs) U.isWhitespace).length_le
    have hle' := length_skipBlockComment_le rest
    rw [h, List.length_cons, List.length_cons] at hle
    omega
  | case3 cs => exact (List.dropWhile_suffix (l := cs) U.isWhitespace).length_le

lemma skipWhitespace_cons (c : Char) (cs : List Char) (hspace : U.isWhitespace c = false) (hslash : c ≠ '/') :
    skipWhitespace U (c :: cs) = c :: cs := by
  have hdrop : (c :: cs).dropWhile U.isWhitespace = c :: cs := List.dropWhile_cons_of_neg (by simp [hspace])
  rw [skipWhitespace.eq_1]
  split
  · rename_i rest h
    rw [hdrop] at h
    exact absurd (List.cons.inj h).1 hslash
  · rename_i rest h
    rw [hdrop] at h
    exact absurd (List.cons.inj h).1 hslash
  · exact hdrop

/-- What follows the whitespace decides whether a comment is skipped. -/
def skipComment (cs : List Char) : List Char :=
  match cs with
  | '/' :: '/' :: rest => skipWhitespace U (rest.dropWhile fun c => c ≠ newline)
  | '/' :: '*' :: rest => skipWhitespace U (skipBlockComment rest)
  | rest => rest

lemma skipWhitespace_eq (cs : List Char) : skipWhitespace U cs = skipComment U (cs.dropWhile U.isWhitespace) := by
  rw [skipWhitespace.eq_1]
  split
  · rename_i h
    rw [h]
    rfl
  · rename_i h
    rw [h]
    rfl
  · rename_i h h'
    rw [skipComment.eq_3 _ _ h h']

lemma skipWhitespace_blank (cs : List Char) : skipWhitespace U (' ' :: cs) = skipWhitespace U cs := by
  have hblank : U.isWhitespace ' ' = true := by rw [U.isWhitespace_ascii _ (by decide)]; decide
  rw [skipWhitespace_eq, skipWhitespace_eq, List.dropWhile_cons_of_pos hblank]

/-! ## Symbols and words -/

/-- A character of ASCII that begins a symbol and no comment. -/
def isSymbolChar (c : Char) : Bool :=
  c.toNat < 128 && !(c.toNat == 32 || (9 ≤ c.toNat && c.toNat ≤ 13)) && c != '/' && !isNameStart c && !c.isDigit
    && c != doubleQuote && c != singleQuote && c != '$'

lemma nextToken_symbol {c : Char} {cs rest : List Char} {t : Token} (hc : isSymbolChar c = true)
    (hs : symbol c cs = some (t, rest)) : nextToken U (c :: cs) = .ok (t, rest) := by
  simp only [isSymbolChar, Bool.and_eq_true, decide_eq_true_eq, Bool.not_eq_true', bne_iff_ne] at hc
  obtain ⟨⟨⟨⟨⟨⟨⟨hascii, hspace⟩, hslash⟩, hstart⟩, hdigit⟩, hdouble⟩, hsingle⟩, hdollar⟩ := hc
  have hblank : U.isWhitespace c = false := by rw [U.isWhitespace_ascii c hascii]; exact hspace
  unfold nextToken
  rw [skipWhitespace_cons U c cs hblank hslash]
  simp [hstart, hdigit, hdouble, hsingle, hdollar, hs]

/-- The first character of a name is a letter of ASCII or an underscore. -/
lemma isNameStart_iff (c : Char) :
    isNameStart c = true ↔ (97 ≤ c.toNat ∧ c.toNat ≤ 122) ∨ (65 ≤ c.toNat ∧ c.toNat ≤ 90) ∨ c.toNat = 95 := by
  have heq : c = '_' ↔ c.toNat = 95 := ⟨fun h => h ▸ rfl, fun h => Char.ext (UInt32.toNat_inj.mp h)⟩
  simp only [isNameStart, Bool.or_eq_true, Bool.and_eq_true, decide_eq_true_eq, beq_iff_eq, heq, Char.le_def,
    UInt32.le_iff_toNat_le, or_assoc]
  rfl

/-- The capital letters of ASCII. -/
lemma isUpper_iff (c : Char) : c.isUpper = true ↔ 65 ≤ c.toNat ∧ c.toNat ≤ 90 :=
  decide_eq_true_iff.trans (and_congr UInt32.le_iff_toNat_le UInt32.le_iff_toNat_le)

/-- The small letters of ASCII. -/
lemma isLower_iff (c : Char) : c.isLower = true ↔ 97 ≤ c.toNat ∧ c.toNat ≤ 122 :=
  (Bool.and_eq_true_iff).trans (and_congr (decide_eq_true_iff.trans UInt32.le_iff_toNat_le)
    (decide_eq_true_iff.trans UInt32.le_iff_toNat_le))

lemma isAlpha_iff (c : Char) : c.isAlpha = true ↔ c.isUpper = true ∨ c.isLower = true := Bool.or_eq_true_iff

lemma isNameChar_of_start {c : Char} (h : isNameStart c = true) : isNameChar U c = true := by
  rw [isNameStart_iff] at h
  have hascii : c.toNat < 128 := by omega
  rcases h with hlow | hup | hscore
  · have halpha : c.isAlpha = true := (isAlpha_iff c).mpr (.inr ((isLower_iff c).mpr hlow))
    simp [isNameChar, U.isAlphanumeric_ascii c hascii, Char.isAlphanum, halpha]
  · have halpha : c.isAlpha = true := (isAlpha_iff c).mpr (.inl ((isUpper_iff c).mpr hup))
    simp [isNameChar, U.isAlphanumeric_ascii c hascii, Char.isAlphanum, halpha]
  · have hc : c = '_' := Char.ext (UInt32.toNat_inj.mp hscore)
    simp [isNameChar, hc]

lemma isWhitespace_of_start {c : Char} (h : isNameStart c = true) : U.isWhitespace c = false := by
  rw [isNameStart_iff] at h
  rw [U.isWhitespace_ascii c (by omega), Bool.eq_false_iff]
  simp only [ne_eq, Bool.or_eq_true, beq_iff_eq, Bool.and_eq_true, decide_eq_true_eq]
  omega

lemma readIdent_append {cs rest : List Char} (hchars : ∀ d ∈ cs, isNameChar U d = true)
    (hend : ∀ d ∈ rest.head?, isNameChar U d = false) :
    readIdent U (cs ++ rest) = (nameToken U (String.ofList cs), rest) := by
  have hrest : rest.takeWhile (isNameChar U) = [] ∧ rest.dropWhile (isNameChar U) = rest := by
    cases rest with
    | nil => exact ⟨rfl, rfl⟩
    | cons d rest =>
      have hd := hend d rfl
      exact ⟨List.takeWhile_cons_of_neg (by simp [hd]), List.dropWhile_cons_of_neg (by simp [hd])⟩
  unfold readIdent
  rw [List.takeWhile_append_of_pos hchars, List.dropWhile_append_of_pos hchars, hrest.1, hrest.2, List.append_nil]

lemma nextToken_word {c : Char} {cs rest : List Char} (hstart : isNameStart c = true)
    (hchars : ∀ d ∈ cs, isNameChar U d = true) (hend : ∀ d ∈ rest.head?, isNameChar U d = false) :
    nextToken U (c :: cs ++ rest) = .ok (nameToken U (String.ofList (c :: cs)), rest) := by
  have hall : ∀ d ∈ c :: cs, isNameChar U d = true := by
    rintro d (_ | ⟨_, hd⟩)
    · exact isNameChar_of_start U hstart
    · exact hchars d hd
  have hslash : c ≠ '/' := by
    rintro rfl
    exact absurd hstart (by decide)
  unfold nextToken
  rw [List.cons_append, skipWhitespace_cons U c _ (isWhitespace_of_start U hstart) hslash]
  simp only [hstart, if_true]
  rw [← List.cons_append, readIdent_append U hall hend]

/-! ## Progress -/

lemma length_readIdent_lt {c : Char} {cs : List Char} (h : isNameStart c = true) :
    (readIdent U (c :: cs)).2.length < (c :: cs).length := by
  have hc := isNameChar_of_start U h
  have hle := (List.dropWhile_suffix (l := cs) (isNameChar U)).length_le
  simp only [readIdent, List.dropWhile_cons_of_pos hc, List.length_cons]
  omega

lemma length_readNumber_lt {c : Char} {cs rest : List Char} {t : Token} (hc : c.isDigit = true)
    (h : readNumber U (c :: cs) = .ok (t, rest)) : rest.length < (c :: cs).length := by
  have hle := (List.dropWhile_suffix (l := cs) Char.isDigit).length_le
  unfold readNumber at h
  simp only [List.dropWhile_cons_of_pos hc] at h
  rw [List.length_cons]
  split at h
  · obtain ⟨x, hx, h⟩ := Except.bind_eq_ok.mp h
    cases h
    simp
  · rename_i d rest' heq
    rw [heq, List.length_cons, List.length_cons] at hle
    split_ifs at h
    · obtain ⟨x, hx, h⟩ := Except.bind_eq_ok.mp h
      cases h
      have hle' := (List.dropWhile_suffix (l := d :: rest') Char.isDigit).length_le
      rw [List.length_cons] at hle'
      omega
    · obtain ⟨x, hx, h⟩ := Except.bind_eq_ok.mp h
      cases h
      simp only [List.length_cons]
      omega
  · obtain ⟨x, hx, h⟩ := Except.bind_eq_ok.mp h
    cases h
    omega

lemma length_readString_lt {quote : Char} {cs value rest : List Char}
    (h : readString quote cs = .ok (value, rest)) : rest.length < cs.length := by
  fun_induction readString quote cs generalizing value rest with
  | case1 => cases h
  | case2 cs => cases h; simp
  | case3 => cases h
  | case4 e cs hq ih =>
    obtain ⟨⟨value', rest'⟩, hread, h⟩ := Except.bind_eq_ok.mp h
    cases h
    have := ih hread
    simp only [List.length_cons]
    omega
  | case5 c cs hq hb ih =>
    obtain ⟨⟨value', rest'⟩, hread, h⟩ := Except.bind_eq_ok.mp h
    cases h
    have := ih hread
    simp only [List.length_cons]
    omega

lemma length_symbol_le {c : Char} {cs rest : List Char} {t : Token} (h : symbol c cs = some (t, rest)) :
    rest.length ≤ cs.length := by
  fun_cases symbol c cs <;> simp_all [symbol]


/-- Every token but the end takes a character. -/
lemma length_nextToken_lt {cs rest : List Char} {t : Token} (h : nextToken U cs = .ok (t, rest)) (ht : t ≠ .eof) :
    rest.length < cs.length := by
  refine lt_of_lt_of_le ?_ (length_skipWhitespace_le U cs)
  unfold nextToken at h
  cases hskip : skipWhitespace U cs with
  | nil =>
    rw [hskip] at h
    cases h
    exact absurd rfl ht
  | cons c cs' =>
    rw [hskip] at h
    simp only at h
    split_ifs at h with hstart hdigit hquote hdollar hname
    · cases h
      exact length_readIdent_lt U hstart
    · exact length_readNumber_lt U hdigit h
    · obtain ⟨⟨value, rest'⟩, hread, h⟩ := Except.bind_eq_ok.mp h
      cases h
      exact (length_readString_lt hread).trans (Nat.lt_succ_self _)
    · cases h
      exact Nat.lt_succ_of_le (List.dropWhile_suffix (isNameChar U)).length_le
    · cases hsymbol : symbol c cs' with
      | none => rw [hsymbol] at h; cases h
      | some r =>
        rw [hsymbol] at h
        cases h
        exact Nat.lt_succ_of_le (length_symbol_le hsymbol)

/-! ## Reading a text -/

/-- The tokens of a text, one after another up to its end. -/
inductive Reads : List Char → List Token → Prop where
  | eof {cs rest : List Char} (h : nextToken U cs = .ok (.eof, rest)) : Reads cs [.eof]
  | token {cs rest : List Char} {t : Token} {ts : List Token} (h : nextToken U cs = .ok (t, rest)) (ht : t ≠ .eof)
      (hrest : Reads rest ts) : Reads cs (t :: ts)

variable {U}

lemma Reads.tokenizeFrom_eq {cs : List Char} {ts : List Token} (h : Reads U cs ts) {n : ℕ} (hn : cs.length < n) :
    tokenizeFrom U n cs = .ok ts := by
  induction h generalizing n with
  | eof h =>
    obtain ⟨n, rfl⟩ : ∃ k, n = k + 1 := ⟨n - 1, by omega⟩
    rw [tokenizeFrom, h]
    rfl
  | @token cs rest t ts h ht hrest ih =>
    obtain ⟨n, rfl⟩ : ∃ k, n = k + 1 := ⟨n - 1, by omega⟩
    have hlt := length_nextToken_lt U h ht
    have hih := ih (n := n) (by omega)
    rw [tokenizeFrom]
    refine Except.bind_eq_ok.mpr ⟨(t, rest), h, ?_⟩
    refine (if_neg ht).trans ?_
    exact Except.bind_eq_ok.mpr ⟨ts, hih, rfl⟩

lemma reads_of_tokenizeFrom {n : ℕ} {cs : List Char} {ts : List Token} (h : tokenizeFrom U n cs = .ok ts)
    (hn : cs.length < n) : Reads U cs ts := by
  induction n generalizing cs ts with
  | zero => omega
  | succ n ih =>
    rw [tokenizeFrom] at h
    obtain ⟨⟨t, rest⟩, hnext, h⟩ := Except.bind_eq_ok.mp h
    simp only at h
    split_ifs at h with ht
    · cases h
      exact ht ▸ Reads.eof (ht ▸ hnext)
    · obtain ⟨ts', hts', h⟩ := Except.bind_eq_ok.mp h
      cases h
      have hlt := length_nextToken_lt U hnext ht
      exact Reads.token hnext ht (ih hts' (by omega))

/-- `tokenize` gives the tokens that the text reads as. -/
theorem tokenize_eq_ok_iff {text : String} {ts : List Token} : tokenize U text = .ok ts ↔ Reads U text.toList ts :=
  ⟨fun h => reads_of_tokenizeFrom h (Nat.lt_succ_self _), fun h => h.tokenizeFrom_eq (Nat.lt_succ_self _)⟩

/-- The end of the text. -/
lemma reads_nil : Reads U [] [.eof] := by
  refine @Reads.eof U [] [] ?_
  unfold nextToken
  rw [skipWhitespace_eq]
  rfl

lemma Reads.blank {cs : List Char} {ts : List Token} (h : Reads U cs ts) : Reads U (' ' :: cs) ts := by
  have hnext : nextToken U (' ' :: cs) = nextToken U cs := by
    unfold nextToken
    rw [skipWhitespace_blank]
  cases h with
  | eof h => exact Reads.eof (hnext.trans h)
  | token h ht hrest => exact Reads.token (hnext.trans h) ht hrest

lemma Reads.symbol {c : Char} {cs rest : List Char} {t : Token} {ts : List Token} (h : Reads U rest ts)
    (hc : isSymbolChar c = true) (ht : t ≠ .eof) (hs : Lexer.symbol c cs = some (t, rest)) :
    Reads U (c :: cs) (t :: ts) :=
  Reads.token (nextToken_symbol U hc hs) ht h

/-- A dash before a text that does not make it an arrow. -/
lemma Reads.dash {rest : List Char} {ts : List Token} (h : Reads U rest ts) (hend : rest.head? ≠ some '>') :
    Reads U ('-' :: rest) (.dash :: ts) := by
  refine Reads.symbol h (by decide) (by decide) ?_
  cases rest with
  | nil => rfl
  | cons c rest =>
    have hc : c ≠ '>' := fun heq => hend (heq ▸ rfl)
    exact symbol.eq_12 (c :: rest) fun cs heq => hc (List.cons.inj heq).1

lemma nameToken_ne_eof (name : String) : nameToken U name ≠ .eof := by
  unfold nameToken
  split <;> exact Token.noConfusion

lemma Reads.word {c : Char} {cs rest : List Char} {ts : List Token} (h : Reads U rest ts)
    (hstart : isNameStart c = true) (hchars : ∀ d ∈ cs, isNameChar U d = true)
    (hend : ∀ d ∈ rest.head?, isNameChar U d = false) :
    Reads U (c :: cs ++ rest) (nameToken U (String.ofList (c :: cs)) :: ts) :=
  Reads.token (nextToken_word U hstart hchars hend) (nameToken_ne_eof _) h

end Lexer

end Maharit
