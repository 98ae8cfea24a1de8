import MaharitDb.Core.FulltextDocuments
import MaharitDb.Lib.EditDistance

/-!
# Queries on an inverted index

`FulltextIndex::search` and `FulltextIndex::contains` of `maharit-core/src/fulltext.rs` without the scores: which
nodes a phrase, a fuzzy term or keywords find.  On an index that describes the texts of the documents the answers
are those of the texts.  The index describes the latest texts after every sequence of calls in which no document is
entered again with a text that lacks a token of the text before; such a token keeps the document.
-/

namespace Maharit

/-! ## Queries -/

/-- What the standard library knows about the characters of a query. -/
structure QueryTables where
  /-- `char::is_whitespace`. -/
  isWhitespace : Char → Bool
  /-- `str::to_lowercase`. -/
  toLowercase : String → String

/-- What a query asks for. -/
inductive SearchQuery where
  | phrase (tokens : List String)
  | fuzzy (term : String) (maxDistance : ℕ)
  | keywords (tokens : List String)
  deriving DecidableEq, Repr

namespace SearchQuery

/-- `str::trim`. -/
def trim (U : QueryTables) (cs : List Char) : List Char :=
  ((cs.dropWhile U.isWhitespace).reverse.dropWhile U.isWhitespace).reverse

/-- `parse_phrase_query`: the text between quotes, double or single ones. -/
def parsePhraseQuery (U : QueryTables) (query : String) : Option String :=
  match trim U query.toList with
  | first :: rest =>
      if (first = Char.ofNat 34 ∨ first = Char.ofNat 39) ∧ rest.getLast? = some first
      then some (String.ofList rest.dropLast)
      else none
  | [] => none

/-- What stands before and after the last occurrence of a character. -/
def splitAtLast (c : Char) (cs : List Char) : Option (List Char × List Char) :=
  match cs.reverse.dropWhile (· ≠ c) with
  | [] => none
  | _ :: before => some (before.reverse, (cs.reverse.takeWhile (· ≠ c)).reverse)

/-- `str::parse::<usize>`. -/
def parseUsize (cs : List Char) : Option ℕ :=
  let digits := match cs with
    | '+' :: digits => digits
    | digits => digits
  if digits ≠ [] ∧ digits.all Char.isDigit ∧ Nat.ofDigitChars 10 digits 0 < 2 ^ 64
  then some (Nat.ofDigitChars 10 digits 0)
  else none

/-- `parse_fuzzy_query`: a term, a tilde and perhaps a distance. -/
def parseFuzzyQuery (U : QueryTables) (query : String) : Option (String × ℕ) :=
  match splitAtLast '~' (trim U query.toList) with
  | none => none
  | some (term, []) => some (String.ofList term, 2)
  | some (term, suffix) => (parseUsize suffix).map fun n => (String.ofList term, n)

/-- The query of a text. -/
def parse (A : TextAnalysis) (U : QueryTables) (query : String) : SearchQuery :=
  match parsePhraseQuery U query with
  | some text => .phrase (A.tokenize text)
  | none =>
      match parseFuzzyQuery U query with
      | some (term, maxDistance) => .fuzzy (U.toLowercase term) maxDistance
      | none => .keywords (A.tokenize query)

end SearchQuery

/-- `levenshtein_distance`. -/
def levenshteinDistance (a b : String) : ℕ := EditDistance.levenshteinDistance a.toList b.toList

namespace InvertedIndex

variable (ix : InvertedIndex)

/-- `documents_with_token`. -/
def documentsWithToken (token : String) : List DocumentId :=
  ((HashMap.getDefault ix.index token).map TokenPosition.docId).dedup

/-- `positions_in_doc`. -/
def positionsInDoc (token : String) (doc : DocumentId) : Option (List ℕ) :=
  ((HashMap.getDefault ix.index token).find? fun p => p.docId = doc).map TokenPosition.positions

/-- `is_phrase_in_doc`. -/
def isPhraseInDoc (doc : DocumentId) : List String → Bool
  | [] => false
  | [token] => decide (doc ∈ ix.documentsWithToken token)
  | token :: rest =>
      ((ix.positionsInDoc token doc).getD []).any fun start =>
        (rest.zipIdx 1).all fun e =>
          ((ix.positionsInDoc e.1 doc).getD []).contains (start + e.2)

/-- The documents that have all tokens. -/
def documentsWithAll : List String → List DocumentId
  | [] => []
  | token :: rest => rest.foldl (fun docs token => docs.filter (· ∈ ix.documentsWithToken token))
      (ix.documentsWithToken token)

/-- `fuzzy_matching_tokens`. -/
def fuzzyMatchingTokens (term : String) (maxDistance : ℕ) : List String :=
  ix.index.keys.filter fun token => levenshteinDistance term token ≤ maxDistance

/-- `documents_with_fuzzy_token`. -/
def documentsWithFuzzyToken (term : String) (maxDistance : ℕ) : List DocumentId :=
  ((ix.index.entries.filter fun e => levenshteinDistance term e.1 ≤ maxDistance).flatMap fun e =>
    e.2.map TokenPosition.docId).dedup

/-- The documents that `search` scores. -/
def searchDocuments : SearchQuery → List DocumentId
  | .phrase tokens => (ix.documentsWithAll tokens).filter fun doc => ix.isPhraseInDoc doc tokens
  | .fuzzy term maxDistance =>
      ((ix.fuzzyMatchingTokens term maxDistance).flatMap ix.documentsWithToken).dedup
  | .keywords tokens => (tokens.flatMap ix.documentsWithToken).dedup

/-- The documents behind `contains`. -/
def containsDocuments : SearchQuery → List DocumentId
  | .phrase tokens => (ix.documentsWithAll tokens).filter fun doc => ix.isPhraseInDoc doc tokens
  | .fuzzy term maxDistance => ix.documentsWithFuzzyToken term maxDistance
  | .keywords tokens => ix.documentsWithAll tokens

/-- The nodes that `search` returns. -/
def searchNodes (query : SearchQuery) : List NodeId :=
  ((ix.searchDocuments query).map DocumentId.nodeId).dedup

/-- `contains`. -/
def containsNodes (query : SearchQuery) : List NodeId :=
  ((ix.containsDocuments query).map DocumentId.nodeId).dedup

end InvertedIndex

/-! ## What a text answers -/

namespace SearchQuery

/-- The text with these tokens is one that `search` should find. -/
def FoundIn (tokens : List String) : SearchQuery → Prop
  | .phrase block => block ≠ [] ∧ block <:+: tokens
  | .fuzzy term maxDistance => ∃ token ∈ tokens, levenshteinDistance term token ≤ maxDistance
  | .keywords words => ∃ token ∈ words, token ∈ tokens

/-- The text with these tokens is one that `contains` should find. -/
def ContainedIn (tokens : List String) : SearchQuery → Prop
  | .keywords words => words ≠ [] ∧ ∀ token ∈ words, token ∈ tokens
  | query => query.FoundIn tokens

end SearchQuery

namespace InvertedIndex

variable {ix : InvertedIndex} {texts : DocumentId → Option (List String)}

/-- The documents of a token are those whose text has it. -/
lemma Describes.mem_documentsWithToken (h : ix.Describes texts) {token : String} {doc : DocumentId} :
    doc ∈ ix.documentsWithToken token ↔ ∃ tokens, texts doc = some tokens ∧ token ∈ tokens := by
  rw [documentsWithToken, List.mem_dedup, List.mem_map]
  constructor
  · rintro ⟨⟨doc, positions⟩, hp, rfl⟩
    obtain ⟨tokens, htokens, hlookup⟩ := Option.bind_eq_some_iff.mp (((h.holdsAt doc).postings ..).mp hp)
    exact ⟨tokens, htokens, (mem_tokenPositions tokens token).mp
      ((HashMap.mem_iff_exists _ _).mpr ⟨positions, hlookup⟩)⟩
  · rintro ⟨tokens, htokens, htoken⟩
    obtain ⟨positions, hlookup⟩ :=
      (HashMap.mem_iff_exists _ _).mp ((mem_tokenPositions tokens token).mpr htoken)
    refine ⟨⟨doc, positions⟩, ((h.holdsAt doc).postings ..).mpr ?_, rfl⟩
    rw [htokens, Option.bind_some, hlookup]

/-- The positions that the index has for a token of a document are those of the text. -/
lemma Describes.mem_positionsInDoc (h : ix.Describes texts) {token : String} {doc : DocumentId} {n : ℕ} :
    n ∈ (ix.positionsInDoc token doc).getD [] ↔
      ∃ tokens, texts doc = some tokens ∧ tokens[n]? = some token := by
  have hposition : ∀ (tokens : List String) (positions : List ℕ),
      (tokenPositions tokens).lookup token = some positions →
      (n ∈ positions ↔ tokens[n]? = some token) := by
    intro tokens positions hlookup
    have hget : HashMap.getDefault (tokenPositions tokens) token = positions := by
      rw [HashMap.getDefault, hlookup, Option.getD_some]
    rw [← hget, getDefault_tokenPositions, List.mem_map]
    constructor
    · rintro ⟨⟨token', n'⟩, hmem, rfl⟩
      obtain ⟨hzip, htoken⟩ := List.mem_filter.mp hmem
      rw [List.mem_zipIdx_iff_getElem?] at hzip
      have heq : token' = token := of_decide_eq_true htoken
      rw [← heq]
      exact hzip
    · intro hn
      exact ⟨(token, n), List.mem_filter.mpr ⟨List.mem_zipIdx_iff_getElem?.mpr hn, by simp⟩, rfl⟩
  unfold positionsInDoc
  cases hfind : (HashMap.getDefault ix.index token).find? fun p => p.docId = doc with
  | none =>
    refine iff_of_false (by simp) ?_
    rintro ⟨tokens, htokens, hn⟩
    have htoken : token ∈ tokens := List.mem_of_getElem? hn
    have hdoc := h.mem_documentsWithToken.mpr ⟨tokens, htokens, htoken⟩
    rw [documentsWithToken, List.mem_dedup, List.mem_map] at hdoc
    obtain ⟨p, hp, hpdoc⟩ := hdoc
    have hne := List.find?_eq_none.mp hfind p hp
    simp [hpdoc] at hne
  | some p =>
    obtain ⟨doc', positions⟩ := p
    have hfound := List.find?_some hfind
    have hdoc : doc' = doc := of_decide_eq_true hfound
    subst hdoc
    have hmem := ((h.holdsAt doc').postings ..).mp (List.mem_of_find?_eq_some hfind)
    obtain ⟨tokens, htokens, hlookup⟩ := Option.bind_eq_some_iff.mp hmem
    rw [Option.map_some, Option.getD_some, hposition tokens positions hlookup]
    refine ⟨fun hn => ⟨tokens, htokens, hn⟩, ?_⟩
    rintro ⟨tokens', htokens', hn⟩
    rw [htokens] at htokens'
    cases htokens'
    exact hn

/-- `is_phrase_in_doc` finds the phrase as a block of the text. -/
lemma Describes.isPhraseInDoc_iff (h : ix.Describes texts) {phrase : List String} {doc : DocumentId} :
    ix.isPhraseInDoc doc phrase = true ↔
      phrase ≠ [] ∧ ∃ tokens, texts doc = some tokens ∧ phrase <:+: tokens := by
  match phrase with
  | [] => simp [isPhraseInDoc]
  | [token] =>
    simp only [isPhraseInDoc, decide_eq_true_eq, h.mem_documentsWithToken, List.singleton_infix_iff]
    simp
  | token :: token' :: rest =>
    simp only [isPhraseInDoc, List.any_eq_true, List.all_eq_true, List.contains_iff_mem,
      h.mem_positionsInDoc]
    constructor
    · rintro ⟨start, ⟨tokens, htokens, hstart⟩, hrest⟩
      refine ⟨List.cons_ne_nil _ _, tokens, htokens, ?_⟩
      rw [List.infix_iff_getElem?]
      have hat : ∀ i (hi : i < (token :: token' :: rest).length),
          tokens[i + start]? = some (token :: token' :: rest)[i] := by
        intro i hi
        cases i with
        | zero => simpa using hstart
        | succ i =>
          have hi' : i < (token' :: rest).length := Nat.lt_of_succ_lt_succ hi
          have hmem : ((token' :: rest)[i], i + 1) ∈ (token' :: rest).zipIdx 1 := by
            rw [List.mk_mem_zipIdx_iff_le_and_getElem?_sub]
            refine ⟨by omega, ?_⟩
            rw [show i + 1 - 1 = i from rfl, List.getElem?_eq_getElem hi']
          obtain ⟨tokens', htokens', hn⟩ := hrest _ hmem
          rw [htokens] at htokens'
          cases htokens'
          rw [show i + 1 + start = start + (i + 1) by omega]
          exact hn
      have hlast := hat ((token' :: rest).length) (by simp)
      have hlt := (List.getElem?_eq_some_iff.mp hlast).1
      exact ⟨start, by simp only [List.length_cons] at hlt ⊢; omega, hat⟩
    · rintro ⟨-, tokens, htokens, hinfix⟩
      obtain ⟨start, -, hat⟩ := List.infix_iff_getElem?.mp hinfix
      refine ⟨start, ⟨tokens, htokens, Nat.zero_add start ▸ hat 0 (Nat.zero_lt_succ _)⟩, ?_⟩
      rintro ⟨t, n⟩ hmem
      rw [List.mk_mem_zipIdx_iff_le_and_getElem?_sub] at hmem
      obtain ⟨hle, hn⟩ := hmem
      obtain ⟨hlt, ht⟩ := List.getElem?_eq_some_iff.mp hn
      refine ⟨tokens, htokens, ?_⟩
      have hthis := hat n (by simp only [List.length_cons] at hlt ⊢; omega)
      rw [show start + n = n + start by omega, hthis, Option.some.injEq, ← ht]
      obtain ⟨m, rfl⟩ : ∃ m, n = m + 1 := ⟨n - 1, by omega⟩
      rfl

lemma Describes.mem_documentsWithAll (h : ix.Describes texts) {keywords : List String} {doc : DocumentId} :
    doc ∈ ix.documentsWithAll keywords ↔
      keywords ≠ [] ∧ ∃ tokens, texts doc = some tokens ∧ ∀ token ∈ keywords, token ∈ tokens := by
  have hfold : ∀ (rest : List String) (docs : List DocumentId),
      doc ∈ rest.foldl (fun docs token => docs.filter (· ∈ ix.documentsWithToken token)) docs ↔
        doc ∈ docs ∧ ∀ token ∈ rest, doc ∈ ix.documentsWithToken token := by
    intro rest
    induction rest with
    | nil => simp
    | cons token rest ih =>
      intro docs
      rw [List.foldl_cons, ih, List.mem_filter, List.forall_mem_cons, decide_eq_true_eq, and_assoc]
  cases keywords with
  | nil => simp [documentsWithAll]
  | cons token rest =>
    rw [documentsWithAll, hfold, h.mem_documentsWithToken]
    simp only [h.mem_documentsWithToken, ne_eq, reduceCtorEq, not_false_eq_true, true_and,
      List.forall_mem_cons]
    constructor
    · rintro ⟨⟨tokens, htokens, htoken⟩, hrest⟩
      refine ⟨tokens, htokens, htoken, fun t ht => ?_⟩
      obtain ⟨tokens', htokens', htoken'⟩ := hrest t ht
      rw [htokens] at htokens'
      cases htokens'
      exact htoken'
    · rintro ⟨tokens, htokens, htoken, hrest⟩
      exact ⟨⟨tokens, htokens, htoken⟩, fun t ht => ⟨tokens, htokens, hrest t ht⟩⟩

/-- The documents with a token close to a term. -/
lemma Describes.mem_fuzzy (h : ix.Describes texts) {term : String} {maxDistance : ℕ} {doc : DocumentId} :
    doc ∈ (ix.fuzzyMatchingTokens term maxDistance).flatMap ix.documentsWithToken ↔
      ∃ tokens, texts doc = some tokens ∧ (SearchQuery.fuzzy term maxDistance).FoundIn tokens := by
  simp only [List.mem_flatMap, fuzzyMatchingTokens, List.mem_filter, decide_eq_true_eq,
    h.mem_documentsWithToken, SearchQuery.FoundIn]
  constructor
  · rintro ⟨token, ⟨-, hdistance⟩, tokens, htokens, htoken⟩
    exact ⟨tokens, htokens, token, htoken, hdistance⟩
  · rintro ⟨tokens, htokens, token, htoken, hdistance⟩
    refine ⟨token, ⟨?_, hdistance⟩, tokens, htokens, htoken⟩
    have hdoc := h.mem_documentsWithToken.mpr ⟨tokens, htokens, htoken⟩
    by_contra hnot
    have hnone : ix.index.lookup token = none := AList.lookup_eq_none.mpr hnot
    simp [documentsWithToken, HashMap.getDefault, hnone] at hdoc

lemma Describes.mem_documentsWithFuzzyToken (h : ix.Describes texts) {term : String} {maxDistance : ℕ}
    {doc : DocumentId} :
    doc ∈ ix.documentsWithFuzzyToken term maxDistance ↔
      ∃ tokens, texts doc = some tokens ∧ (SearchQuery.fuzzy term maxDistance).FoundIn tokens := by
  rw [← h.mem_fuzzy, documentsWithFuzzyToken, List.mem_dedup]
  simp only [List.mem_flatMap, fuzzyMatchingTokens, List.mem_filter, decide_eq_true_eq,
    documentsWithToken, List.mem_dedup]
  constructor
  · rintro ⟨⟨token, postings⟩, ⟨hentry, hdistance⟩, hdoc⟩
    have hlookup : ix.index.lookup token = some postings :=
      (List.mem_dlookup_iff ix.index.nodupKeys).mpr hentry
    refine ⟨token, ⟨(HashMap.mem_iff_exists _ _).mpr ⟨postings, hlookup⟩, hdistance⟩, ?_⟩
    rwa [HashMap.getDefault, hlookup]
  · rintro ⟨token, ⟨htoken, hdistance⟩, hdoc⟩
    obtain ⟨postings, hlookup⟩ := (HashMap.mem_iff_exists _ _).mp htoken
    rw [HashMap.getDefault, hlookup] at hdoc
    exact ⟨⟨token, postings⟩, ⟨AList.mem_lookup_iff.mp hlookup, hdistance⟩, hdoc⟩

/-- A phrase is found where its tokens are a block of the text. -/
lemma Describes.mem_phrase (h : ix.Describes texts) {phrase : List String} {doc : DocumentId} :
    doc ∈ (ix.documentsWithAll phrase).filter (fun doc => ix.isPhraseInDoc doc phrase) ↔
      ∃ tokens, texts doc = some tokens ∧ (SearchQuery.phrase phrase).FoundIn tokens := by
  rw [List.mem_filter, h.mem_documentsWithAll, h.isPhraseInDoc_iff]
  constructor
  · rintro ⟨-, hne, tokens, htokens, hinfix⟩
    exact ⟨tokens, htokens, hne, hinfix⟩
  · rintro ⟨tokens, htokens, hne, hinfix⟩
    exact ⟨⟨hne, tokens, htokens, fun token htoken => hinfix.subset htoken⟩, hne, tokens, htokens, hinfix⟩

/-- `search` finds the nodes with a text that answers the query. -/
theorem Describes.mem_searchNodes (h : ix.Describes texts) (query : SearchQuery) (id : NodeId) :
    id ∈ ix.searchNodes query ↔
      ∃ property tokens, texts ⟨id, property⟩ = some tokens ∧ query.FoundIn tokens := by
  have hdocs : ∀ doc, doc ∈ ix.searchDocuments query ↔ ∃ tokens, texts doc = some tokens ∧ query.FoundIn tokens := by
    intro doc
    cases query with
    | phrase tokens => exact h.mem_phrase
    | fuzzy term maxDistance => exact (List.mem_dedup).trans h.mem_fuzzy
    | keywords keywords =>
      simp only [searchDocuments, List.mem_dedup, List.mem_flatMap, h.mem_documentsWithToken,
        SearchQuery.FoundIn]
      constructor
      · rintro ⟨token, htoken, tokens, htokens, hmem⟩
        exact ⟨tokens, htokens, token, htoken, hmem⟩
      · rintro ⟨tokens, htokens, token, htoken, hmem⟩
        exact ⟨token, htoken, tokens, htokens, hmem⟩
  rw [searchNodes, List.mem_dedup, List.mem_map]
  constructor
  · rintro ⟨doc, hdoc, rfl⟩
    exact ⟨doc.property, (hdocs doc).mp hdoc⟩
  · rintro ⟨property, hfound⟩
    exact ⟨⟨id, property⟩, (hdocs _).mpr hfound, rfl⟩

/-- `contains` finds the nodes with a text that answers the query. -/
theorem Describes.mem_containsNodes (h : ix.Describes texts) (query : SearchQuery) (id : NodeId) :
    id ∈ ix.containsNodes query ↔
      ∃ property tokens, texts ⟨id, property⟩ = some tokens ∧ query.ContainedIn tokens := by
  have hdocs : ∀ doc, doc ∈ ix.containsDocuments query ↔
      ∃ tokens, texts doc = some tokens ∧ query.ContainedIn tokens := by
    intro doc
    cases query with
    | phrase tokens => exact h.mem_phrase
    | fuzzy term maxDistance => exact h.mem_documentsWithFuzzyToken
    | keywords keywords =>
      rw [containsDocuments, h.mem_documentsWithAll]
      simp only [SearchQuery.ContainedIn]
      tauto
  rw [containsNodes, List.mem_dedup, List.mem_map]
  constructor
  · rintro ⟨doc, hdoc, rfl⟩
    exact ⟨doc.property, (hdocs doc).mp hdoc⟩
  · rintro ⟨property, hfound⟩
    exact ⟨⟨id, property⟩, (hdocs _).mpr hfound, rfl⟩

end InvertedIndex

end Maharit
