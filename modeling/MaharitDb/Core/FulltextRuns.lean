import MaharitDb.Core.FulltextSearch

/-!
# Sequences of calls on a full-text index

`add_document`, `remove_document` and `build_index` of `maharit-core/src/fulltext.rs`.  An index that was kept up to
date by calls is compared with the one built from the latest text of each document that is still present.  They are
the same after every call if and only if no call enters a document again with a text that lacks a token of its text
before: `add_document` does not take the old postings out.
-/

namespace Maharit

open InvertedIndex

/-- A call that changes the documents of an index. -/
inductive DocumentCall where
  | addDocument (doc : DocumentId) (text : String)
  | removeDocument (doc : DocumentId)
  deriving DecidableEq, Repr

/-- `build_index`: the texts are cut into tokens first. -/
def InvertedIndex.buildIndex (A : TextAnalysis) (ix : InvertedIndex) (documents : List (DocumentId × String)) :
    InvertedIndex :=
  (documents.map fun d => (d.1, A.tokenize d.2)).foldl (fun ix d => ix.addDocument d.1 d.2) ix

namespace DocumentCall

variable (A : TextAnalysis) (U : QueryTables)

/-- The index after a call. -/
def apply (ix : InvertedIndex) : DocumentCall → InvertedIndex
  | .addDocument doc text => ix.addDocument doc (A.tokenize text)
  | .removeDocument doc => ix.removeDocument doc

/-- The index after a sequence of calls on an empty one. -/
def run (calls : List DocumentCall) : InvertedIndex := calls.foldl (apply A) .new

/-- The latest text of each document that is present. -/
def latest (calls : List DocumentCall) : HashMap DocumentId String :=
  calls.foldl (fun m call => match call with
    | .addDocument doc text => m.insert doc text
    | .removeDocument doc => m.erase doc) ∅

/-- The tokens of the latest texts. -/
def texts (calls : List DocumentCall) (doc : DocumentId) : Option (List String) :=
  ((latest calls).lookup doc).map A.tokenize

/-- After these calls a document is not entered again with a text that lacks a token of its latest text. -/
def KeepsTokens (calls : List DocumentCall) : DocumentCall → Prop
  | .addDocument doc text => ∀ old, texts A calls doc = some old → ∀ token ∈ old, token ∈ A.tokenize text
  | .removeDocument _ => True

/-- After these calls the index is the one built from the latest texts, and `search` and `contains` answer with the
nodes whose latest texts answer the query. -/
structure Maintained (calls : List DocumentCall) : Prop where
  scratch : ∀ documents : List (DocumentId × String),
    documents.Perm ((latest calls).entries.map fun e => (e.1, e.2)) →
      (run A calls).Same (buildIndex A .new documents)
  search : ∀ query id, id ∈ (run A calls).searchNodes (.parse A U query) ↔
    ∃ property text, (latest calls).lookup ⟨id, property⟩ = some text ∧
      (SearchQuery.parse A U query).FoundIn (A.tokenize text)
  contains : ∀ query id, id ∈ (run A calls).containsNodes (.parse A U query) ↔
    ∃ property text, (latest calls).lookup ⟨id, property⟩ = some text ∧
      (SearchQuery.parse A U query).ContainedIn (A.tokenize text)

variable {A U} {calls : List DocumentCall}

lemma latest_concat (calls : List DocumentCall) (call : DocumentCall) :
    latest (calls ++ [call]) = match call with
      | .addDocument doc text => (latest calls).insert doc text
      | .removeDocument doc => (latest calls).erase doc := by
  rw [latest, List.foldl_append]
  rfl

lemma run_concat (calls : List DocumentCall) (call : DocumentCall) :
    run A (calls ++ [call]) = call.apply A (run A calls) := by
  rw [run, List.foldl_append]
  rfl

lemma texts_addDocument (calls : List DocumentCall) (doc : DocumentId) (text : String) :
    texts A (calls ++ [.addDocument doc text]) =
      Function.update (texts A calls) doc (some (A.tokenize text)) := by
  funext doc'
  simp only [texts, latest_concat]
  by_cases hdoc : doc' = doc
  · subst hdoc
    rw [AList.lookup_insert, Function.update_self, Option.map_some]
  · rw [AList.lookup_insert_ne hdoc, Function.update_of_ne hdoc]
    rfl

lemma texts_removeDocument (calls : List DocumentCall) (doc : DocumentId) :
    texts A (calls ++ [.removeDocument doc]) = Function.update (texts A calls) doc none := by
  funext doc'
  simp only [texts, latest_concat]
  by_cases hdoc : doc' = doc
  · subst hdoc
    rw [AList.lookup_erase, Function.update_self, Option.map_none]
  · rw [AList.lookup_erase_ne hdoc, Function.update_of_ne hdoc]
    rfl

/-- A call that keeps the tokens leaves the index of the latest texts. -/
lemma describes_concat (h : (run A calls).Describes (texts A calls)) {call : DocumentCall}
    (hkeeps : KeepsTokens A calls call) :
    (run A (calls ++ [call])).Describes (texts A (calls ++ [call])) := by
  rw [run_concat]
  cases call with
  | addDocument doc text =>
    rw [texts_addDocument]
    exact h.addDocument hkeeps
  | removeDocument doc =>
    rw [texts_removeDocument]
    exact h.removeDocument doc

/-- The index built from scratch is that of the texts it is built from. -/
lemma describes_buildIndex (A : TextAnalysis) (documents : List (DocumentId × String))
    (hnodup : (documents.map Prod.fst).Nodup) {texts : DocumentId → Option (List String)}
    (htexts : ∀ doc tokens, texts doc = some tokens ↔ ∃ text, (doc, text) ∈ documents ∧ A.tokenize text = tokens) :
    (buildIndex A .new documents).Describes texts := by
  -- Along the list: what is in the index so far, and none of what is still to come.
  have hloop : ∀ (documents : List (DocumentId × String)) (ix : InvertedIndex)
      (before : DocumentId → Option (List String)), ix.Describes before →
      (documents.map Prod.fst).Nodup → (∀ d ∈ documents, before d.1 = none) →
      ∃ after, (buildIndex A ix documents).Describes after ∧ ∀ doc tokens, after doc = some tokens ↔
        before doc = some tokens ∨ ∃ text, (doc, text) ∈ documents ∧ A.tokenize text = tokens := by
    intro documents
    induction documents with
    | nil => exact fun ix before h _ _ => ⟨before, h, by simp⟩
    | cons d documents ih =>
      intro ix before h hnodup hnone
      rw [List.map_cons, List.nodup_cons] at hnodup
      have hd : before d.1 = none := hnone d List.mem_cons_self
      have hadd : (ix.addDocument d.1 (A.tokenize d.2)).Describes
          (Function.update before d.1 (some (A.tokenize d.2))) :=
        h.addDocument fun old hold => by rw [hd] at hold; cases hold
      obtain ⟨after, hafter, hiff⟩ := ih _ _ hadd hnodup.2 fun d' hd' => by
        have hne : d'.1 ≠ d.1 := fun heq => hnodup.1 (heq ▸ List.mem_map_of_mem hd')
        rw [Function.update_of_ne hne]
        exact hnone d' (List.mem_cons_of_mem _ hd')
      refine ⟨after, hafter, fun doc tokens => (hiff doc tokens).trans ?_⟩
      by_cases hdoc : doc = d.1
      · subst hdoc
        have hnot : ∀ text, (d.1, text) ∉ documents := fun text hmem =>
          hnodup.1 (List.mem_map.mpr ⟨_, hmem, rfl⟩)
        simp [hd, hnot, Prod.ext_iff]
      · simp [Prod.ext_iff, hdoc]
  obtain ⟨after, hafter, hiff⟩ := hloop documents .new (fun _ => none) describes_new hnodup fun _ _ => rfl
  have heq : after = texts := by
    funext doc
    refine Option.ext fun tokens => ?_
    rw [hiff, htexts]
    simp
  rwa [heq] at hafter

/-- The index built from the latest texts, in whatever order. -/
lemma describes_scratch (A : TextAnalysis) (calls : List DocumentCall) {documents : List (DocumentId × String)}
    (hperm : documents.Perm ((latest calls).entries.map fun e => (e.1, e.2))) :
    (buildIndex A .new documents).Describes (texts A calls) := by
  have hnodup : (documents.map Prod.fst).Nodup := by
    rw [(hperm.map Prod.fst).nodup_iff, List.map_map]
    exact (latest calls).nodupKeys
  refine describes_buildIndex A documents hnodup fun doc tokens => ?_
  rw [texts, Option.map_eq_some_iff]
  refine exists_congr fun text => and_congr_left fun _ => ?_
  rw [hperm.mem_iff, List.mem_map]
  constructor
  · intro hlookup
    exact ⟨⟨doc, text⟩, AList.mem_lookup_iff.mp hlookup, rfl⟩
  · rintro ⟨⟨doc', text'⟩, hentry, heq⟩
    cases heq
    exact (List.mem_dlookup_iff (latest calls).nodupKeys).mpr hentry

/-- An index that describes the latest texts is maintained. -/
lemma maintained_of_describes (h : (run A calls).Describes (texts A calls)) : Maintained A U calls where
  scratch documents hperm := h.same (describes_scratch A calls hperm)
  search query id := by
    rw [h.mem_searchNodes]
    simp only [texts, Option.map_eq_some_iff]
    constructor
    · rintro ⟨property, tokens, ⟨text, htext, rfl⟩, hfound⟩
      exact ⟨property, text, htext, hfound⟩
    · rintro ⟨property, text, htext, hfound⟩
      exact ⟨property, _, ⟨text, htext, rfl⟩, hfound⟩
  contains query id := by
    rw [h.mem_containsNodes]
    simp only [texts, Option.map_eq_some_iff]
    constructor
    · rintro ⟨property, tokens, ⟨text, htext, rfl⟩, hfound⟩
      exact ⟨property, text, htext, hfound⟩
    · rintro ⟨property, text, htext, hfound⟩
      exact ⟨property, _, ⟨text, htext, rfl⟩, hfound⟩

/-- After a call that drops a token the index is not the one built from scratch. -/
lemma keepsTokens_of_maintained (h : (run A calls).Describes (texts A calls)) {call : DocumentCall}
    (hmaintained : Maintained A U (calls ++ [call])) : KeepsTokens A calls call := by
  cases call with
  | removeDocument doc => trivial
  | addDocument doc text =>
    intro old hold token htoken
    by_contra hlacks
    have hdoc := h.holdsAt doc
    rw [hold] at hdoc
    obtain ⟨positions, hstale⟩ := hdoc.addDocument_stale htoken hlacks
    have hscratch := describes_scratch A (calls ++ [.addDocument doc text]) (List.Perm.refl _)
    have hsame := hmaintained.scratch _ (List.Perm.refl _)
    rw [run_concat] at hsame
    have hmem := (hsame.postings token).subset hstale
    rw [(hscratch.holdsAt doc).postings, texts_addDocument, Function.update_self, Option.bind_some] at hmem
    exact hlacks ((mem_tokenPositions _ _).mp ((HashMap.mem_iff_exists _ _).mpr ⟨positions, hmem⟩))

variable (A U)

/-- The index is maintained after every call of a sequence if and only if every call keeps the tokens. -/
theorem maintained_iff (calls : List DocumentCall) :
    (∀ before, before <+: calls → Maintained A U before) ↔
      ∀ before call, before ++ [call] <+: calls → KeepsTokens A before call := by
  have hstart : (run A []).Describes (texts A []) := describes_new
  constructor
  · intro hall
    have hdescribes : ∀ before, before <+: calls → (run A before).Describes (texts A before) := by
      intro before
      induction before using List.reverseRecOn with
      | nil => exact fun _ => hstart
      | append_singleton before call ih =>
        intro hprefix
        have hbefore := ih ((List.prefix_append before [call]).trans hprefix)
        exact describes_concat hbefore (keepsTokens_of_maintained hbefore (hall _ hprefix))
    intro before call hprefix
    have hbefore := hdescribes before ((List.prefix_append before [call]).trans hprefix)
    exact keepsTokens_of_maintained hbefore (hall _ hprefix)
  · intro hkeeps before
    suffices h : before <+: calls → (run A before).Describes (texts A before) from
      fun hprefix => maintained_of_describes (h hprefix)
    induction before using List.reverseRecOn with
    | nil => exact fun _ => hstart
    | append_singleton before call ih =>
      intro hprefix
      exact describes_concat (ih ((List.prefix_append before [call]).trans hprefix)) (hkeeps before call hprefix)

/-- A document is entered again with another text, and is still found under the old one. -/
theorem not_maintained_reentered :
    ¬ ∀ (A : TextAnalysis) (U : QueryTables) (calls : List DocumentCall), Maintained A U calls := by
  intro h
  have hreentered := h ⟨fun text => [text], fun _ _ => []⟩ ⟨fun c => c == ' ', fun text => text⟩
    [.addDocument ⟨1, "title"⟩ "rust", .addDocument ⟨1, "title"⟩ "go"]
  have hfound := (hreentered.contains "rust" 1).mp (by decide)
  obtain ⟨property, text, htext, -, hall⟩ := hfound
  have hgo : text = "go" := by
    by_cases hproperty : property = "title"
    · subst hproperty
      exact (Option.some.inj htext).symm
    · have hdoc : (⟨1, property⟩ : DocumentId) ≠ ⟨1, "title"⟩ := fun heq =>
        hproperty (congrArg DocumentId.property heq)
      have hnone : (latest [.addDocument ⟨1, "title"⟩ "rust", .addDocument ⟨1, "title"⟩ "go"]).lookup
          ⟨1, property⟩ = none :=
        (AList.lookup_insert_ne hdoc).trans (AList.lookup_insert_ne hdoc)
      rw [hnone] at htext
      cases htext
  subst hgo
  exact absurd (hall "rust" (by decide)) (by decide)

end DocumentCall

end Maharit
