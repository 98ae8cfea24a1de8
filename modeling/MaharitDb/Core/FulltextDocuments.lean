import MaharitDb.Core.Fulltext
import MaharitDb.Lib.MapEntries

/-!
# The documents of an inverted index

What an inverted index holds of a document (`maharit-core/src/fulltext.rs`): its length and the positions of its
tokens.  `HoldsAt` says that these are the ones of a given text, and `Describes` that the whole index is that of
given texts.  Removing a document keeps this; adding one keeps it when the text that the index holds has no token
that the new text lacks.
-/

namespace Maharit

namespace InvertedIndex

/-! ## Documents -/

/-- What the index holds of a document is the text with these tokens, or nothing. -/
structure HoldsAt (ix : InvertedIndex) (doc : DocumentId) (tokens : Option (List String)) : Prop where
  length : ix.docLengths.lookup doc = tokens.map List.length
  postings : ∀ token positions, ⟨doc, positions⟩ ∈ HashMap.getDefault ix.index token ↔
    tokens.bind (fun ts => (tokenPositions ts).lookup token) = some positions

/-- The totals are those of the documents. -/
structure Counted (ix : InvertedIndex) : Prop where
  docs : ix.totalDocs = (ix.docLengths.entries.map fun _ => 1).sum
  length : ix.totalLength = (ix.docLengths.entries.map fun e => e.2).sum

/-- The index is the one of these texts, given by their tokens. -/
structure Describes (ix : InvertedIndex) (texts : DocumentId → Option (List String)) : Prop where
  holdsAt : ∀ doc, ix.HoldsAt doc (texts doc)
  counted : ix.Counted
  /-- A document is listed once for a token. -/
  nodup : ∀ token, ((HashMap.getDefault ix.index token).map TokenPosition.docId).Nodup
  /-- Tokens that no document has are not kept. -/
  nonempty : ∀ token ∈ ix.index, HashMap.getDefault ix.index token ≠ []

/-- Two indexes that differ at most in the order of documents. -/
structure Same (ix ix' : InvertedIndex) : Prop where
  tokens : ∀ token, token ∈ ix.index ↔ token ∈ ix'.index
  postings : ∀ token, (HashMap.getDefault ix.index token).Perm (HashMap.getDefault ix'.index token)
  lengths : ∀ doc, ix.docLengths.lookup doc = ix'.docLengths.lookup doc
  totalDocs : ix.totalDocs = ix'.totalDocs
  totalLength : ix.totalLength = ix'.totalLength

variable {ix ix' : InvertedIndex} {doc doc' : DocumentId} {tokens : Option (List String)}
  {texts : DocumentId → Option (List String)}

lemma describes_new : new.Describes fun _ => none where
  holdsAt doc := ⟨rfl, fun token positions => by simp [new]⟩
  counted := ⟨rfl, rfl⟩
  nodup token := List.nodup_nil
  nonempty token htoken := absurd htoken (AList.notMem_empty _)

/-- The index of given texts is one, up to the order of documents. -/
lemma Describes.same (h : ix.Describes texts) (h' : ix'.Describes texts) : ix.Same ix' := by
  have hlookup : ∀ doc, ix.docLengths.lookup doc = ix'.docLengths.lookup doc :=
    fun doc => (h.holdsAt doc).length.trans (h'.holdsAt doc).length.symm
  have hmem : ∀ token p, p ∈ HashMap.getDefault ix.index token ↔ p ∈ HashMap.getDefault ix'.index token := by
    rintro token ⟨doc, positions⟩
    rw [(h.holdsAt doc).postings, (h'.holdsAt doc).postings]
  have hperm : ∀ token,
      (HashMap.getDefault ix.index token).Perm (HashMap.getDefault ix'.index token) := fun token =>
    (List.perm_ext_iff_of_nodup (List.Nodup.of_map _ (h.nodup token))
      (List.Nodup.of_map _ (h'.nodup token))).mpr (hmem token)
  have hkept : ∀ {ix : InvertedIndex}, ix.Describes texts →
      ∀ token, token ∈ ix.index ↔ HashMap.getDefault ix.index token ≠ [] := by
    intro ix h token
    refine ⟨h.nonempty token, fun hne => ?_⟩
    by_contra hnot
    rw [HashMap.getDefault, AList.lookup_eq_none.mpr hnot] at hne
    exact hne rfl
  refine ⟨fun token => ?_, hperm, hlookup, ?_, ?_⟩
  · rw [hkept h, hkept h', ne_eq, ne_eq, not_iff_not]
    constructor
    · intro hnil
      exact List.Perm.nil_eq (hnil ▸ hperm token) ▸ rfl
    · intro hnil
      exact (hnil ▸ hperm token : List.Perm _ []).eq_nil
  · rw [h.counted.docs, h'.counted.docs]
    exact HashMap.sum_entries_congr hlookup fun _ => 1
  · rw [h.counted.length, h'.counted.length]
    exact HashMap.sum_entries_congr hlookup fun n => n

/-! ## The positions of tokens -/

/-- The positions of a token are those where the text has it, in order. -/
lemma getDefault_tokenPositions (tokens : List String) (token : String) :
    HashMap.getDefault (tokenPositions tokens) token =
      (tokens.zipIdx.filter fun e => e.1 = token).map Prod.snd := by
  have hfold : ∀ (entries : List (String × ℕ)) (m : HashMap String (List ℕ)),
      HashMap.getDefault (entries.foldl (fun m e => HashMap.modifyDefault m e.1 (· ++ [e.2])) m) token =
        HashMap.getDefault m token ++ (entries.filter fun e => e.1 = token).map Prod.snd := by
    intro entries
    induction entries with
    | nil => simp
    | cons e entries ih =>
      intro m
      rw [List.foldl_cons, ih, HashMap.getDefault_modifyDefault]
      by_cases htoken : e.1 = token
      · simp [htoken]
      · simp [htoken, Ne.symm htoken]
  exact hfold tokens.zipIdx ∅

/-- A token has positions when the text has it. -/
lemma mem_tokenPositions (tokens : List String) (token : String) :
    token ∈ tokenPositions tokens ↔ token ∈ tokens := by
  have hfold : ∀ (entries : List (String × ℕ)) (m : HashMap String (List ℕ)),
      token ∈ entries.foldl (fun m e => HashMap.modifyDefault m e.1 (· ++ [e.2])) m ↔
        token ∈ m ∨ token ∈ entries.map Prod.fst := by
    intro entries
    induction entries with
    | nil => simp
    | cons e entries ih =>
      intro m
      rw [List.foldl_cons, ih, HashMap.mem_modifyDefault, List.map_cons, List.mem_cons]
      tauto
  have hempty : token ∉ (∅ : HashMap String (List ℕ)) := AList.notMem_empty _
  rw [tokenPositions, hfold, List.zipIdx_map_fst]
  simp [hempty]

/-! ## Adding a document -/

/-- The postings of a token after the positions of a document were entered. -/
lemma getDefault_foldl_postings (doc : DocumentId)
    (entries : List (Sigma fun _ : String => List ℕ)) (hnd : entries.NodupKeys)
    (m : HashMap String (List TokenPosition)) (token : String) :
    HashMap.getDefault (entries.foldl (fun m e =>
        HashMap.modifyDefault m e.1 fun postings =>
          postings.filter (fun p => p.docId ≠ doc) ++ [⟨doc, e.2⟩]) m) token =
      match entries.dlookup token with
      | some positions =>
          (HashMap.getDefault m token).filter (fun p => p.docId ≠ doc) ++ [⟨doc, positions⟩]
      | none => HashMap.getDefault m token := by
  induction entries generalizing m with
  | nil => rfl
  | cons e entries ih =>
    obtain ⟨token', positions⟩ := e
    rw [List.nodupKeys_cons] at hnd
    rw [List.foldl_cons, ih hnd.2, HashMap.getDefault_modifyDefault]
    by_cases htoken : token = token'
    · subst htoken
      have hnone : entries.dlookup token = none := List.dlookup_eq_none.mpr hnd.1
      rw [hnone, List.dlookup_cons_eq]
      simp
    · rw [List.dlookup_cons_ne entries ⟨token', positions⟩ htoken]
      simp [htoken]

lemma getDefault_index_addDocument (ix : InvertedIndex) (doc : DocumentId) (tokens : List String)
    (token : String) :
    HashMap.getDefault (ix.addDocument doc tokens).index token =
      match (tokenPositions tokens).lookup token with
      | some positions =>
          (HashMap.getDefault ix.index token).filter (fun p => p.docId ≠ doc) ++ [⟨doc, positions⟩]
      | none => HashMap.getDefault ix.index token :=
  getDefault_foldl_postings doc (tokenPositions tokens).entries (tokenPositions tokens).nodupKeys
    ix.index token

lemma mem_index_addDocument (ix : InvertedIndex) (doc : DocumentId) (tokens : List String) (token : String) :
    token ∈ (ix.addDocument doc tokens).index ↔ token ∈ ix.index ∨ token ∈ tokens := by
  have hfold : ∀ (entries : List (Sigma fun _ : String => List ℕ)) (m : HashMap String (List TokenPosition)),
      token ∈ entries.foldl (fun m e => HashMap.modifyDefault m e.1 fun postings =>
        postings.filter (fun p => p.docId ≠ doc) ++ [⟨doc, e.2⟩]) m ↔
        token ∈ m ∨ token ∈ entries.keys := by
    intro entries
    induction entries with
    | nil => simp
    | cons e entries ih =>
      intro m
      rw [List.foldl_cons, ih, HashMap.mem_modifyDefault, List.keys_cons, List.mem_cons]
      tauto
  rw [← mem_tokenPositions tokens token]
  exact hfold (tokenPositions tokens).entries ix.index

/-- What the index holds of the other documents does not change. -/
lemma HoldsAt.addDocument_ne (h : ix.HoldsAt doc' tokens) (hdoc : doc' ≠ doc) (tokens' : List String) :
    (ix.addDocument doc tokens').HoldsAt doc' tokens where
  length := (AList.lookup_insert_ne hdoc).trans h.length
  postings token positions := by
    rw [← h.postings, getDefault_index_addDocument]
    cases (tokenPositions tokens').lookup token with
    | none => rfl
    | some _ => simp [hdoc]

/-- The document is entered with its text, when the text that the index had of it has no other tokens. -/
lemma HoldsAt.addDocument {tokens' : List String} (h : ix.HoldsAt doc tokens)
    (htokens : ∀ old, tokens = some old → ∀ token ∈ old, token ∈ tokens') :
    (ix.addDocument doc tokens').HoldsAt doc (some tokens') where
  length := AList.lookup_insert ix.docLengths
  postings token positions := by
    rw [getDefault_index_addDocument, Option.bind_some]
    cases hlookup : (tokenPositions tokens').lookup token with
    | some positions' =>
      simp only [List.mem_append, List.mem_filter, decide_eq_true_eq, List.mem_singleton,
        TokenPosition.mk.injEq, true_and, Option.some.injEq]
      constructor
      · rintro (⟨-, hne⟩ | rfl)
        · exact absurd rfl hne
        · rfl
      · rintro rfl
        exact Or.inr rfl
    | none =>
      have hlacks : token ∉ tokens' := fun htoken =>
        AList.lookup_eq_none.mp hlookup ((mem_tokenPositions tokens' token).mpr htoken)
      rw [h.postings token positions]
      cases tokens with
      | none => simp
      | some old =>
        have hold : token ∉ old := fun htoken => hlacks (htokens old rfl token htoken)
        have hnone : (tokenPositions old).lookup token = none :=
          AList.lookup_eq_none.mpr fun hmem => hold ((mem_tokenPositions old token).mp hmem)
        rw [Option.bind_some, hnone]

lemma Counted.addDocument (h : ix.Counted) (doc : DocumentId) (tokens : List String) :
    (ix.addDocument doc tokens).Counted := by
  have hsum : ∀ w : ℕ → ℕ, ((ix.docLengths.insert doc tokens.length).entries.map fun e => w e.2).sum =
      w tokens.length + ((ix.docLengths.erase doc).entries.map fun e => w e.2).sum := by
    intro w
    rw [AList.entries_insert, List.map_cons, List.sum_cons]
    rfl
  have hdocs := h.docs.trans (HashMap.sum_entries ix.docLengths (fun _ => 1) doc)
  have hlength := h.length.trans (HashMap.sum_entries ix.docLengths (fun n => n) doc)
  refine ⟨?_, ?_⟩
  · refine Eq.trans ?_ (hsum fun _ => 1).symm
    change (if doc ∈ ix.docLengths then ix.totalDocs else ix.totalDocs + 1) = _
    cases hlookup : ix.docLengths.lookup doc with
    | none =>
      rw [if_neg (AList.lookup_eq_none.mp hlookup), hdocs, hlookup]
      simp only [Option.map_none, Option.getD_none]
      omega
    | some n =>
      rw [if_pos ((HashMap.mem_iff_exists _ _).mpr ⟨n, hlookup⟩), hdocs, hlookup]
      rfl
  · refine Eq.trans ?_ (hsum fun n => n).symm
    change ix.totalLength - (ix.docLengths.lookup doc).getD 0 + tokens.length = _
    rw [hlength, Option.map_id']
    omega

lemma Describes.addDocument (h : ix.Describes texts) {tokens' : List String}
    (htokens : ∀ old, texts doc = some old → ∀ token ∈ old, token ∈ tokens') :
    (ix.addDocument doc tokens').Describes (Function.update texts doc (some tokens')) where
  holdsAt doc' := by
    by_cases hdoc : doc' = doc
    · subst hdoc
      rw [Function.update_self]
      exact (h.holdsAt doc').addDocument htokens
    · rw [Function.update_of_ne hdoc]
      exact (h.holdsAt doc').addDocument_ne hdoc tokens'
  counted := h.counted.addDocument doc tokens'
  nodup token := by
    rw [getDefault_index_addDocument]
    cases (tokenPositions tokens').lookup token with
    | none => exact h.nodup token
    | some positions =>
      simp only [List.map_append, List.map_cons, List.map_nil]
      refine List.nodup_append.mpr ⟨?_, List.nodup_singleton _, ?_⟩
      · exact (h.nodup token).sublist (List.filter_sublist.map _)
      · rintro doc' hdoc' doc'' hdoc'' rfl
        obtain ⟨p, hp, rfl⟩ := List.mem_map.mp hdoc'
        have hne := (List.mem_filter.mp hp).2
        rw [List.mem_singleton] at hdoc''
        simp [hdoc''] at hne
  nonempty token htoken := by
    rw [getDefault_index_addDocument]
    cases hlookup : (tokenPositions tokens').lookup token with
    | some positions => simp
    | none =>
      have hlacks : token ∉ tokens' := fun hmem =>
        AList.lookup_eq_none.mp hlookup ((mem_tokenPositions tokens' token).mpr hmem)
      exact h.nonempty token (((mem_index_addDocument ix doc tokens' token).mp htoken).resolve_right hlacks)

/-- A token of the old text that the new one lacks keeps the document. -/
lemma HoldsAt.addDocument_stale {old tokens' : List String} (h : ix.HoldsAt doc (some old)) {token : String}
    (hold : token ∈ old) (hlacks : token ∉ tokens') :
    ∃ positions, ⟨doc, positions⟩ ∈ HashMap.getDefault (ix.addDocument doc tokens').index token := by
  have hnone : (tokenPositions tokens').lookup token = none :=
    AList.lookup_eq_none.mpr fun hmem => hlacks ((mem_tokenPositions tokens' token).mp hmem)
  obtain ⟨positions, hpositions⟩ :=
    (HashMap.mem_iff_exists _ _).mp ((mem_tokenPositions old token).mpr hold)
  refine ⟨positions, ?_⟩
  rw [getDefault_index_addDocument, hnone, h.postings, Option.bind_some, hpositions]

/-! ## Removing a document -/

lemma lookup_index_removeDocument (ix : InvertedIndex) (doc : DocumentId) (token : String) :
    (ix.removeDocument doc).index.lookup token = ((ix.index.lookup token).map fun postings =>
      postings.filter fun p => p.docId ≠ doc).filter fun postings => !postings.isEmpty := by
  rw [← HashMap.lookup_mapValues, ← HashMap.lookup_retainValues]
  exact AList.lookup_to_alist _

lemma getDefault_index_removeDocument (ix : InvertedIndex) (doc : DocumentId) (token : String) :
    HashMap.getDefault (ix.removeDocument doc).index token =
      (HashMap.getDefault ix.index token).filter fun p => p.docId ≠ doc := by
  have hget : ∀ m : HashMap String (List TokenPosition),
      HashMap.getDefault m token = (m.lookup token).getD [] := fun _ => rfl
  rw [hget, hget, lookup_index_removeDocument]
  cases ix.index.lookup token with
  | none => rfl
  | some postings =>
    simp only [Option.map_some, Option.getD_some, Option.filter]
    split
    · rfl
    · rename_i hempty
      have hnil : postings.filter (fun p => p.docId ≠ doc) = [] := by simpa using hempty
      rw [hnil]
      rfl

lemma Counted.removeDocument (h : ix.Counted) (doc : DocumentId) : (ix.removeDocument doc).Counted := by
  have hdocs := h.docs.trans (HashMap.sum_entries ix.docLengths (fun _ => 1) doc)
  have hlength := h.length.trans (HashMap.sum_entries ix.docLengths (fun n => n) doc)
  refine ⟨?_, ?_⟩
  · change (if doc ∈ ix.docLengths then ix.totalDocs - 1 else ix.totalDocs) =
      ((ix.docLengths.erase doc).entries.map fun _ => 1).sum
    cases hlookup : ix.docLengths.lookup doc with
    | none =>
      rw [hlookup] at hdocs
      rw [if_neg (AList.lookup_eq_none.mp hlookup), hdocs]
      simp
    | some n =>
      rw [hlookup] at hdocs
      rw [if_pos ((HashMap.mem_iff_exists _ _).mpr ⟨n, hlookup⟩), hdocs]
      simp
  · change ix.totalLength - (ix.docLengths.lookup doc).getD 0 =
      ((ix.docLengths.erase doc).entries.map fun e => e.2).sum
    rw [hlength, Option.map_id']
    omega

/-- Removing a document leaves the index of the other texts. -/
lemma Describes.removeDocument (h : ix.Describes texts) (doc : DocumentId) :
    (ix.removeDocument doc).Describes (Function.update texts doc none) where
  holdsAt doc' := by
    by_cases hdoc : doc' = doc
    · subst hdoc
      rw [Function.update_self]
      refine ⟨AList.lookup_erase doc' ix.docLengths, fun token positions => ?_⟩
      rw [getDefault_index_removeDocument]
      simp
    · rw [Function.update_of_ne hdoc]
      refine ⟨(AList.lookup_erase_ne hdoc).trans (h.holdsAt doc').length, fun token positions => ?_⟩
      rw [← (h.holdsAt doc').postings, getDefault_index_removeDocument]
      simp [hdoc]
  counted := h.counted.removeDocument doc
  nodup token := by
    rw [getDefault_index_removeDocument]
    exact (h.nodup token).sublist (List.filter_sublist.map _)
  nonempty token htoken := by
    obtain ⟨postings, hpostings⟩ := (HashMap.mem_iff_exists _ _).mp htoken
    rw [HashMap.getDefault, hpostings, Option.getD_some]
    rw [lookup_index_removeDocument, Option.filter_eq_some_iff] at hpostings
    rintro rfl
    exact absurd hpostings.2 (by simp)

end InvertedIndex

end Maharit
