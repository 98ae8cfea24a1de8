import MaharitDb.Core.FulltextSearch
import MaharitDb.Lib.EditScript

/-!
# The operator `CONTAINS`

`string_contains` of the executor: a needle between quotes is a phrase, one that ends with a tilde and digits is a
fuzzy term, any other is looked for as it stands.  The phrase and the plain text do not see the case of the
haystack.  The fuzzy search lowers the term and compares it with the tokens as they are spelled; so it sees the
case, unless a token is close enough as it is spelled or none is in lower case either.
-/

namespace Maharit

/-- What the standard library knows about letters. -/
structure CaseTables where
  /-- `char::is_alphanumeric`. -/
  isAlphanumeric : Char → Bool
  /-- `str::to_lowercase`. -/
  toLowercase : String → String
  /-- The characters whose lowercase is one character, wherever they stand. -/
  single : Char → Bool
  /-- The lowercase of such a character. -/
  lower : Char → Char
  toLowercase_ofList : ∀ cs : List Char, (∀ c ∈ cs, single c = true) →
    toLowercase (String.ofList cs) = String.ofList (cs.map lower)
  single_lower : ∀ c, single c = true → single (lower c) = true
  lower_lower : ∀ c, single c = true → lower (lower c) = lower c
  isAlphanumeric_lower : ∀ c, single c = true → isAlphanumeric (lower c) = isAlphanumeric c

namespace CaseTables

variable (T : CaseTables)

/-- The maximal runs of letters and digits of a text. -/
def tokens (text : String) : List String :=
  ((text.toList.splitOnP fun c => !T.isAlphanumeric c).filter (· ≠ [])).map String.ofList

/-- The tokens in lower case. -/
def lowerTokens (text : String) : List String := (T.tokens text).map T.toLowercase

/-- `contains_phrase`: the windows of the haystack, compared one by one. -/
def containsPhrase (haystack phrase : String) : Bool :=
  let haystackTokens := T.tokens haystack
  let phraseTokens := T.lowerTokens phrase
  if phraseTokens = [] then false
  else if phraseTokens.length > haystackTokens.length then false
  else
    (List.range (haystackTokens.length - phraseTokens.length + 1)).any fun i =>
      phraseTokens.zipIdx.all fun e => haystackTokens[i + e.2]?.map T.toLowercase = some e.1

/-- Some token, as it is spelled, is within a distance of a term. -/
def closeToken (haystack term : String) (maxDistance : ℕ) : Bool :=
  (T.tokens haystack).any fun token => levenshteinDistance token term ≤ maxDistance

/-- `contains_fuzzy`. -/
def containsFuzzy (haystack term : String) (maxDistance : ℕ) : Bool :=
  T.closeToken haystack (T.toLowercase term) maxDistance

end CaseTables

/-! ## The three kinds of needles -/

/-- What a needle asks for. -/
inductive Needle where
  | phrase (text : String)
  | fuzzy (term : String) (maxDistance : ℕ)
  | plain (text : String)
  deriving DecidableEq, Repr

namespace Needle

/-- The text between two double quotes. -/
def quoted? (needle : String) : Option String :=
  match needle.toList with
  | first :: rest =>
      if first = Char.ofNat 34 ∧ rest.getLast? = some (Char.ofNat 34) then some (String.ofList rest.dropLast)
      else none
  | [] => none

/-- A term before the last tilde and the distance behind it, two unless it says otherwise. -/
def fuzzy? (needle : String) : Option (String × ℕ) :=
  match SearchQuery.splitAtLast '~' needle.toList with
  | none => none
  | some (term, suffix) =>
      if term ≠ [] ∧ suffix.all Char.isDigit
      then some (String.ofList term, if suffix = [] then 2 else (SearchQuery.parseUsize suffix).getD 2)
      else none

/-- The needle of a text. -/
def read (needle : String) : Needle :=
  match quoted? needle with
  | some text => .phrase text
  | none =>
      match fuzzy? needle with
      | some (term, maxDistance) => .fuzzy term maxDistance
      | none => .plain needle

end Needle

namespace CaseTables

variable (T : CaseTables)

/-- `string_contains`. -/
def stringContains (haystack needle : String) : Bool :=
  match Needle.read needle with
  | .phrase text => T.containsPhrase haystack text
  | .fuzzy term maxDistance => T.containsFuzzy haystack term maxDistance
  | .plain text => decide ((T.toLowercase text).toList <:+: (T.toLowercase haystack).toList)

/-! ## What a text answers whatever its case -/

/-- All characters of a text have one lowercase. -/
def AllSingle (text : String) : Prop := ∀ c ∈ text.toList, T.single c = true

instance (text : String) : Decidable (T.AllSingle text) :=
  decidable_of_iff (text.toList.all T.single = true) List.all_eq_true

/-- The answer does not depend on the case of the haystack, and a phrase is found where its tokens are a block of
the tokens of the haystack, both in lower case. -/
def IgnoresCase (haystack needle : String) : Prop :=
  T.stringContains haystack needle = T.stringContains (T.toLowercase haystack) needle ∧
    ∀ text, Needle.quoted? needle = some text →
      (T.stringContains haystack needle = true ↔
        (SearchQuery.phrase (T.lowerTokens text)).FoundIn (T.lowerTokens haystack))

/-- The needle is no fuzzy term, or a token of the haystack is close to the term in lower case as it is spelled, or
none is in lower case. -/
def CaseUnseen (haystack needle : String) : Prop :=
  ∀ term maxDistance, Needle.read needle = .fuzzy term maxDistance →
    T.closeToken haystack (T.toLowercase term) maxDistance = true ∨
      T.closeToken (T.toLowercase haystack) (T.toLowercase term) maxDistance = false

variable {T}

lemma toLowercase_eq {text : String} (h : T.AllSingle text) :
    T.toLowercase text = String.ofList (text.toList.map T.lower) := by
  have hofList := T.toLowercase_ofList text.toList h
  rwa [String.ofList_toList] at hofList

lemma toList_toLowercase {text : String} (h : T.AllSingle text) :
    (T.toLowercase text).toList = text.toList.map T.lower := by
  rw [toLowercase_eq h, String.toList_ofList]

lemma AllSingle.toLowercase {text : String} (h : T.AllSingle text) : T.AllSingle (T.toLowercase text) := by
  intro c hc
  rw [toList_toLowercase h] at hc
  obtain ⟨c, hmem, rfl⟩ := List.mem_map.mp hc
  exact T.single_lower c (h c hmem)

/-- Lowering a text twice is lowering it once. -/
lemma toLowercase_toLowercase {text : String} (h : T.AllSingle text) :
    T.toLowercase (T.toLowercase text) = T.toLowercase text := by
  rw [toLowercase_eq h.toLowercase, toList_toLowercase h, toLowercase_eq h, List.map_map]
  congr 1
  exact List.map_congr_left fun c hc => T.lower_lower c (h c hc)

/-! ## Tokens -/

/-- Cutting a text does not see a renaming of its characters that keeps where it is cut. -/
lemma splitOnP_map {p : Char → Bool} {f : Char → Char} {cs : List Char} (h : ∀ c ∈ cs, p (f c) = p c) :
    (cs.map f).splitOnP p = (cs.splitOnP p).map (List.map f) := by
  induction cs with
  | nil => rfl
  | cons c cs ih =>
    have hcut := h c List.mem_cons_self
    have hrest := ih fun c hc => h c (List.mem_cons_of_mem _ hc)
    rw [List.map_cons, List.splitOnP_cons_eq_if_modifyHead, List.splitOnP_cons_eq_if_modifyHead, hcut, hrest]
    split
    · rfl
    · cases cs.splitOnP p with
      | nil => rfl
      | cons run runs => rfl

/-- The characters of the runs are characters of the text. -/
lemma mem_of_mem_splitOnP {p : Char → Bool} {cs run : List Char} (hrun : run ∈ cs.splitOnP p) :
    ∀ c ∈ run, c ∈ cs := by
  induction cs generalizing run with
  | nil =>
    rw [List.splitOnP_nil, List.mem_singleton] at hrun
    simp [hrun]
  | cons c cs ih =>
    rw [List.splitOnP_cons_eq_if_modifyHead] at hrun
    split at hrun
    · rcases List.mem_cons.mp hrun with rfl | hrun
      · simp
      · exact fun d hd => List.mem_cons_of_mem _ (ih hrun d hd)
    · cases hruns : cs.splitOnP p with
      | nil => exact absurd hruns (List.splitOnP_ne_nil p cs)
      | cons first runs =>
        rw [hruns, List.modifyHead_cons, List.mem_cons] at hrun
        rcases hrun with rfl | hrun
        · intro d hd
          rcases List.mem_cons.mp hd with rfl | hd
          · exact List.mem_cons_self
          · exact List.mem_cons_of_mem _ (ih (hruns ▸ List.mem_cons_self) d hd)
        · exact fun d hd => List.mem_cons_of_mem _ (ih (hruns ▸ List.mem_cons_of_mem _ hrun) d hd)

lemma AllSingle.token {text token : String} (h : T.AllSingle text) (htoken : token ∈ T.tokens text) :
    T.AllSingle token := by
  obtain ⟨run, hrun, rfl⟩ := List.mem_map.mp htoken
  intro c hc
  rw [String.toList_ofList] at hc
  exact h c (mem_of_mem_splitOnP (List.mem_filter.mp hrun).1 c hc)

/-- The tokens of the text in lower case are the tokens in lower case. -/
lemma tokens_toLowercase {text : String} (h : T.AllSingle text) :
    T.tokens (T.toLowercase text) = T.lowerTokens text := by
  have hcut : ∀ c ∈ text.toList, (!T.isAlphanumeric (T.lower c)) = !T.isAlphanumeric c := by
    intro c hc
    rw [T.isAlphanumeric_lower c (h c hc)]
  have hempty : ((fun run : List Char => decide (run ≠ [])) ∘ List.map T.lower) = fun run => decide (run ≠ []) := by
    funext run
    simp
  unfold lowerTokens tokens
  rw [toList_toLowercase h, splitOnP_map hcut, List.filter_map, hempty, List.map_map, List.map_map]
  refine List.map_congr_left fun run hrun => ?_
  have hsingle : ∀ c ∈ run, T.single c = true := fun c hc =>
    h c (mem_of_mem_splitOnP (List.mem_filter.mp hrun).1 c hc)
  exact (T.toLowercase_ofList run hsingle).symm

lemma lowerTokens_toLowercase {text : String} (h : T.AllSingle text) :
    T.lowerTokens (T.toLowercase text) = T.lowerTokens text := by
  have htwice : (T.lowerTokens text).map T.toLowercase = T.lowerTokens text := by
    rw [lowerTokens, List.map_map]
    exact List.map_congr_left fun token htoken => toLowercase_toLowercase (h.token htoken)
  rw [lowerTokens, tokens_toLowercase h, htwice]

/-! ## The three searches -/

/-- `contains_phrase` finds the phrase as a block. -/
theorem containsPhrase_iff (haystack phrase : String) :
    T.containsPhrase haystack phrase = true ↔
      (SearchQuery.phrase (T.lowerTokens phrase)).FoundIn (T.lowerTokens haystack) := by
  have hat : ∀ n, (T.lowerTokens haystack)[n]? = (T.tokens haystack)[n]?.map T.toLowercase := fun n =>
    List.getElem?_map
  have hlength : (T.lowerTokens haystack).length = (T.tokens haystack).length := List.length_map ..
  have hwindow : ∀ i, ((T.lowerTokens phrase).zipIdx.all fun e =>
      (T.tokens haystack)[i + e.2]?.map T.toLowercase = some e.1) = true ↔
        ∀ n (hn : n < (T.lowerTokens phrase).length),
          (T.lowerTokens haystack)[n + i]? = some (T.lowerTokens phrase)[n] := by
    intro i
    simp only [List.all_eq_true, decide_eq_true_eq, Prod.forall, List.mk_mem_zipIdx_iff_getElem?, hat]
    constructor
    · intro h n hn
      rw [Nat.add_comm n i]
      exact h _ n (List.getElem?_eq_getElem hn)
    · rintro h token n hn
      obtain ⟨hlt, rfl⟩ := List.getElem?_eq_some_iff.mp hn
      rw [Nat.add_comm i n]
      exact h n hlt
  have hfound : (SearchQuery.phrase (T.lowerTokens phrase)).FoundIn (T.lowerTokens haystack) ↔
      T.lowerTokens phrase ≠ [] ∧ T.lowerTokens phrase <:+: T.lowerTokens haystack := Iff.rfl
  rw [hfound, List.infix_iff_getElem?, hlength]
  unfold containsPhrase
  simp only
  by_cases hempty : T.lowerTokens phrase = []
  · simp [hempty]
  rw [if_neg hempty]
  by_cases hlong : (T.lowerTokens phrase).length > (T.tokens haystack).length
  · rw [if_pos hlong]
    refine iff_of_false (by simp) ?_
    rintro ⟨-, i, hi, -⟩
    omega
  rw [if_neg hlong, List.any_eq_true]
  constructor
  · rintro ⟨i, hi, hall⟩
    exact ⟨hempty, i, by have := List.mem_range.mp hi; omega, (hwindow i).mp hall⟩
  · rintro ⟨-, i, hi, hall⟩
    exact ⟨i, List.mem_range.mpr (by omega), (hwindow i).mpr hall⟩

/-- A token that is close to a lowered term is close to it in lower case. -/
lemma closeToken_toLowercase {haystack term : String} (hhaystack : T.AllSingle haystack) (hterm : T.AllSingle term)
    {maxDistance : ℕ} (h : T.closeToken haystack (T.toLowercase term) maxDistance = true) :
    T.closeToken (T.toLowercase haystack) (T.toLowercase term) maxDistance = true := by
  obtain ⟨token, htoken, hclose⟩ := List.any_eq_true.mp h
  rw [closeToken, tokens_toLowercase hhaystack]
  refine List.any_eq_true.mpr ⟨T.toLowercase token, List.mem_map_of_mem htoken, decide_eq_true ?_⟩
  calc levenshteinDistance (T.toLowercase token) (T.toLowercase term)
      = levenshteinDistance (T.toLowercase token) (T.toLowercase (T.toLowercase term)) := by
        rw [toLowercase_toLowercase hterm]
    _ = EditDistance.levenshteinDistance (token.toList.map T.lower) ((T.toLowercase term).toList.map T.lower) := by
        rw [levenshteinDistance, toList_toLowercase (hhaystack.token htoken), toList_toLowercase hterm.toLowercase]
    _ ≤ levenshteinDistance token (T.toLowercase term) := EditDistance.levenshteinDistance_map_le ..
    _ ≤ maxDistance := of_decide_eq_true hclose

/-- The characters of a fuzzy term are characters of the needle. -/
lemma AllSingle.fuzzy {needle term : String} {maxDistance : ℕ} (h : T.AllSingle needle)
    (hfuzzy : Needle.fuzzy? needle = some (term, maxDistance)) : T.AllSingle term := by
  unfold Needle.fuzzy? at hfuzzy
  cases hsplit : SearchQuery.splitAtLast '~' needle.toList with
  | none => simp [hsplit] at hfuzzy
  | some parts =>
    obtain ⟨before, suffix⟩ := parts
    rw [hsplit] at hfuzzy
    simp only [Option.ite_none_right_eq_some, Option.some.injEq, Prod.mk.injEq] at hfuzzy
    obtain ⟨-, rfl, -⟩ := hfuzzy
    intro c hc
    rw [String.toList_ofList] at hc
    unfold SearchQuery.splitAtLast at hsplit
    cases hdrop : needle.toList.reverse.dropWhile (· ≠ '~') with
    | nil =>
      rw [hdrop] at hsplit
      cases hsplit
    | cons d rest =>
      rw [hdrop] at hsplit
      simp only [Option.some.injEq, Prod.mk.injEq] at hsplit
      have hrest : c ∈ rest := by
        rw [← List.mem_reverse, hsplit.1]
        exact hc
      have hmem : c ∈ needle.toList.reverse :=
        (List.dropWhile_suffix _).subset (hdrop ▸ List.mem_cons_of_mem d hrest)
      exact h c (List.mem_reverse.mp hmem)

/-! ## When the case is not seen -/

/-- What holds of the first characters one by one holds of all of ASCII. -/
lemma forall_ascii {P : Char → Prop} (h : ∀ n < 128, P (Char.ofNat n)) {c : Char}
    (hc : decide (c.toNat < 128) = true) : P c := by
  have hP := h c.toNat (of_decide_eq_true hc)
  rwa [Char.ofNat_toNat] at hP

/-- The letters of ASCII. -/
def ascii : CaseTables where
  isAlphanumeric := Char.isAlphanum
  toLowercase s := String.ofList (s.toList.map Char.toLower)
  single c := decide (c.toNat < 128)
  lower := Char.toLower
  toLowercase_ofList cs _ := by rw [String.toList_ofList]
  single_lower _ hc := forall_ascii (P := fun c => decide (c.toLower.toNat < 128) = true) (by decide) hc
  lower_lower _ hc := forall_ascii (P := fun c => c.toLower.toLower = c.toLower) (by decide) hc
  isAlphanumeric_lower _ hc :=
    forall_ascii (P := fun c => c.toLower.isAlphanum = c.isAlphanum) (by decide) hc

end CaseTables

/-! ## The distance -/

namespace Executor

/-- `levenshtein_distance` of `maharit-query/src/executor.rs`: the text of the function is that of the full-text
index. -/
def levenshteinDistance (a b : String) : ℕ := EditDistance.levenshteinDistance a.toList b.toList

end Executor

/-- Both copies of the distance give the least number of edits of single characters that turn the one text into the
other; so they do not depend on the order, and are zero for the same text only. -/
theorem levenshtein_least (a b : String) :
    (IsLeast {n | EditDistance.Edits n a.toList b.toList} (levenshteinDistance a b) ∧
      levenshteinDistance a b = levenshteinDistance b a ∧ (levenshteinDistance a b = 0 ↔ a = b)) ∧
    IsLeast {n | EditDistance.Edits n a.toList b.toList} (Executor.levenshteinDistance a b) ∧
      Executor.levenshteinDistance a b = Executor.levenshteinDistance b a ∧
        (Executor.levenshteinDistance a b = 0 ↔ a = b) := by
  have hleast := EditDistance.isLeast_levenshteinDistance a.toList b.toList
  have hcomm := EditDistance.levenshteinDistance_comm a.toList b.toList
  have hzero := (EditDistance.levenshteinDistance_eq_zero a.toList b.toList).trans String.toList_inj
  exact ⟨⟨hleast, hcomm, hzero⟩, hleast, hcomm, hzero⟩

end Maharit
