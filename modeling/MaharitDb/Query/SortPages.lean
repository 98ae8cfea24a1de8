import MaharitDb.Query.LimitPrefix
import MaharitDb.Query.SortOrder

/-!
# Pages of a sorted result

`sort_rows_by_keys` of `maharit-query/src/executor.rs` sorts stably, but first keeps the rows that are
needed with `select_nth_unstable_by` when `SKIP` and `LIMIT` ask for fewer than all.  The standard library
promises which keys are kept, not which of the rows with equal keys, nor their order.
`pagesOfSort_iff` says when the page is that of the stable sort all the same.
-/

namespace Maharit

open Comparator

/-- A column of one kind of values, without floats. -/
structure HomogeneousColumn (S : Set Value) : Prop where
  noFloat : ∀ x, .float x ∉ S
  sameKind : ∀ v ∈ S, ∀ w ∈ S, v ≠ .null → w ≠ .null → v.sortKind = w.sortKind

/-- Such a column is sorted well. -/
lemma HomogeneousColumn.transOn {S : Set Value} (h : HomogeneousColumn S) :
    TransOn valueSortOrdering (nonNulls S) := by
  rw [transOn_valueSortOrdering_iff]
  by_cases hnone : ∀ v ∈ nonNulls S, v.sortKind = none
  · right
    rw [allTied_iff]
    intro v hv w _
    by_contra hne
    exact sortKind_ne_none hne (hnone v hv)
  left
  push Not at hnone
  obtain ⟨first, hfirst, hkind⟩ := hnone
  have hsame : ∀ v ∈ nonNulls S, v.sortKind = first.sortKind := fun v hv =>
    h.sameKind v hv.1 first hfirst.1 hv.2 hfirst.2
  cases hk : first.sortKind with
  | none => exact absurd hk hkind
  | some k =>
    rw [hk] at hsame
    cases k with
    | bool => exact Or.inl fun z hz => exists_of_sortKind_bool (hsame z hz)
    | string => exact Or.inr (Or.inl fun z hz => exists_of_sortKind_string (hsame z hz))
    | number =>
      refine Or.inr (Or.inr ⟨fun z hz => ?_, fun m n x _ _ hx => absurd hx.1 (h.noFloat x)⟩)
      rcases exists_of_sortKind_number (hsame z hz) with ⟨n, rfl⟩ | ⟨x, rfl⟩
      · exact Or.inl ⟨n, rfl⟩
      · exact absurd hz.1 (h.noFloat x)

/-! ## The stable sort -/

/-- Rows are compared by their keys. -/
def pairCmp (orderBy : List OrderByItem) (a b : List Value × Row) : Ordering :=
  compareKeys orderBy a.1 b.1

instance (orderBy : List OrderByItem) : Std.OrientedCmp (pairCmp orderBy) where
  eq_swap {a b} := swap_eq (compareKeys orderBy) b.1 a.1

/-- The stable sort of all rows. -/
def stableSort (orderBy : List OrderByItem) (pairs : List (List Value × Row)) :
    List (List Value × Row) :=
  pairs.mergeSort (le (pairCmp orderBy))

/-- Keys from homogeneous columns sort the rows. -/
lemma transOn_pairCmp {orderBy : List OrderByItem} {columns : List (Set Value)}
    (hcolumns : ∀ S ∈ columns, HomogeneousColumn S) {pairs : List (List Value × Row)}
    (hkeys : ∀ p ∈ pairs, p.1 ∈ KeyVectors columns) : TransOn (pairCmp orderBy) {p | p ∈ pairs} := by
  have htrans : TransOn (compareKeys orderBy) (KeyVectors columns) :=
    transOn_compareKeys_of fun S hS => (hcolumns S hS).transOn
  exact fun a ha b hb c hc => htrans a.1 (hkeys a ha) b.1 (hkeys b hb) c.1 (hkeys c hc)

/-! ## Pages -/

variable {σ : Type} (M : Semantics σ)

/-- The rows that `SKIP` and `LIMIT` give are those of the stable sort, whatever selection the standard
library makes within its promise. -/
def PagesOfSort (r : ReturnClause) (orderBy : List OrderByItem) (pairs : List (List Value × Row))
    (skip : Option ℕ) (limit : ℕ) : Prop :=
  ∀ smallest : (List Value × Row → List Value × Row → Ordering) → ℕ → List (List Value × Row) →
      List (List Value × Row),
    (∀ n < pairs.length, Selects (pairCmp orderBy) n pairs (smallest (pairCmp orderBy) n pairs)) →
    slice skip (some limit) (sortRows { M with smallest := smallest } r skip (some limit) pairs) =
      (((stableSort orderBy pairs).map (·.2)).drop (skip.getD 0)).take limit

/-- No row of the page has the keys of a different row. -/
def NoTieOnPage (orderBy : List OrderByItem) (pairs : List (List Value × Row)) (skip limit : ℕ) : Prop :=
  ∀ p ∈ ((stableSort orderBy pairs).drop skip).take limit, ∀ q ∈ pairs,
    compareKeys orderBy p.1 q.1 = .eq → q.2 = p.2

variable {M} {r : ReturnClause} {orderBy : List OrderByItem} {pairs : List (List Value × Row)}
  {skip : Option ℕ} {limit : ℕ}

/-- The page when all rows are needed. -/
lemma page_of_length_le (hr : r.orderBy = some orderBy) (hlen : pairs.length ≤ skip.getD 0 + limit) :
    slice skip (some limit) (sortRows M r skip (some limit) pairs) =
      (((stableSort orderBy pairs).map (·.2)).drop (skip.getD 0)).take limit := by
  simp only [sortRows, hr, sortRowsByKeys, Option.map_some, if_neg (Nat.not_lt.mpr hlen)]
  rfl

/-- The page when some rows are selected first. -/
lemma page_of_lt_length (hr : r.orderBy = some orderBy) (hlen : skip.getD 0 + limit < pairs.length)
    (hpos : 0 < limit) :
    slice skip (some limit) (sortRows M r skip (some limit) pairs) =
      (((stableSort orderBy (M.smallest (pairCmp orderBy) (skip.getD 0 + limit) pairs)).map
        (·.2)).drop (skip.getD 0)).take limit := by
  have hne : skip.getD 0 + limit ≠ 0 := by omega
  simp only [sortRows, hr, sortRowsByKeys, Option.map_some, if_pos hlen, if_neg hne]
  rfl

/-- A row of a page has a place in the sorted list. -/
lemma mem_page_iff {p : List Value × Row} {s k : ℕ} :
    p ∈ ((stableSort orderBy pairs).drop s).take k ↔
      ∃ i, s ≤ i ∧ i < s + k ∧ (stableSort orderBy pairs)[i]? = some p := by
  rw [List.mem_iff_getElem?]
  constructor
  · rintro ⟨i, hi⟩
    have hlt : i < k := by
      by_contra hge
      rw [List.getElem?_take_eq_none (by omega)] at hi
      cases hi
    rw [List.getElem?_take_of_lt hlt, List.getElem?_drop] at hi
    exact ⟨s + i, by omega, by omega, hi⟩
  · rintro ⟨i, hs, hlt, hi⟩
    refine ⟨i - s, ?_⟩
    rw [List.getElem?_take_of_lt (by omega), List.getElem?_drop, Nat.add_sub_cancel' hs, hi]

/-- Rows that are kept agree with the sorted rows on a page without ties. -/
lemma page_eq_of_noTie (htrans : TransOn (pairCmp orderBy) {p | p ∈ pairs}) {s k : ℕ}
    {kept : List (List Value × Row)} (hlen : s + k < pairs.length)
    (hsel : Selects (pairCmp orderBy) (s + k) pairs kept) (h : NoTieOnPage orderBy pairs s k) :
    (((stableSort orderBy kept).map (·.2)).drop s).take k =
      (((stableSort orderBy pairs).map (·.2)).drop s).take k := by
  have hkept : ∀ a ∈ kept, a ∈ pairs := by
    obtain ⟨-, pivot, rest, hperm, -⟩ := hsel
    exact fun a ha => hperm.mem_iff.mp (List.mem_append_left _ ha)
  have hlenkept : (stableSort orderBy kept).length = s + k := by
    rw [stableSort, List.length_mergeSort, hsel.1]
  have hlensorted : (stableSort orderBy pairs).length = pairs.length := List.length_mergeSort _
  refine List.ext_getElem? fun i => ?_
  by_cases hi : i < k
  · obtain ⟨a, ha⟩ : ∃ a, (stableSort orderBy kept)[s + i]? = some a :=
      ⟨_, List.getElem?_eq_getElem (by omega)⟩
    obtain ⟨b, hb⟩ : ∃ b, (stableSort orderBy pairs)[s + i]? = some b :=
      ⟨_, List.getElem?_eq_getElem (by omega)⟩
    have htie : compareKeys orderBy a.1 b.1 = .eq := hsel.tied htrans ha hb
    have htie' : compareKeys orderBy b.1 a.1 = .eq := by
      rw [swap_eq (compareKeys orderBy) a.1 b.1, htie]
      rfl
    have hpage : b ∈ ((stableSort orderBy pairs).drop s).take k :=
      mem_page_iff.mpr ⟨s + i, by omega, by omega, hb⟩
    have hsame : a.2 = b.2 :=
      h b hpage a (hkept a (List.mem_mergeSort.mp (List.mem_of_getElem? ha))) htie'
    rw [List.getElem?_take_of_lt hi, List.getElem?_take_of_lt hi, List.getElem?_drop, List.getElem?_drop,
      List.getElem?_map, List.getElem?_map, ha, hb, Option.map_some, Option.map_some, hsame]
  · rw [List.getElem?_take_eq_none (by omega), List.getElem?_take_eq_none (by omega)]

/-- `SKIP` and `LIMIT` give the rows of the stable sort exactly when they ask for all rows, or when no
row of the page has the same keys as a row with other values. -/
theorem pagesOfSort_iff (M : Semantics σ) (r : ReturnClause) (orderBy : List OrderByItem)
    (hr : r.orderBy = some orderBy) (columns : List (Set Value))
    (hcolumns : ∀ S ∈ columns, HomogeneousColumn S) (pairs : List (List Value × Row))
    (hkeys : ∀ p ∈ pairs, p.1 ∈ KeyVectors columns) (skip : Option ℕ) (limit : ℕ) :
    PagesOfSort M r orderBy pairs skip limit ↔
      (skip.getD 0 + limit < pairs.length → NoTieOnPage orderBy pairs (skip.getD 0) limit) := by
  have htrans : TransOn (pairCmp orderBy) {p | p ∈ pairs} := transOn_pairCmp hcolumns hkeys
  constructor
  · intro h hlen p hp q hq htie
    by_contra hne
    obtain ⟨i, hs, hi, hpi⟩ := mem_page_iff.mp hp
    have hqsorted : q ∈ stableSort orderBy pairs := List.mem_mergeSort.mpr hq
    obtain ⟨j, hqj⟩ := List.mem_iff_getElem?.mp hqsorted
    have hij : i ≠ j := by
      rintro rfl
      rw [hqj] at hpi
      exact hne (congrArg Prod.snd (Option.some.inj hpi))
    -- The selection that exchanges the two rows.
    obtain ⟨kept, hsel, hstable, hkept⟩ := exists_selects_swap htrans hlen hi hij hpi hqj htie
    have hpage := h (fun _ n l => if n = skip.getD 0 + limit then kept else (stableSort orderBy l).take n)
      fun n hn => by
        split_ifs with heq
        · exact heq ▸ hsel
        · exact selects_take (List.mergeSort_perm _ _) (pairwise_mergeSort htrans) hn
    rw [page_of_lt_length hr hlen (by omega)] at hpage
    simp only [if_true] at hpage
    have hrow := congrArg (·[i - skip.getD 0]?) hpage
    have hstable' : stableSort orderBy kept = kept := hstable
    simp only [List.getElem?_take_of_lt (show i - skip.getD 0 < limit by omega), List.getElem?_drop,
      List.getElem?_map, Nat.add_sub_cancel' hs, hstable', hkept, hpi, Option.map_some,
      Option.some.injEq] at hrow
    exact hne hrow
  · intro h smallest hsel
    by_cases hlen : skip.getD 0 + limit < pairs.length
    · by_cases hpos : 0 < limit
      · rw [page_of_lt_length hr hlen hpos]
        exact page_eq_of_noTie htrans hlen (hsel _ hlen) (h hlen)
      · have hzero : limit = 0 := by omega
        subst hzero
        simp [slice]
    · exact page_of_length_le hr (by omega)

/-- The clause `ORDER BY v LIMIT ...`. -/
def orderedClause : ReturnClause := { returnVariableClause "n" with orderBy := some [ascending] }

/-- A column of integers. -/
lemma homogeneousColumn_one_two : HomogeneousColumn {.int 1, .int 2} where
  noFloat x := by simp
  sameKind v hv w hw _ _ := by
    rcases hv with rfl | rfl <;> rcases hw with rfl | rfl <;> rfl

/-- Two rows with different keys: `LIMIT 1` gives the first of the sorted rows. -/
theorem pagesOfSort_two :
    PagesOfSort plainSemantics orderedClause [ascending]
      [([.int 2], [.string "b"]), ([.int 1], [.string "a"])] none 1 := by
  refine (pagesOfSort_iff _ _ _ rfl [{.int 1, .int 2}] (by simpa using homogeneousColumn_one_two) _
    (by simp [KeyVectors]) _ _).mpr fun _ p hp q hq htie => ?_
  have hp' := List.mem_mergeSort.mp (List.mem_of_mem_drop (List.mem_of_mem_take hp))
  simp only [List.mem_cons, List.not_mem_nil, or_false] at hp' hq
  rcases hp' with rfl | rfl <;> rcases hq with rfl | rfl <;> first | rfl | exact absurd htie (by decide)

/-- The place of the first of the greatest elements. -/
def firstMax {α : Type} (cmp : α → α → Ordering) (l : List α) : ℕ :=
  ((l.zipIdx.foldl (fun held t =>
    match held with
    | none => some t
    | some m => if cmp m.1 t.1 = .lt then some t else some m) none).map (·.2)).getD 0

/-- `select_nth_unstable_by` for the last index, and `truncate`: the first of the greatest elements is
exchanged with the last element. -/
def selectLast {α : Type} (cmp : α → α → Ordering) (n : ℕ) (l : List α) : List α :=
  match l.getLast? with
  | some last => (l.set (firstMax cmp l) last).take n
  | none => []

/-- Two rows with equal keys. -/
def tiedRows : List (List Value × Row) := [([.int 1], [.string "a"]), ([.int 1], [.string "b"])]

lemma stableSort_tiedRows : stableSort [ascending] tiedRows = tiedRows :=
  List.mergeSort_of_pairwise (by decide)

/-- `LIMIT 1` gives the row b, and `SKIP 1 LIMIT 1` gives it again: the row a is on no page. -/
theorem not_pagesOfSort_tied :
    ¬ PagesOfSort plainSemantics orderedClause [ascending] tiedRows none 1 ∧
      slice none (some 1) (sortRows { plainSemantics with smallest := selectLast } orderedClause none
        (some 1) tiedRows) = [[.string "b"]] ∧
      slice (some 1) (some 1) (sortRows { plainSemantics with smallest := selectLast } orderedClause
        (some 1) (some 1) tiedRows) = [[.string "b"]] := by
  refine ⟨fun h => ?_, ?_, ?_⟩
  · have hnone : NoTieOnPage [ascending] tiedRows 0 1 :=
      (pagesOfSort_iff plainSemantics orderedClause [ascending] rfl [{.int 1, .int 2}]
        (by simpa using homogeneousColumn_one_two) tiedRows (by simp [KeyVectors, tiedRows]) none 1).mp h
        (by decide)
    rw [NoTieOnPage, stableSort_tiedRows] at hnone
    have hrow : ([.string "b"] : Row) = [.string "a"] :=
      hnone ([.int 1], [.string "a"]) List.mem_cons_self ([.int 1], [.string "b"]) (by simp [tiedRows]) rfl
    exact absurd hrow (by simp)
  · rw [page_of_lt_length rfl (by decide) (by decide)]
    have hselect : selectLast (pairCmp [ascending]) 1 tiedRows = [([.int 1], [.string "b"])] := rfl
    change (((stableSort [ascending] (selectLast (pairCmp [ascending]) 1 tiedRows)).map (·.2)).drop 0).take 1 = _
    rw [hselect, stableSort, List.mergeSort_singleton]
    rfl
  · have hr : orderedClause.orderBy = some [ascending] := rfl
    rw [page_of_length_le hr (by decide), stableSort_tiedRows]
    rfl

end Maharit
