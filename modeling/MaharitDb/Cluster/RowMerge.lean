import MaharitDb.Lib.AssocMap
import MaharitDb.Lib.DecimalText
import Mathlib.Data.String.Basic

/-!
# Merging the rows of shards

Both coordinators drop rows that came before: `merge_results` (`maharit-cluster/src/coordinator.rs`) compares the
typed values of the columns, `merge_rows` (`maharit-server/src/coordinator.rs`) their texts.  The two keep the same
rows if and only if no two rows have the same texts and different values.
-/

namespace Maharit

namespace Coordinator

/-- A scalar value that can appear in a result row. -/
inductive RowValue where
  | null
  | int (n : Int64)
  | text (s : String)
  | bool (b : Bool)
  deriving DecidableEq, Repr

/-- One row of a query result: column values keyed by column name. -/
structure Row where
  columns : HashMap String RowValue

/-- `row_value_to_string`. -/
def rowValueToString : RowValue → String
  | .null => "null"
  | .int n => toString n.toInt
  | .text s => s
  | .bool b => toString b

namespace Row

/-- The columns by name, each with something computed from its value. -/
def sortedKey {κ : Type} (f : RowValue → κ) (row : Row) : List (String × κ) :=
  (row.columns.entries.map fun e => (e.1, f e.2)).mergeSort fun a b => decide (a.1 ≤ b.1)

/-- The key of `merge_rows`. -/
def textKey (row : Row) : List (String × String) := row.sortedKey rowValueToString

/-- The key of `merge_results`. -/
def typedKey (row : Row) : List (String × RowValue) := row.sortedKey id

/-- The rows have the same columns with the same values. -/
def SameValues (row row' : Row) : Prop := ∀ column, row.columns.lookup column = row'.columns.lookup column

/-- The rows have the same columns with values of the same texts. -/
def SameTexts (row row' : Row) : Prop := ∀ column,
  (row.columns.lookup column).map rowValueToString = (row'.columns.lookup column).map rowValueToString

end Row

section Merge

variable {κ : Type} [DecidableEq κ]

/-- The loop of both functions: a row whose key was seen is dropped. -/
def mergeBy (key : Row → κ) : (seen : List κ) → List Row → List Row
  | _, [] => []
  | seen, row :: rows =>
      if key row ∈ seen then mergeBy key seen rows else row :: mergeBy key (key row :: seen) rows

end Merge

/-- `merge_rows` of the server. -/
def mergeRows (batches : List (List Row)) : List Row := mergeBy Row.textKey [] batches.flatten

/-- `merge_results` of the cluster crate. -/
def mergeResults (batches : List (List Row)) : List Row := mergeBy Row.typedKey [] batches.flatten

/-! ## Keys -/

namespace Row

variable {κ : Type} {f : RowValue → κ} {row row' : Row}

/-- The sorted key says exactly what each column has. -/
lemma sortedKey_eq_iff : row.sortedKey f = row'.sortedKey f ↔
    ∀ column, (row.columns.lookup column).map f = (row'.columns.lookup column).map f := by
  have hmem : ∀ (row : Row) (column : String) (k : κ),
      (column, k) ∈ row.sortedKey f ↔ (row.columns.lookup column).map f = some k := by
    intro row column k
    rw [sortedKey, List.mem_mergeSort, List.mem_map, Option.map_eq_some_iff]
    constructor
    · rintro ⟨⟨column', v⟩, hentry, heq⟩
      cases heq
      exact ⟨v, (List.mem_dlookup_iff row.columns.nodupKeys).mpr hentry, rfl⟩
    · rintro ⟨v, hlookup, rfl⟩
      exact ⟨⟨column, v⟩, AList.mem_lookup_iff.mp hlookup, rfl⟩
  have hnodup : ∀ row : Row, ((row.sortedKey f).map Prod.fst).Nodup := by
    intro row
    have hperm := (List.mergeSort_perm (row.columns.entries.map fun e => (e.1, f e.2))
      fun a b => decide (a.1 ≤ b.1)).map Prod.fst
    rw [sortedKey, hperm.nodup_iff, List.map_map]
    exact row.columns.nodupKeys
  have hsorted : ∀ row : Row, (row.sortedKey f).Pairwise fun a b => a.1 ≤ b.1 := by
    intro row
    have h := @List.pairwise_mergeSort _ (fun a b : String × κ => decide (a.1 ≤ b.1))
      (fun a b c hab hbc => by
        simp only [decide_eq_true_eq] at hab hbc ⊢
        exact le_trans hab hbc)
      (fun a b => by
        simp only [Bool.or_eq_true, decide_eq_true_eq]
        exact le_total a.1 b.1)
      (row.columns.entries.map fun e => (e.1, f e.2))
    exact h.imp fun hab => of_decide_eq_true hab
  constructor
  · intro heq column
    refine Option.ext fun k => ?_
    rw [← hmem, ← hmem, heq]
  · intro hlookup
    have hperm : (row.sortedKey f).Perm (row'.sortedKey f) := by
      refine (List.perm_ext_iff_of_nodup (List.Nodup.of_map _ (hnodup row))
        (List.Nodup.of_map _ (hnodup row'))).mpr ?_
      rintro ⟨column, k⟩
      rw [hmem, hmem, hlookup]
    refine List.Perm.eq_of_pairwise ?_ (hsorted row) (hsorted row') hperm
    rintro ⟨column, k⟩ ⟨column', k'⟩ ha hb hle hle'
    obtain rfl : column = column' := le_antisymm hle hle'
    have hk := (hmem row column k).mp ha
    rw [hlookup, (hmem row' column k').mp hb, Option.some.injEq] at hk
    rw [hk]

lemma typedKey_eq_iff : row.typedKey = row'.typedKey ↔ row.SameValues row' := by
  rw [typedKey, typedKey, sortedKey_eq_iff]
  simp [SameValues]

lemma textKey_eq_iff : row.textKey = row'.textKey ↔ row.SameTexts row' := sortedKey_eq_iff

lemma SameValues.sameTexts (h : row.SameValues row') : row.SameTexts row' := fun column => by rw [h column]

end Row

/-! ## What is kept -/

open Classical in
/-- The rows that equal none before them. -/
noncomputable def firstRows (same : Row → Row → Prop) (rows : List Row) : List Row :=
  (rows.zipIdx.filter fun e => ∀ row ∈ rows.take e.2, ¬ same row e.1).map Prod.fst

section Kept

variable {κ : Type} [DecidableEq κ]

open Classical in
/-- A row is kept exactly when neither the rows before nor the keys seen have its key. -/
lemma mergeBy_eq (key : Row → κ) (seen : List κ) (rows : List Row) :
    mergeBy key seen rows = (rows.zipIdx.filter fun e =>
      decide (key e.1 ∉ seen ∧ ∀ row ∈ rows.take e.2, ¬ key row = key e.1)).map Prod.fst := by
  induction rows generalizing seen with
  | nil => rfl
  | cons row rows ih =>
    have hshift : ∀ seen' : List κ, (∀ k, k ∈ seen' ↔ k = key row ∨ k ∈ seen) →
        mergeBy key seen' rows = (((rows.zipIdx 1).filter fun e =>
          decide (key e.1 ∉ seen ∧ ∀ r ∈ (row :: rows).take e.2, ¬ key r = key e.1)).map Prod.fst) := by
      intro seen' hseen'
      have hzip : rows.zipIdx 1 = rows.zipIdx.map fun e => (e.1, e.2 + 1) := List.zipIdx_succ ..
      rw [ih, hzip, List.filter_map, List.map_map]
      refine congrArg (List.map Prod.fst) (List.filter_congr fun e _ => ?_)
      simp only [Function.comp_apply, List.take_succ_cons, List.forall_mem_cons, hseen', decide_eq_decide]
      tauto
    rw [List.zipIdx_cons, mergeBy, Nat.zero_add]
    by_cases hrow : key row ∈ seen
    · rw [if_pos hrow, hshift seen fun k => ⟨Or.inr, fun h => h.elim (fun heq => heq ▸ hrow) id⟩,
        List.filter_cons_of_neg (by simp [hrow])]
    · rw [if_neg hrow, hshift (key row :: seen) fun k => List.mem_cons,
        List.filter_cons_of_pos (by simp [hrow]), List.map_cons]

/-- Every row that was not seen has a kept row with its key. -/
lemma exists_mem_mergeBy (key : Row → κ) (seen : List κ) {rows : List Row} {row : Row} (hrow : row ∈ rows) :
    key row ∈ seen ∨ ∃ kept ∈ mergeBy key seen rows, key kept = key row := by
  induction rows generalizing seen with
  | nil => cases hrow
  | cons first rows ih =>
    rw [mergeBy]
    rcases List.mem_cons.mp hrow with rfl | hrow
    · by_cases hseen : key row ∈ seen
      · exact Or.inl hseen
      · rw [if_neg hseen]
        exact Or.inr ⟨row, List.mem_cons_self, rfl⟩
    · by_cases hseen : key first ∈ seen
      · rw [if_pos hseen]
        exact ih seen hrow
      · rw [if_neg hseen]
        rcases ih (key first :: seen) hrow with hmem | ⟨kept, hkept, hkey⟩
        · rcases List.mem_cons.mp hmem with heq | hmem
          · exact Or.inr ⟨first, List.mem_cons_self, heq.symm⟩
          · exact Or.inl hmem
        · exact Or.inr ⟨kept, List.mem_cons_of_mem _ hkept, hkey⟩

/-- No two kept rows have the same key. -/
lemma nodup_mergeBy (key : Row → κ) (seen : List κ) (rows : List Row) :
    ((mergeBy key seen rows).map key).Nodup ∧ ∀ k ∈ (mergeBy key seen rows).map key, k ∉ seen := by
  induction rows generalizing seen with
  | nil => exact ⟨List.nodup_nil, fun k hk => by cases hk⟩
  | cons row rows ih =>
    rw [mergeBy]
    by_cases hrow : key row ∈ seen
    · rw [if_pos hrow]
      exact ih seen
    · rw [if_neg hrow, List.map_cons]
      obtain ⟨hnodup, hnew⟩ := ih (key row :: seen)
      refine ⟨List.nodup_cons.mpr ⟨fun hmem => hnew _ hmem List.mem_cons_self, hnodup⟩, ?_⟩
      rintro k hk
      rcases List.mem_cons.mp hk with rfl | hk
      · exact hrow
      · exact fun hseen => hnew k hk (List.mem_cons_of_mem _ hseen)

/-- Keys that tell the same rows apart keep the same rows. -/
lemma mergeBy_congr {κ' : Type} [DecidableEq κ'] {key : Row → κ} {key' : Row → κ'} {rows : List Row}
    (hkeys : ∀ row ∈ rows, ∀ row' ∈ rows, key row = key row' ↔ key' row = key' row') {seen : List κ}
    {seen' : List κ'} (hseen : ∀ row ∈ rows, key row ∈ seen ↔ key' row ∈ seen') :
    mergeBy key seen rows = mergeBy key' seen' rows := by
  induction rows generalizing seen seen' with
  | nil => rfl
  | cons row rows ih =>
    have hrest : ∀ r ∈ rows, ∀ r' ∈ rows, key r = key r' ↔ key' r = key' r' := fun r hr r' hr' =>
      hkeys r (List.mem_cons_of_mem _ hr) r' (List.mem_cons_of_mem _ hr')
    have hrow := hseen row List.mem_cons_self
    rw [mergeBy, mergeBy]
    by_cases hmem : key row ∈ seen
    · rw [if_pos hmem, if_pos (hrow.mp hmem)]
      exact ih hrest fun r hr => hseen r (List.mem_cons_of_mem _ hr)
    · rw [if_neg hmem, if_neg fun h => hmem (hrow.mpr h)]
      refine congrArg _ (ih hrest fun r hr => ?_)
      rw [List.mem_cons, List.mem_cons, hseen r (List.mem_cons_of_mem _ hr),
        hkeys r (List.mem_cons_of_mem _ hr) row List.mem_cons_self]

/-- A coarser key keeps the same rows if and only if it confuses none of them. -/
lemma mergeBy_eq_mergeBy_iff {κ' : Type} [DecidableEq κ'] {key : Row → κ} {key' : Row → κ'}
    (hcoarser : ∀ row row', key' row = key' row' → key row = key row') (rows : List Row) :
    mergeBy key [] rows = mergeBy key' [] rows ↔
      ∀ row ∈ rows, ∀ row' ∈ rows, key row = key row' → key' row = key' row' := by
  constructor
  · intro heq row hrow row' hrow' hkey
    obtain ⟨kept, hkept, hkeptKey⟩ := (exists_mem_mergeBy key' [] hrow).resolve_left List.not_mem_nil
    obtain ⟨kept', hkept', hkeptKey'⟩ := (exists_mem_mergeBy key' [] hrow').resolve_left List.not_mem_nil
    have hsame : key kept = key kept' :=
      calc
        key kept = key row := hcoarser _ _ hkeptKey
        _ = key row' := hkey
        _ = key kept' := (hcoarser _ _ hkeptKey').symm
    rw [← heq] at hkept hkept'
    have hone : kept = kept' := List.inj_on_of_nodup_map (nodup_mergeBy key [] rows).1 hkept hkept' hsame
    rw [← hkeptKey, ← hkeptKey', hone]
  · intro hkeys
    exact mergeBy_congr (fun row hrow row' hrow' => ⟨hkeys row hrow row' hrow', hcoarser row row'⟩)
      fun row _ => iff_of_false List.not_mem_nil List.not_mem_nil

end Kept

/-! ## The two coordinators -/

/-- The server's coordinator and the one of the cluster crate keep the same rows, and drop exactly those that equal
an earlier one. -/
structure MergesAgree (batches : List (List Row)) : Prop where
  agree : mergeRows batches = mergeResults batches
  first : mergeResults batches = firstRows Row.SameValues batches.flatten

lemma mergeResults_eq (batches : List (List Row)) :
    mergeResults batches = firstRows Row.SameValues batches.flatten := by
  rw [mergeResults, mergeBy_eq, firstRows]
  refine congrArg (List.map Prod.fst) (List.filter_congr fun e _ => ?_)
  rw [decide_eq_decide]
  simp only [List.not_mem_nil, not_false_eq_true, true_and, Row.typedKey_eq_iff]

/-- The two keep the same rows when the texts tell all of them apart that the values do. -/
lemma mergeRows_eq_mergeResults_iff (batches : List (List Row)) :
    mergeRows batches = mergeResults batches ↔
      ∀ row ∈ batches.flatten, ∀ row' ∈ batches.flatten, row.SameTexts row' → row.SameValues row' := by
  have hcoarser : ∀ row row', Row.typedKey row = Row.typedKey row' → Row.textKey row = Row.textKey row' :=
    fun row row' h => Row.textKey_eq_iff.mpr (Row.typedKey_eq_iff.mp h).sameTexts
  have hkeys := mergeBy_eq_mergeBy_iff hcoarser batches.flatten
  simp only [Row.textKey_eq_iff, Row.typedKey_eq_iff] at hkeys
  exact hkeys

/-- They agree if and only if no two rows have columns of the same texts and of different values. -/
theorem mergesAgree_iff (batches : List (List Row)) :
    MergesAgree batches ↔
      ∀ row ∈ batches.flatten, ∀ row' ∈ batches.flatten, row.SameTexts row' → row.SameValues row' :=
  ⟨fun h => (mergeRows_eq_mergeResults_iff batches).mp h.agree,
    fun h => ⟨(mergeRows_eq_mergeResults_iff batches).mpr h, mergeResults_eq batches⟩⟩

/-- Two shards answer with the number one and with the text `1`. -/
theorem not_mergesAgree_oneAsText : ¬ ∀ batches, MergesAgree batches := by
  intro h
  set one : Row := ⟨(∅ : HashMap String RowValue).insert "x" (.int 1)⟩ with hone
  set text : Row := ⟨(∅ : HashMap String RowValue).insert "x" (.text "1")⟩ with htext
  have hkept := (mergeRows_eq_mergeResults_iff [[one], [text]]).mp (h _).agree
  have hsameTexts : one.SameTexts text := by
    intro column
    by_cases hcolumn : column = "x"
    · subst hcolumn
      decide
    · have hlookup : ∀ v, ((∅ : HashMap String RowValue).insert "x" v).lookup column = none :=
        fun v => AList.lookup_insert_ne hcolumn
      rw [hone, htext, hlookup, hlookup]
  have hsame := hkept one (by simp) text (by simp) hsameTexts "x"
  exact absurd hsame (by decide)

end Coordinator

end Maharit
