import MaharitDb.Core.FloatRounding
import MaharitDb.Lib.Comparator
import MaharitDb.Query.Segment

/-!
# The order of `ORDER BY`

When `compare_keys` of `maharit-query/src/executor.rs` is a total preorder.  The comparator answers
`Equal` for two values of different kinds, and for two values of a kind it does not list (dates,
datetimes, lists and so on), so in a column of mixed kinds a third value ties with two that differ.
`keysOrdered_iff` says which columns are sorted well.
-/

namespace Maharit

open Comparator

/-! ## The comparator of values -/

namespace F64

/-- The comparison of two floats that counts a NaN as equal. -/
def sortCmp (x y : F64) : Ordering := (x.partialCmp y).getD .eq

instance : Std.OrientedCmp sortCmp where
  eq_swap {x y} := by
    unfold sortCmp partialCmp
    by_cases hx : x.isNan <;> by_cases hy : y.isNan <;> simp [hx, hy]
    exact Std.OrientedCmp.eq_swap

/-- Two numbers compare by their places. -/
lemma sortCmp_of_not_nan {x y : F64} (hx : x.isNan = false) (hy : y.isNan = false) :
    sortCmp x y = compare x.orderKey y.orderKey := by
  simp [sortCmp, partialCmp, hx, hy]

/-- A NaN ties with everything. -/
lemma sortCmp_nan {x y : F64} (h : x.isNan = true ∨ y.isNan = true) : sortCmp x y = .eq := by
  rcases h with h | h <;> simp [sortCmp, partialCmp, h]

end F64

instance : Std.OrientedCmp valueSortOrdering where
  eq_swap {v w} := by
    cases v with
    | bool a =>
      cases w with
      | bool b => exact swap_eq (compare : Bool → Bool → Ordering) b a
      | _ => rfl
    | int a =>
      cases w with
      | int b => exact swap_eq (compare : Int64 → Int64 → Ordering) b a
      | float y => exact swap_eq F64.sortCmp y (F64.ofInt64 a)
      | _ => rfl
    | float x =>
      cases w with
      | int b => exact swap_eq F64.sortCmp (F64.ofInt64 b) x
      | float y => exact swap_eq F64.sortCmp y x
      | _ => rfl
    | string a =>
      cases w with
      | string b => exact swap_eq (compare : String → String → Ordering) b a
      | _ => rfl
    | _ => cases w <;> rfl

/-- The comparator of one item of `ORDER BY`. -/
def itemCmp (direction : OrderDirection) (nulls : NullsOrder) (v w : Value) : Ordering :=
  compareValuesForSort v w direction nulls

/-- Values that are not null are compared by their kinds, in the direction of the item. -/
lemma itemCmp_of_ne_null {d : OrderDirection} {n : NullsOrder} {v w : Value} (hv : v ≠ .null)
    (hw : w ≠ .null) : itemCmp d n v w =
      match d with
      | .asc => valueSortOrdering v w
      | .desc => (valueSortOrdering v w).swap := by
  unfold itemCmp
  cases v <;> cases w <;> first | rfl | exact absurd rfl hv | exact absurd rfl hw

/-- `nulls_last`. -/
def NullsOrder.isLast (n : NullsOrder) (d : OrderDirection) : Bool :=
  match n with
  | .first => false
  | .last => true
  | .default => d == .asc

/-- A null is before or after all other values, as the item says. -/
lemma itemCmp_null {d : OrderDirection} {n : NullsOrder} {v : Value} (hv : v ≠ .null) :
    itemCmp d n .null v = (if n.isLast d then .gt else .lt) ∧
      itemCmp d n v .null = (if n.isLast d then .lt else .gt) := by
  cases v with
  | null => exact absurd rfl hv
  | _ => exact ⟨rfl, rfl⟩

instance (d : OrderDirection) (n : NullsOrder) : Std.OrientedCmp (itemCmp d n) where
  eq_swap {v w} := by
    by_cases hv : v = .null <;> by_cases hw : w = .null
    · rw [hv, hw]
      rfl
    · rw [hv, (itemCmp_null hw).1, (itemCmp_null hw).2]
      split_ifs <;> rfl
    · rw [hw, (itemCmp_null hv).1, (itemCmp_null hv).2]
      split_ifs <;> rfl
    · rw [itemCmp_of_ne_null hv hw, itemCmp_of_ne_null hw hv]
      cases d with
      | asc => exact swap_eq valueSortOrdering w v
      | desc => exact congrArg Ordering.swap (swap_eq valueSortOrdering w v)

/-- The values of a column that are not null. -/
def nonNulls (S : Set Value) : Set Value := {v | v ∈ S ∧ v ≠ .null}

/-- Nulls and the direction of an item do not matter for transitivity. -/
lemma transOn_itemCmp {d : OrderDirection} {n : NullsOrder} {S : Set Value} :
    TransOn (itemCmp d n) S ↔ TransOn valueSortOrdering (nonNulls S) := by
  have hdirection : TransOn (itemCmp d n) (nonNulls S) ↔ TransOn valueSortOrdering (nonNulls S) := by
    have hcmp : ∀ v ∈ nonNulls S, ∀ w ∈ nonNulls S, itemCmp d n v w =
        match d with
        | .asc => valueSortOrdering v w
        | .desc => (valueSortOrdering v w).swap := fun v hv w hw => itemCmp_of_ne_null hv.2 hw.2
    have hcongr : TransOn (itemCmp d n) (nonNulls S) ↔
        TransOn (fun v w => match d with
          | .asc => valueSortOrdering v w
          | .desc => (valueSortOrdering v w).swap) (nonNulls S) := by
      unfold TransOn
      refine forall₂_congr fun u hu => forall₂_congr fun v hv => forall₂_congr fun w hw => ?_
      rw [hcmp u hu v hv, hcmp v hv w hw, hcmp u hu w hw]
    rw [hcongr]
    cases d with
    | asc => rfl
    | desc => exact transOn_swap
  rw [← hdirection]
  refine ⟨fun h => h.mono fun v hv => hv.1, fun h => ?_⟩
  intro u hu v hv w hw huv hvw
  by_cases hunull : u = .null
  · subst hunull
    by_cases hvnull : v = .null
    · exact hvnull ▸ hvw
    · by_cases hwnull : w = .null
      · rw [hwnull]
        exact isLE_of_eq (self_eq Value.null)
      · rw [(itemCmp_null hvnull).1] at huv
        rw [(itemCmp_null hwnull).1]
        exact huv
  · by_cases hvnull : v = .null
    · subst hvnull
      by_cases hwnull : w = .null
      · exact hwnull ▸ huv
      · -- A null cannot be both before and after the values.
        rw [(itemCmp_null hunull).2] at huv
        rw [(itemCmp_null hwnull).1] at hvw
        cases hlast : n.isLast d with
        | true => exact absurd hvw (by simp [hlast])
        | false => exact absurd huv (by simp [hlast])
    · by_cases hwnull : w = .null
      · subst hwnull
        rw [(itemCmp_null hvnull).2] at hvw
        rw [(itemCmp_null hunull).2]
        exact hvw
      · exact h u ⟨hu, hunull⟩ v ⟨hv, hvnull⟩ w ⟨hw, hwnull⟩ huv hvw

/-! ## Columns -/

/-- A column of numbers: no NaN, and no float that is the rounding of two different integers. -/
structure NumberColumn (S : Set Value) : Prop where
  numbers : ∀ v ∈ S, (∃ n, v = .int n) ∨ ∃ x, v = .float x ∧ x.isNan = false
  roundings : ∀ m n x, .int m ∈ S → .int n ∈ S → .float x ∈ S →
    (F64.ofInt64 m).numEq x = true → (F64.ofInt64 n).numEq x = true → m = n

/-- The values are all booleans, all strings, or all numbers. -/
def OneKind (S : Set Value) : Prop :=
  (∀ v ∈ S, ∃ b, v = .bool b) ∨ (∀ v ∈ S, ∃ s, v = .string s) ∨ NumberColumn S

/-- A number as the float it is compared as. -/
def Value.asFloat : Value → Option F64
  | .int n => some (F64.ofInt64 n)
  | .float x => some x
  | _ => none

/-- No two booleans differ, no two strings, and no two numbers. -/
structure AllTied (S : Set Value) : Prop where
  bools : ∀ a b, .bool a ∈ S → .bool b ∈ S → a = b
  strings : ∀ a b, .string a ∈ S → .string b ∈ S → a = b
  ints : ∀ a b, .int a ∈ S → .int b ∈ S → a = b
  floats : ∀ x v y, .float x ∈ S → v ∈ S → v.asFloat = some y →
    x.isNan = true ∨ y.isNan = true ∨ x.numEq y = true

/-- Two floats tie when one is NaN or they are equal. -/
lemma F64.sortCmp_eq_iff {x y : F64} :
    F64.sortCmp x y = .eq ↔ x.isNan = true ∨ y.isNan = true ∨ x.numEq y = true := by
  unfold F64.sortCmp F64.numEq F64.partialCmp
  by_cases hx : x.isNan <;> by_cases hy : y.isNan <;> simp [hx, hy]

/-- In such a column every two values tie. -/
lemma allTied_iff {S : Set Value} :
    AllTied S ↔ ∀ v ∈ S, ∀ w ∈ S, valueSortOrdering v w = .eq := by
  constructor
  · intro h v hv w hw
    cases v with
    | bool a =>
      cases w with
      | bool b => exact Std.compare_eq_iff_eq.mpr (h.bools a b hv hw)
      | _ => rfl
    | string a =>
      cases w with
      | string b => exact Std.compare_eq_iff_eq.mpr (h.strings a b hv hw)
      | _ => rfl
    | int a =>
      cases w with
      | int b => exact Std.compare_eq_iff_eq.mpr (h.ints a b hv hw)
      | float y =>
        have htie : F64.sortCmp y (F64.ofInt64 a) = .eq :=
          F64.sortCmp_eq_iff.mpr (h.floats y (.int a) _ hw hv rfl)
        change F64.sortCmp (F64.ofInt64 a) y = .eq
        rw [swap_eq F64.sortCmp y, htie]
        rfl
      | _ => rfl
    | float x =>
      cases w with
      | int b => exact F64.sortCmp_eq_iff.mpr (h.floats x (.int b) _ hv hw rfl)
      | float y => exact F64.sortCmp_eq_iff.mpr (h.floats x (.float y) _ hv hw rfl)
      | _ => rfl
    | _ => cases w <;> rfl
  · intro h
    refine ⟨fun a b ha hb => Std.compare_eq_iff_eq.mp (h _ ha _ hb),
      fun a b ha hb => Std.compare_eq_iff_eq.mp (h _ ha _ hb),
      fun a b ha hb => Std.compare_eq_iff_eq.mp (h _ ha _ hb), ?_⟩
    intro x v y hx hv hy
    cases v with
    | int n => exact Option.some.inj hy ▸ F64.sortCmp_eq_iff.mp (h _ hx _ hv)
    | float z => exact Option.some.inj hy ▸ F64.sortCmp_eq_iff.mp (h _ hx _ hv)
    | _ => exact absurd hy (by simp [Value.asFloat])

/-- Integers compare exactly. -/
lemma valueSortOrdering_int {m n : Int64} :
    (valueSortOrdering (.int m) (.int n)).isLE = true ↔ m.toInt ≤ n.toInt := by
  have hcompare : (compare m n).isLE = true ↔ m ≤ n := Std.isLE_compare
  exact hcompare.trans Int64.le_iff_toInt_le

/-- An integer and a float compare by their places among the floats. -/
lemma valueSortOrdering_int_float {n : Int64} {x : F64} (hx : x.isNan = false) :
    ((valueSortOrdering (.int n) (.float x)).isLE = true ↔ F64.roundedKey n ≤ x.orderKey) ∧
      ((valueSortOrdering (.float x) (.int n)).isLE = true ↔ x.orderKey ≤ F64.roundedKey n) := by
  obtain ⟨hnan, hkey⟩ := F64.ofInt64_spec n
  have hleft : valueSortOrdering (.int n) (.float x) = F64.sortCmp (F64.ofInt64 n) x := rfl
  have hright : valueSortOrdering (.float x) (.int n) = F64.sortCmp x (F64.ofInt64 n) := rfl
  rw [hleft, hright, F64.sortCmp_of_not_nan hnan hx, F64.sortCmp_of_not_nan hx hnan, hkey,
    Std.isLE_compare, Std.isLE_compare]
  exact ⟨Iff.rfl, Iff.rfl⟩

lemma valueSortOrdering_float {x y : F64} (hx : x.isNan = false) (hy : y.isNan = false) :
    (valueSortOrdering (.float x) (.float y)).isLE = true ↔ x.orderKey ≤ y.orderKey := by
  have hcmp : valueSortOrdering (.float x) (.float y) = F64.sortCmp x y := rfl
  rw [hcmp, F64.sortCmp_of_not_nan hx hy, Std.isLE_compare]

/-- An integer equals a float when its place is the float's. -/
lemma numEq_iff_roundedKey {n : Int64} {x : F64} (hx : x.isNan = false) :
    (F64.ofInt64 n).numEq x = true ↔ F64.roundedKey n = x.orderKey := by
  obtain ⟨hnan, hkey⟩ := F64.ofInt64_spec n
  simp [F64.numEq, F64.partialCmp, hnan, hx, hkey]

/-- Numbers are sorted well when they have no NaN and no rounding of two integers. -/
lemma NumberColumn.transOn {S : Set Value} (h : NumberColumn S) : TransOn valueSortOrdering S := by
  intro u hu v hv w hw huv hvw
  rcases h.numbers u hu with ⟨a, rfl⟩ | ⟨x, rfl, hx⟩ <;>
    rcases h.numbers v hv with ⟨b, rfl⟩ | ⟨y, rfl, hy⟩ <;>
    rcases h.numbers w hw with ⟨c, rfl⟩ | ⟨z, rfl, hz⟩
  · rw [valueSortOrdering_int] at huv hvw ⊢
    exact huv.trans hvw
  · rw [valueSortOrdering_int] at huv
    rw [(valueSortOrdering_int_float hz).1] at hvw ⊢
    exact (F64.roundedKey_mono huv).trans hvw
  · -- A float between two integers: they are in order, or the float is the rounding of both.
    rw [(valueSortOrdering_int_float hy).1] at huv
    rw [(valueSortOrdering_int_float hy).2] at hvw
    rw [valueSortOrdering_int]
    by_contra hlt
    have hround : F64.roundedKey c ≤ F64.roundedKey a := F64.roundedKey_mono (by omega)
    have heq : a = c := h.roundings a c y hu hw hv ((numEq_iff_roundedKey hy).mpr (by omega))
      ((numEq_iff_roundedKey hy).mpr (by omega))
    exact hlt (by rw [heq])
  · rw [(valueSortOrdering_int_float hy).1] at huv
    rw [valueSortOrdering_float hy hz] at hvw
    rw [(valueSortOrdering_int_float hz).1]
    exact huv.trans hvw
  · rw [(valueSortOrdering_int_float hx).2] at huv ⊢
    rw [valueSortOrdering_int] at hvw
    exact huv.trans (F64.roundedKey_mono hvw)
  · rw [(valueSortOrdering_int_float hx).2] at huv
    rw [(valueSortOrdering_int_float hz).1] at hvw
    rw [valueSortOrdering_float hx hz]
    exact huv.trans hvw
  · rw [valueSortOrdering_float hx hy] at huv
    rw [(valueSortOrdering_int_float hy).2] at hvw
    rw [(valueSortOrdering_int_float hx).2]
    exact huv.trans hvw
  · rw [valueSortOrdering_float hx hy] at huv
    rw [valueSortOrdering_float hy hz] at hvw
    rw [valueSortOrdering_float hx hz]
    exact huv.trans hvw

lemma OneKind.transOn {S : Set Value} (h : OneKind S) : TransOn valueSortOrdering S := by
  rcases h with h | h | h
  · intro u hu v hv w hw huv hvw
    obtain ⟨a, rfl⟩ := h u hu
    obtain ⟨b, rfl⟩ := h v hv
    obtain ⟨c, rfl⟩ := h w hw
    have hab : (compare a b).isLE = true := huv
    have hbc : (compare b c).isLE = true := hvw
    have hac : (compare a c).isLE = true := Std.TransCmp.isLE_trans hab hbc
    exact hac
  · intro u hu v hv w hw huv hvw
    obtain ⟨a, rfl⟩ := h u hu
    obtain ⟨b, rfl⟩ := h v hv
    obtain ⟨c, rfl⟩ := h w hw
    have hab : (compare a b).isLE = true := huv
    have hbc : (compare b c).isLE = true := hvw
    have hac : (compare a c).isLE = true := Std.TransCmp.isLE_trans hab hbc
    exact hac
  · exact h.transOn

/-- The kind a value is sorted in. -/
inductive SortKind where
  | bool
  | number
  | string
  deriving DecidableEq

/-- The kind a value is sorted in; the other values tie with everything. -/
def Value.sortKind : Value → Option SortKind
  | .bool _ => some .bool
  | .int _ => some .number
  | .float _ => some .number
  | .string _ => some .string
  | _ => none

lemma exists_of_sortKind_bool {v : Value} (h : v.sortKind = some .bool) : ∃ b, v = .bool b := by
  cases v <;> first | exact ⟨_, rfl⟩ | exact absurd h (by simp [Value.sortKind])

lemma exists_of_sortKind_string {v : Value} (h : v.sortKind = some .string) : ∃ s, v = .string s := by
  cases v <;> first | exact ⟨_, rfl⟩ | exact absurd h (by simp [Value.sortKind])

lemma exists_of_sortKind_number {v : Value} (h : v.sortKind = some .number) :
    (∃ n, v = .int n) ∨ ∃ x, v = .float x := by
  cases v with
  | int n => exact Or.inl ⟨n, rfl⟩
  | float x => exact Or.inr ⟨x, rfl⟩
  | _ => exact absurd h (by simp [Value.sortKind])

/-- Values of different kinds tie. -/
lemma valueSortOrdering_of_sortKind_ne {v w : Value} (h : v.sortKind ≠ w.sortKind) :
    valueSortOrdering v w = .eq := by
  cases v <;> cases w <;> first | rfl | exact absurd rfl h

/-- Values that differ have a kind. -/
lemma sortKind_ne_none {v w : Value} (h : valueSortOrdering v w ≠ .eq) : v.sortKind ≠ none := by
  cases v with
  | bool _ | int _ | float _ | string _ => simp [Value.sortKind]
  | _ => exact absurd (by cases w <;> rfl) h

/-- A NaN ties with every value. -/
lemma valueSortOrdering_nan {x : F64} (hx : x.isNan = true) (v : Value) :
    valueSortOrdering v (.float x) = .eq := by
  cases v with
  | int n => exact F64.sortCmp_nan (Or.inr hx)
  | float y => exact F64.sortCmp_nan (Or.inr hx)
  | _ => rfl

/-- A float that an integer is rounded to ties with it. -/
lemma valueSortOrdering_of_numEq {n : Int64} {x : F64} (h : (F64.ofInt64 n).numEq x = true) :
    valueSortOrdering (.int n) (.float x) = .eq :=
  F64.sortCmp_eq_iff.mpr (Or.inr (Or.inr h))

lemma eq_swap_of_eq {v w : Value} (h : valueSortOrdering v w = .eq) : valueSortOrdering w v = .eq := by
  rw [swap_eq valueSortOrdering v w, h]
  rfl

/-- A column is sorted well when its values have one kind, or when no two of them differ. -/
lemma transOn_valueSortOrdering_iff {S : Set Value} :
    TransOn valueSortOrdering S ↔ OneKind S ∨ AllTied S := by
  constructor
  · intro h
    by_cases htied : AllTied S
    · exact Or.inr htied
    left
    rw [allTied_iff] at htied
    push Not at htied
    obtain ⟨v, hv, w, hw, hne⟩ := htied
    -- Two values of the column differ; name them so that `low` comes first.
    obtain ⟨low, hlow, high, hhigh, hlt⟩ : ∃ low ∈ S, ∃ high ∈ S, valueSortOrdering low high = .lt := by
      cases hcase : valueSortOrdering v w with
      | eq => exact absurd hcase hne
      | lt => exact ⟨v, hv, w, hw, hcase⟩
      | gt =>
        refine ⟨w, hw, v, hv, ?_⟩
        rw [swap_eq valueSortOrdering v w, hcase]
        rfl
    have hno : ∀ z ∈ S, valueSortOrdering high z = .eq → valueSortOrdering z low ≠ .eq :=
      fun z hz hhighz hzlow => h.not_between hlow hhigh hz hlt hhighz hzlow
    have hsame : low.sortKind = high.sortKind := by
      by_contra hdiff
      rw [valueSortOrdering_of_sortKind_ne hdiff] at hlt
      cases hlt
    have hkind : ∀ z ∈ S, z.sortKind = low.sortKind := by
      intro z hz
      by_contra hdiff
      exact hno z hz (valueSortOrdering_of_sortKind_ne fun hz' => hdiff (hsame.trans hz').symm)
        (valueSortOrdering_of_sortKind_ne hdiff)
    have hsome : low.sortKind ≠ none := sortKind_ne_none (w := high) (by rw [hlt]; decide)
    cases hk : low.sortKind with
    | none => exact absurd hk hsome
    | some k =>
      rw [hk] at hkind
      cases k with
      | bool => exact Or.inl fun z hz => exists_of_sortKind_bool (hkind z hz)
      | string => exact Or.inr (Or.inl fun z hz => exists_of_sortKind_string (hkind z hz))
      | number =>
        refine Or.inr (Or.inr ⟨fun z hz => ?_, fun m n x hm hn hx hmx hnx => ?_⟩)
        · rcases exists_of_sortKind_number (hkind z hz) with ⟨n, rfl⟩ | ⟨x, rfl⟩
          · exact Or.inl ⟨n, rfl⟩
          · refine Or.inr ⟨x, rfl, ?_⟩
            by_contra hnan
            have hx : x.isNan = true := by simpa using hnan
            exact hno _ hz (valueSortOrdering_nan hx high) (eq_swap_of_eq (valueSortOrdering_nan hx low))
        · by_contra hne
          have htiem := valueSortOrdering_of_numEq hmx
          have htien := valueSortOrdering_of_numEq hnx
          cases hmn : valueSortOrdering (.int m) (.int n) with
          | eq =>
            have hcompare : compare m n = .eq := hmn
            exact hne (Std.compare_eq_iff_eq.mp hcompare)
          | lt => exact h.not_between hm hn hx hmn htien (eq_swap_of_eq htiem)
          | gt =>
            have hnm : valueSortOrdering (.int n) (.int m) = .lt := by
              rw [swap_eq valueSortOrdering (.int m) (.int n), hmn]
              rfl
            exact h.not_between hn hm hx hnm htiem (eq_swap_of_eq htien)
  · rintro (h | h)
    · exact h.transOn
    · exact transOn_of_eq (allTied_iff.mp h)

/-! ## Key vectors -/

/-- The keys of an item and of the items after it. -/
lemma compareKeys_cons (item : OrderByItem) (items : List OrderByItem) (a b : Value) (as bs : List Value) :
    compareKeys (item :: items) (a :: as) (b :: bs) =
      (itemCmp item.direction item.nullsOrder a b).then (compareKeys items as bs) := rfl

instance (orderBy : List OrderByItem) : Std.OrientedCmp (compareKeys orderBy) where
  eq_swap {as bs} := by
    induction orderBy generalizing as bs with
    | nil => rfl
    | cons item items ih =>
      cases as with
      | nil => cases bs <;> rfl
      | cons a as =>
        cases bs with
        | nil => rfl
        | cons b bs =>
          rw [compareKeys_cons, compareKeys_cons, Ordering.swap_then, ih,
            swap_eq (itemCmp item.direction item.nullsOrder) b a]

/-- The key vectors that take their values from the columns. -/
def KeyVectors (columns : List (Set Value)) : Set (List Value) :=
  {keys | List.Forall₂ (fun v S => v ∈ S) keys columns}

lemma cons_mem_keyVectors {v : Value} {vs : List Value} {S : Set Value} {columns : List (Set Value)} :
    v :: vs ∈ KeyVectors (S :: columns) ↔ v ∈ S ∧ vs ∈ KeyVectors columns := List.forall₂_cons

lemma exists_of_mem_keyVectors {keys : List Value} {S : Set Value} {columns : List (Set Value)}
    (h : keys ∈ KeyVectors (S :: columns)) : ∃ v vs, keys = v :: vs ∧ v ∈ S ∧ vs ∈ KeyVectors columns := by
  cases h with
  | cons hv hvs => exact ⟨_, _, rfl, hv, hvs⟩

/-- Columns that have values have key vectors. -/
lemma keyVectors_nonempty {columns : List (Set Value)} (h : ∀ S ∈ columns, S.Nonempty) :
    (KeyVectors columns).Nonempty := by
  induction columns with
  | nil => exact ⟨[], List.Forall₂.nil⟩
  | cons S columns ih =>
    obtain ⟨v, hv⟩ := h S List.mem_cons_self
    obtain ⟨vs, hvs⟩ := ih fun T hT => h T (List.mem_cons_of_mem _ hT)
    exact ⟨v :: vs, cons_mem_keyVectors.mpr ⟨hv, hvs⟩⟩

/-- When the comparison of every column is transitive, that of the key vectors is. -/
lemma transOn_compareKeys_of {orderBy : List OrderByItem} {columns : List (Set Value)}
    (h : ∀ S ∈ columns, TransOn valueSortOrdering (nonNulls S)) :
    TransOn (compareKeys orderBy) (KeyVectors columns) := by
  induction orderBy generalizing columns with
  | nil => exact transOn_of_eq fun _ _ _ _ => rfl
  | cons item items ih =>
    cases columns with
    | nil =>
      refine transOn_of_eq fun as has _ _ => ?_
      cases has
      rfl
    | cons S columns =>
      rw [List.forall_mem_cons, ← transOn_itemCmp (d := item.direction) (n := item.nullsOrder)] at h
      intro as has bs hbs cs hcs hab hbc
      obtain ⟨a, as, rfl, ha, has⟩ := exists_of_mem_keyVectors has
      obtain ⟨b, bs, rfl, hb, hbs⟩ := exists_of_mem_keyVectors hbs
      obtain ⟨c, cs, rfl, hc, hcs⟩ := exists_of_mem_keyVectors hcs
      rw [compareKeys_cons] at hab hbc ⊢
      exact h.1.isLE_then_trans ha hb hc (ih h.2 as has bs hbs cs hcs) hab hbc

/-- The comparison of key vectors is transitive exactly when that of every column is. -/
lemma transOn_compareKeys {orderBy : List OrderByItem} {columns : List (Set Value)}
    (hlen : columns.length = orderBy.length) (hne : ∀ S ∈ columns, S.Nonempty) :
    TransOn (compareKeys orderBy) (KeyVectors columns) ↔
      ∀ S ∈ columns, TransOn valueSortOrdering (nonNulls S) := by
  refine ⟨fun h => ?_, transOn_compareKeys_of⟩
  induction orderBy generalizing columns with
  | nil =>
    have hnil : columns = [] := List.length_eq_zero_iff.mp hlen
    simp [hnil]
  | cons item items ih =>
    cases columns with
    | nil => simp
    | cons S columns =>
      have hne' : ∀ T ∈ columns, T.Nonempty := fun T hT => hne T (List.mem_cons_of_mem _ hT)
      rw [List.forall_mem_cons, ← transOn_itemCmp (d := item.direction) (n := item.nullsOrder)]
      constructor
      · -- Vectors that differ in the first column only.
        obtain ⟨rest, hrest⟩ := keyVectors_nonempty hne'
        have hself : compareKeys items rest rest = .eq := self_eq rest
        intro u hu v hv w hw huv hvw
        have hkeys := h (u :: rest) (cons_mem_keyVectors.mpr ⟨hu, hrest⟩) (v :: rest)
          (cons_mem_keyVectors.mpr ⟨hv, hrest⟩) (w :: rest) (cons_mem_keyVectors.mpr ⟨hw, hrest⟩)
        simp only [compareKeys_cons, hself, Ordering.then_eq] at hkeys
        exact hkeys huv hvw
      · -- Vectors with the same first key.
        obtain ⟨first, hfirst⟩ := hne S List.mem_cons_self
        have hself : itemCmp item.direction item.nullsOrder first first = .eq := self_eq first
        refine ih (by simpa using hlen) hne' fun as has bs hbs cs hcs hab hbc => ?_
        have hkeys := h (first :: as) (cons_mem_keyVectors.mpr ⟨hfirst, has⟩) (first :: bs)
          (cons_mem_keyVectors.mpr ⟨hfirst, hbs⟩) (first :: cs) (cons_mem_keyVectors.mpr ⟨hfirst, hcs⟩)
        simp only [compareKeys_cons, hself, Ordering.eq_then] at hkeys
        exact hkeys hab hbc

/-! ## The order -/

/-- The values for which `<` is defined, floats apart. -/
def Value.isOrdered : Value → Bool
  | .int _ | .string _ | .date _ | .dateTime _ => true
  | _ => false

/-- The smaller of two values comes first in an ascending column. -/
def SmallerFirst (S : Set Value) : Prop :=
  ∀ v ∈ S, ∀ w ∈ S, v.isOrdered = true → w.isOrdered = true →
    valueOrdering v w = some .lt → ∀ nulls, compareValuesForSort v w .asc nulls = .lt

/-- The key vectors are ordered, and a smaller value comes first in an ascending column. -/
structure KeysOrdered (orderBy : List OrderByItem) (columns : List (Set Value)) : Prop where
  trans : TransOn (compareKeys orderBy) (KeyVectors columns)
  total : ∀ a ∈ KeyVectors columns, ∀ b ∈ KeyVectors columns,
    (compareKeys orderBy a b).isLE = true ∨ (compareKeys orderBy b a).isLE = true
  smallerFirst : ∀ S ∈ columns, SmallerFirst S

/-- A column that is sorted well: one kind of values or no two that differ, and neither two different
dates nor two different datetimes. -/
structure SortableColumn (S : Set Value) : Prop where
  kinds : OneKind (nonNulls S) ∨ AllTied (nonNulls S)
  dates : ∀ a b, .date a ∈ S → .date b ∈ S → a = b
  dateTimes : ∀ a b, .dateTime a ∈ S → .dateTime b ∈ S → a = b

/-- A kind that `<` compares and `ORDER BY` does not has one value in the column. -/
lemma SmallerFirst.subsingleton {α : Type} [Ord α] [Std.LawfulEqOrd α] [Std.OrientedOrd α] {S : Set Value}
    (h : SmallerFirst S) {c : α → Value} (hordered : ∀ a, (c a).isOrdered = true)
    (hlt : ∀ a b, valueOrdering (c a) (c b) = some (compare a b))
    (htie : ∀ a b, compareValuesForSort (c a) (c b) .asc .default = .eq) :
    ∀ a b, c a ∈ S → c b ∈ S → a = b := by
  have hnot : ∀ a b, c a ∈ S → c b ∈ S → compare a b ≠ .lt := by
    intro a b ha hb hab
    have hfirst := h _ ha _ hb (hordered a) (hordered b) (by rw [hlt, hab]) .default
    rw [htie] at hfirst
    cases hfirst
  intro a b ha hb
  cases hab : compare a b with
  | eq => exact Std.compare_eq_iff_eq.mp hab
  | lt => exact absurd hab (hnot a b ha hb)
  | gt =>
    refine absurd ?_ (hnot b a hb ha)
    rw [swap_eq compare a b, hab]
    rfl

/-- The smaller comes first exactly when the column has no two dates and no two datetimes. -/
lemma smallerFirst_iff {S : Set Value} :
    SmallerFirst S ↔ (∀ a b, .date a ∈ S → .date b ∈ S → a = b) ∧
      ∀ a b, .dateTime a ∈ S → .dateTime b ∈ S → a = b := by
  constructor
  · intro h
    exact ⟨h.subsingleton (fun _ => rfl) (fun _ _ => rfl) fun _ _ => rfl,
      h.subsingleton (fun _ => rfl) (fun _ _ => rfl) fun _ _ => rfl⟩
  · rintro ⟨hdates, hdateTimes⟩ v hv w hw hvordered hwordered hlt nulls
    cases v with
    | int a =>
      cases w with
      | int b => exact Option.some.inj hlt
      | float _ => exact absurd hwordered (by simp [Value.isOrdered])
      | _ => exact absurd hlt (by simp [valueOrdering])
    | string a =>
      cases w with
      | string b => exact Option.some.inj hlt
      | _ => exact absurd hlt (by simp [valueOrdering])
    | date a =>
      cases w with
      | date b =>
        rw [hdates a b hv hw] at hlt
        exact absurd hlt (by simp [valueOrdering])
      | _ => exact absurd hlt (by simp [valueOrdering])
    | dateTime a =>
      cases w with
      | dateTime b =>
        rw [hdateTimes a b hv hw] at hlt
        exact absurd hlt (by simp [valueOrdering])
      | _ => exact absurd hlt (by simp [valueOrdering])
    | _ => exact absurd hvordered (by simp [Value.isOrdered])

/-- An ascending item, with the nulls in their default place. -/
def ascending : OrderByItem := ⟨.variable "v", .asc, .default⟩

end Maharit
