import MaharitDb.Lib.FirstOccurrences
import MaharitDb.Query.FastCount
import MaharitDb.Query.ReadableText
import MaharitDb.Query.Statement

/-!
# When rows count as the same

Groups, `DISTINCT` in an aggregate and `UNION` tell rows apart by the texts of their values.  For values
without floats this is equality of the values exactly when the universe they come from is readable.  A chain
of `UNION` and `UNION ALL` is run as if every operator were the first one, or, inside `CALL`, as if all were
`UNION` when one of them is.
-/

namespace Maharit

open FirstOccurrences Temporal

/-! ## The text of a row, and chains -/

section Texts

variable (txt : FloatText)

/-- The texts of the values of a row, joined. -/
def rowText (row : Row) : String := "\x00".intercalate (row.map (Value.toDisplay txt))

/-- The semantics that compares the rows of a `UNION` by their texts. -/
def Semantics.withRowText {σ : Type} (M : Semantics σ) : Semantics σ :=
  { M with texts := { M.texts with rowText := rowText txt } }

end Texts

/-- A query of a `UNION` is a `MATCH` statement. -/
def Statement.asMatch : Statement → Option MatchStatement
  | .match m => some m
  | _ => none

/-- `parse_union`, given the statements and the operators between them.  The operators after the first one
are read but not kept. -/
def parseUnion (first : Statement) (following : List (UnionType × Statement)) : Option Statement := do
  let query ← first.asMatch
  let (unionType, _) ← following.head?
  let queries ← following.mapM fun e => e.2.asMatch
  return .union { queries := query :: queries, unionType := unionType }

/-- The rows of a `CALL` subquery: without duplicates when one of the operators is `UNION`. -/
def mergeCallRows (key : Row → String) (unions : List UnionType) (rows : List Row) : List Row :=
  if unions.any (· == .union) then distinctBy key [] rows else rows

/-- `callRows` merges the rows of all branches at once. -/
lemma callRows_eq {σ : Type} [GraphBackend σ] (M : Semantics σ) (x : Executor σ) (call : CallSubquery)
    (outer : Bindings) : callRows M x call outer = (do
      let (names, rows) ← callSubqueryBranchRows M x call.branch outer
      let more ← unionRows M x names outer call.unions
      return (mergeCallRows M.texts.rowText (call.unions.map (·.1)) (rows ++ more)).map fun row =>
        (names.zip row).foldl (fun b e => b.insert e.1 (.scalar e.2)) outer) := by
  simp only [callRows, mergeCallRows, List.any_map]
  rfl

/-- The operators applied from left to right: `UNION` removes the rows that occurred before. -/
noncomputable def unionChain (rows : List Row) : List (UnionType × List Row) → List Row
  | [] => rows
  | (.unionAll, more) :: rest => unionChain (rows ++ more) rest
  | (.union, more) :: rest => unionChain (keepFirst ∅ (rows ++ more)) rest

/-! ## Duplicates by text -/

/-- Duplicates by key are duplicates by value where the key tells values apart. -/
lemma distinctBy_eq_keepFirst {α : Type} {key : α → String} {l : List α} {S : Set α}
    (hS : ∀ a ∈ l, a ∈ S) (hkey : ∀ a ∈ S, ∀ b ∈ S, key a = key b → a = b) {seen : Set α}
    {keys : List String} (hseen : ∀ a ∈ S, key a ∈ keys ↔ a ∈ seen) :
    distinctBy key keys l = keepFirst seen l := by
  induction l generalizing seen keys with
  | nil => rfl
  | cons a l ih =>
    have hmem := hseen a (hS a List.mem_cons_self)
    by_cases ha : a ∈ seen
    · rw [distinctBy, if_pos (hmem.mpr ha), keepFirst_cons_of_mem ha]
      exact ih (fun b hb => hS b (List.mem_cons_of_mem a hb)) hseen
    · rw [distinctBy, if_neg (mt hmem.mp ha), keepFirst_cons_of_notMem ha]
      congr 1
      refine ih (fun b hb => hS b (List.mem_cons_of_mem a hb)) fun b hb => ?_
      rw [List.mem_cons, hseen b hb, Set.mem_insert_iff]
      constructor
      · rintro (hba | hb')
        · exact Or.inl (hkey b hb a (hS a List.mem_cons_self) hba)
        · exact Or.inr hb'
      · rintro (rfl | hb')
        · exact Or.inl rfl
        · exact Or.inr hb'

/-- Of two elements the second one is dropped when the keys agree. -/
lemma distinctBy_pair {α : Type} (key : α → String) (a b : α) :
    distinctBy key [] [a, b] = if key a = key b then [a] else [a, b] := by
  by_cases h : key a = key b
  · simp [distinctBy, h]
  · simp [distinctBy, h, Ne.symm h]

lemma keepFirst_pair {α : Type} {a b : α} (h : a ≠ b) : keepFirst ∅ [a, b] = [a, b] := by
  rw [keepFirst_cons_of_notMem (by simp), keepFirst_cons_of_notMem (by simp [h.symm]), keepFirst]

/-- A chain without `UNION` keeps all rows. -/
lemma unionChain_of_all_unionAll {rest : List (UnionType × List Row)} (h : ∀ e ∈ rest, e.1 = .unionAll)
    (rows : List Row) : unionChain rows rest = rows ++ rest.flatMap (·.2) := by
  induction rest generalizing rows with
  | nil => rw [unionChain, List.flatMap_nil, List.append_nil]
  | cons e rest ih =>
    obtain ⟨op, more⟩ := e
    obtain rfl : op = .unionAll := h (op, more) List.mem_cons_self
    rw [unionChain, ih fun e he => h e (List.mem_cons_of_mem _ he), List.flatMap_cons, List.append_assoc]

/-- A chain that ends with `UNION` has no duplicates at all. -/
lemma unionChain_of_getLast {rest : List (UnionType × List Row)}
    (h : (rest.map (·.1)).getLast? = some .union) (rows : List Row) :
    unionChain rows rest = keepFirst ∅ (rows ++ rest.flatMap (·.2)) := by
  induction rest generalizing rows with
  | nil => simp at h
  | cons e rest ih =>
    obtain ⟨op, more⟩ := e
    cases rest with
    | nil =>
      obtain rfl : op = .union := by simpa using h
      rw [unionChain, unionChain, List.flatMap_cons, List.flatMap_nil, List.append_nil]
    | cons e' rest =>
      have hlast : (((e' :: rest)).map (·.1)).getLast? = some .union := by
        rw [List.map_cons, List.map_cons, List.getLast?_cons_cons] at h
        rwa [List.map_cons]
      rw [List.flatMap_cons, ← List.append_assoc]
      cases op with
      | unionAll => rw [unionChain, ih hlast]
      | union => rw [unionChain, ih hlast, keepFirst_keepFirst_append]

/-! ## Rows of a universe -/

/-- A row of `n` values of the universe. -/
structure Universe.HasRow (U : Universe) (n : ℕ) (row : Row) : Prop where
  length : row.length = n
  values : ∀ v ∈ row, U.Has v

section Rows

variable (txt : FloatText) {U : Universe}

/-- The values after the first one, each after the separator. -/
lemma follows_flatMap_text (row : Row) : Follows 0 (row.flatMap fun v => nul :: text txt v) := by
  cases row with
  | nil => exact Follows.done
  | cons v row => exact Follows.nextColumn _

lemma tail_inj (hU : U.Readable) {row row' : Row} (hlength : row.length = row'.length)
    (hrow : ∀ v ∈ row, U.Has v) (hrow' : ∀ v ∈ row', U.Has v)
    (h : (row.flatMap fun v => nul :: text txt v) = row'.flatMap fun v => nul :: text txt v) :
    row = row' := by
  induction row generalizing row' with
  | nil => exact (List.eq_nil_of_length_eq_zero hlength.symm).symm
  | cons v row ih =>
    obtain ⟨w, row', rfl⟩ := List.exists_cons_of_length_eq_add_one hlength.symm
    rw [List.flatMap_cons, List.flatMap_cons, List.cons_append, List.cons_append, List.cons.injEq] at h
    obtain ⟨hvw, hrest⟩ := text_append_inj txt hU (hrow v List.mem_cons_self)
      (hrow' w List.mem_cons_self) (Or.inl rfl) (follows_flatMap_text txt row)
      (follows_flatMap_text txt row') h.2
    rw [hvw, ih (Nat.succ.inj hlength) (fun v hv => hrow v (List.mem_cons_of_mem _ hv))
      (fun v hv => hrow' v (List.mem_cons_of_mem _ hv)) hrest]

lemma toList_rowText_cons (v : Value) (row : Row) :
    (rowText txt (v :: row)).toList = text txt v ++ row.flatMap fun v => nul :: text txt v := by
  rw [rowText, String.toList_intercalate, List.map_cons, List.map_cons, intercalate_cons, List.map_map,
    List.flatMap_map]
  rfl

/-- Rows of a readable universe are equal when their texts are. -/
lemma rowText_inj (hU : U.Readable) {n : ℕ} {row row' : Row} (hrow : U.HasRow n row)
    (hrow' : U.HasRow n row') (h : rowText txt row = rowText txt row') : row = row' := by
  have hlength : row.length = row'.length := hrow.length.trans hrow'.length.symm
  cases row with
  | nil => exact (List.eq_nil_of_length_eq_zero hlength.symm).symm
  | cons v row =>
    obtain ⟨w, row', rfl⟩ := List.exists_cons_of_length_eq_add_one hlength.symm
    have hlist := congrArg String.toList h
    rw [toList_rowText_cons, toList_rowText_cons] at hlist
    obtain ⟨hvw, hrest⟩ := text_append_inj txt hU (hrow.values v List.mem_cons_self)
      (hrow'.values w List.mem_cons_self) (Or.inl rfl) (follows_flatMap_text txt row)
      (follows_flatMap_text txt row') hlist
    rw [hvw, tail_inj txt hU (Nat.succ.inj hlength) (fun v hv => hrow.values v (List.mem_cons_of_mem _ hv))
      (fun v hv => hrow'.values v (List.mem_cons_of_mem _ hv)) hrest]

/-- Duplicate rows by text are duplicate rows. -/
lemma distinctBy_rowText (hU : U.Readable) {n : ℕ} {rows : List Row} (hrows : ∀ row ∈ rows, U.HasRow n row) :
    distinctBy (rowText txt) [] rows = keepFirst ∅ rows :=
  distinctBy_eq_keepFirst (S := {row | U.HasRow n row}) hrows
    (fun _ ha _ hb h => rowText_inj txt hU ha hb h) (by simp)

/-- Duplicate values by text are duplicate values. -/
lemma distinctValues_eq (hU : U.Readable) {values : List Value} (hvalues : ∀ v ∈ values, U.Has v) :
    distinctValues txt values = keepFirst ∅ values :=
  distinctBy_eq_keepFirst (S := {v | U.Has v}) hvalues
    (fun _ ha _ hb h => (toDisplay_inj txt hU ha hb).mp h) (by simp)

/-- Keys of a readable universe are equal if and only if their texts are. -/
lemma map_toDisplay_inj (hU : U.Readable) {vs vs' : List Value} (hvs : ∀ v ∈ vs, U.Has v)
    (hvs' : ∀ v ∈ vs', U.Has v) :
    vs.map (Value.toDisplay txt) = vs'.map (Value.toDisplay txt) ↔ vs = vs' := by
  constructor
  · intro h
    induction vs generalizing vs' with
    | nil => exact (List.map_eq_nil_iff.mp h.symm).symm
    | cons v vs ih =>
      cases vs' with
      | nil => simp at h
      | cons v' vs' =>
        rw [List.map_cons, List.map_cons, List.cons.injEq] at h
        have hv := (toDisplay_inj txt hU (hvs v List.mem_cons_self) (hvs' v' List.mem_cons_self)).mp h.1
        rw [hv, ih (fun v hv => hvs v (List.mem_cons_of_mem _ hv))
          (fun v hv => hvs' v (List.mem_cons_of_mem _ hv)) h.2]
  · intro h
    rw [h]

end Rows

/-! ## Groups -/

section Groups

variable {σ : Type} [GraphBackend σ] (txt : FloatText) (M : Semantics σ) (x : Executor σ)

/-- The values a row is grouped by. -/
def keyValues (r : ReturnClause) (b : Bindings) : Except ExecuteError (List Value) :=
  (r.items.filter fun item => !isAggregate item).mapM (evaluateReturnItem M x b)

/-- The texts of the key are those of its values. -/
lemma groupKey_eq {r : ReturnClause} {b : Bindings} {vs : List Value} (h : keyValues M x r b = .ok vs) :
    groupKey txt M x r b = vs.map (Value.toDisplay txt) := by
  unfold keyValues at h
  unfold groupKey
  generalize (r.items.filter fun item => !isAggregate item) = items at h ⊢
  induction items generalizing vs with
  | nil =>
    obtain rfl : vs = [] := (Except.ok.inj h).symm
    rfl
  | cons item items ih =>
    rw [List.mapM_cons] at h
    obtain ⟨v, hv, h⟩ := Except.bind_eq_ok.mp h
    obtain ⟨ws, hws, h⟩ := Except.bind_eq_ok.mp h
    obtain rfl : vs = v :: ws := (Except.ok.inj h).symm
    rw [List.map_cons, List.map_cons, hv, ih hws]

/-- Two rows are in the same group if and only if their keys are equal. -/
lemma exists_mem_groupRows_iff {α κ : Type} [BEq κ] [LawfulBEq κ] (key : α → κ) {rows : List α} {a b : α}
    (ha : a ∈ rows) (hb : b ∈ rows) : (∃ g ∈ groupRows key rows, a ∈ g ∧ b ∈ g) ↔ key a = key b := by
  constructor
  · rintro ⟨g, hg, hag, hbg⟩
    obtain ⟨k, -, rfl⟩ := List.mem_map.mp hg
    have hak : key a = k := eq_of_beq (List.mem_filter.mp hag).2
    have hbk : key b = k := eq_of_beq (List.mem_filter.mp hbg).2
    rw [hak, hbk]
  · intro h
    refine ⟨rows.filter fun c => key c == key a, List.mem_map.mpr ⟨key a, ?_, rfl⟩, ?_, ?_⟩
    · rw [List.mem_eraseDups]
      exact List.mem_map_of_mem ha
    · exact List.mem_filter.mpr ⟨ha, beq_self_eq_true _⟩
    · exact List.mem_filter.mpr ⟨hb, beq_iff_eq.mpr h.symm⟩

end Groups

/-! ## Rows by value -/

section RowsByValue

variable {σ : Type} [GraphBackend σ] (N : NumberAggregates) (txt : FloatText) (M : Semantics σ)
  (x : Executor σ)

/-- A result of `n` columns with rows of the universe. -/
structure Universe.HasResult (U : Universe) (n : ℕ) (rs : ResultSet) : Prop where
  columns : rs.columns.length = n
  rows : ∀ row ∈ rs.rows, U.HasRow n row

/-- Rows are grouped, counted once and merged by their values, and the chain of operators is applied from
left to right. -/
structure RowsByValue (U : Universe) (op : UnionType) (ops : List UnionType) : Prop where
  groups : ∀ (r : ReturnClause) (bs : List Bindings), ∀ b ∈ bs, ∀ b' ∈ bs, ∀ vs vs' : List Value,
    keyValues M x r b = .ok vs → keyValues M x r b' = .ok vs' → (∀ v ∈ vs, U.Has v) →
    (∀ v ∈ vs', U.Has v) → ((∃ g ∈ groupRows (groupKey txt M x r) bs, b ∈ g ∧ b' ∈ g) ↔ vs = vs')
  countDistinct : ∀ (item : ReturnItem Expression) (bs : List Bindings) (vs : List Value),
    aggregateValues M x item bs = .ok vs → (∀ v ∈ vs, U.Has v) →
    evaluateAggregateFunction N txt M x bs (.countDistinct item) =
      .ok (.int (Int64.ofNat (keepFirst ∅ (nonNull vs)).length))
  collectDistinct : ∀ (item : ReturnItem Expression) (bs : List Bindings) (vs : List Value),
    aggregateValues M x item bs = .ok vs → (∀ v ∈ vs, U.Has v) →
    evaluateAggregateFunction N txt M x bs (.collectDistinct item) = .ok (.list (keepFirst ∅ (nonNull vs)))
  merged : ∀ (columns : List String) (row row' : Row), U.HasRow columns.length row →
    U.HasRow columns.length row' →
    (unionResults (M.withRowText txt) .union [⟨columns, [row]⟩, ⟨columns, [row']⟩] =
      .ok ⟨columns, [row]⟩ ↔ row = row')
  mergedCall : ∀ (n : ℕ) (row row' : Row), U.HasRow n row → U.HasRow n row' →
    (mergeCallRows (rowText txt) [.union] [row, row'] = [row] ↔ row = row')
  chain : ∀ (first : Statement) (following : List (UnionType × Statement)) (u : UnionStatement),
    following.map (·.1) = op :: ops → parseUnion first following = some (.union u) →
    ∀ (n : ℕ) (rs : ResultSet) (results : List ResultSet), results.length = following.length →
    (∀ rs' ∈ rs :: results, U.HasResult n rs') →
    unionResults (M.withRowText txt) u.unionType (rs :: results) =
      .ok ⟨rs.columns, unionChain rs.rows ((op :: ops).zip (results.map (·.rows)))⟩
  chainCall : ∀ (n : ℕ) (rows : List Row) (branches : List (List Row)),
    branches.length = (op :: ops).length → (∀ rows' ∈ rows :: branches, ∀ row ∈ rows', U.HasRow n row) →
    mergeCallRows (rowText txt) (op :: ops) (rows ++ branches.flatten) =
      unionChain rows ((op :: ops).zip branches)

/-- No operator is `UNION`, or the first one and the last one are. -/
def OneUnion (op : UnionType) (ops : List UnionType) : Prop :=
  (∀ o ∈ op :: ops, o = .unionAll) ∨ (op = .union ∧ (op :: ops).getLast? = some .union)

variable {U : Universe} {op : UnionType} {ops : List UnionType}

lemma flatMap_zip {ops : List UnionType} {branches : List (List Row)}
    (h : branches.length = ops.length) : (ops.zip branches).flatMap (·.2) = branches.flatten := by
  rw [List.flatMap_def, ← List.map_eq_map_iff.mpr (fun _ _ => rfl), List.map_snd_zip (by omega)]

lemma map_fst_zip {ops : List UnionType} {branches : List (List Row)}
    (h : branches.length = ops.length) : (ops.zip branches).map (·.1) = ops :=
  List.map_fst_zip (by omega)

/-- The rows of the code's merge when the operators are all kept, and when the last one is `UNION`. -/
lemma unionChain_zip (hops : OneUnion op ops) {branches : List (List Row)}
    (h : branches.length = (op :: ops).length) (rows : List Row) :
    unionChain rows ((op :: ops).zip branches) =
      if op = .union then keepFirst ∅ (rows ++ branches.flatten) else rows ++ branches.flatten := by
  rcases hops with hall | ⟨hop, hlast⟩
  · have hne : op ≠ .union := by
      rw [hall op List.mem_cons_self]
      decide
    rw [if_neg hne, ← flatMap_zip h]
    refine unionChain_of_all_unionAll (fun e he => ?_) rows
    exact hall e.1 (List.of_mem_zip he).1
  · rw [if_pos hop, ← flatMap_zip h]
    refine unionChain_of_getLast ?_ rows
    rw [map_fst_zip h, hlast]

omit [GraphBackend σ] in
/-- `execute_union` on results with the same number of columns. -/
lemma unionResults_eq {unionType : UnionType} {n : ℕ} {rs : ResultSet} {results : List ResultSet}
    (h : ∀ rs' ∈ rs :: results, rs'.columns.length = n) :
    unionResults (M.withRowText txt) unionType (rs :: results) = .ok ⟨rs.columns,
      if unionType = .union then distinctBy (rowText txt) [] ((rs :: results).flatMap (·.rows))
      else (rs :: results).flatMap (·.rows)⟩ := by
  have hnone : ((rs :: results).zipIdx).find? (fun e => e.1.columns.length ≠ rs.columns.length) = none := by
    rw [List.find?_eq_none]
    intro e he
    have hmem : e.1 ∈ rs :: results := List.fst_mem_of_mem_zipIdx he
    simp [h e.1 hmem, h rs List.mem_cons_self]
  rw [unionResults, hnone]
  rfl

/-- `parse_union` keeps the first operator. -/
lemma unionType_of_parseUnion {first : Statement} {following : List (UnionType × Statement)}
    {u : UnionStatement} (hops : following.map (·.1) = op :: ops)
    (h : parseUnion first following = some (.union u)) : u.unionType = op := by
  obtain ⟨e, following, rfl⟩ := List.exists_cons_of_ne_nil (show following ≠ [] by rintro rfl; simp at hops)
  rw [List.map_cons, List.cons.injEq] at hops
  simp only [parseUnion, List.head?_cons, Option.bind_eq_bind, Option.bind_some,
    Option.bind_eq_some_iff] at h
  obtain ⟨query, -, queries, -, hu⟩ := h
  obtain rfl := Statement.union.inj (Option.some.inj hu)
  exact hops.1

/-- A universe that can be read has all properties, for a chain that the code keeps apart. -/
lemma rowsByValue_of_readable (hU : U.Readable) (hops : OneUnion op ops) :
    RowsByValue N txt M x U op ops where
  groups r bs b hb b' hb' vs vs' h h' hvs hvs' := by
    rw [exists_mem_groupRows_iff _ hb hb', groupKey_eq txt M x h, groupKey_eq txt M x h',
      map_toDisplay_inj txt hU hvs hvs']
  countDistinct item bs vs h hvs := by
    have hnonNull : ∀ v ∈ nonNull vs, U.Has v := fun v hv => hvs v (List.mem_filter.mp hv).1
    rw [evaluateAggregateFunction, h, ← distinctValues_eq txt hU hnonNull]
    rfl
  collectDistinct item bs vs h hvs := by
    have hnonNull : ∀ v ∈ nonNull vs, U.Has v := fun v hv => hvs v (List.mem_filter.mp hv).1
    rw [evaluateAggregateFunction, h, ← distinctValues_eq txt hU hnonNull]
    rfl
  merged columns row row' hrow hrow' := by
    rw [unionResults_eq txt M (n := columns.length) (by simp), if_pos rfl]
    simp only [List.flatMap_cons, List.flatMap_nil, List.cons_append, List.nil_append]
    rw [distinctBy_pair]
    constructor
    · intro h
      by_cases hkey : rowText txt row = rowText txt row'
      · exact rowText_inj txt hU hrow hrow' hkey
      · rw [if_neg hkey] at h
        simp at h
    · rintro rfl
      rw [if_pos rfl]
  mergedCall n row row' hrow hrow' := by
    rw [mergeCallRows, if_pos (by decide), distinctBy_pair]
    constructor
    · intro h
      by_cases hkey : rowText txt row = rowText txt row'
      · exact rowText_inj txt hU hrow hrow' hkey
      · rw [if_neg hkey] at h
        simp at h
    · rintro rfl
      rw [if_pos rfl]
  chain first following u hfollowing hu n rs results hlength hresults := by
    have hbranches : (results.map (·.rows)).length = (op :: ops).length := by
      rw [List.length_map, hlength, ← hfollowing, List.length_map]
    have hrows : ∀ row ∈ (rs :: results).flatMap (·.rows), U.HasRow n row := by
      intro row hrow
      obtain ⟨rs', hrs', hrow⟩ := List.mem_flatMap.mp hrow
      exact (hresults rs' hrs').rows row hrow
    rw [unionResults_eq txt M (fun rs' h => (hresults rs' h).columns),
      unionType_of_parseUnion hfollowing hu, unionChain_zip hops hbranches,
      distinctBy_rowText txt hU hrows, List.flatMap_cons, List.flatMap_def]
  chainCall n rows branches hlength hrows := by
    have hall : ∀ row ∈ rows ++ branches.flatten, U.HasRow n row := by
      intro row hrow
      rcases List.mem_append.mp hrow with hrow | hrow
      · exact hrows rows List.mem_cons_self row hrow
      · obtain ⟨rows', hrows', hrow⟩ := List.mem_flatten.mp hrow
        exact hrows rows' (List.mem_cons_of_mem rows hrows') row hrow
    rw [mergeCallRows, unionChain_zip hops hlength, distinctBy_rowText txt hU hall]
    rcases hops with hall | ⟨rfl, -⟩
    · have hany : ((op :: ops).any fun o => o == .union) = false := by
        rw [List.any_eq_false]
        intro o ho
        rw [hall o ho]
        decide
      have hne : op ≠ .union := by
        rw [hall op List.mem_cons_self]
        decide
      rw [hany, if_neg hne]
      rfl
    · rfl

/-! ## What the properties need -/

/-- A variable bound to a scalar is returned as it is. -/
lemma evaluateReturnItem_scalarRow (v : Value) :
    evaluateReturnItem M x ((∅ : Bindings).insert "v" (.scalar v)) (.variable "v") = .ok v := by
  rw [evaluateReturnItem, returnVariable, AList.lookup_insert]
  rfl

/-- Different values that are written alike are collected once. -/
lemma RowsByValue.eq_of_toDisplay (h : RowsByValue N txt M x U op ops) {v w : Value} (hv : U.Has v)
    (hw : U.Has w) (hvn : v.textKind ≠ .null) (hwn : w.textKind ≠ .null)
    (htext : v.toDisplay txt = w.toDisplay txt) : v = w := by
  by_contra hne
  have hnonNull : nonNull [v, w] = [v, w] := by
    refine List.filter_eq_self.mpr fun u hu => ?_
    have hun : u.textKind ≠ .null := by
      rcases List.mem_pair.mp hu with rfl | rfl
      exacts [hvn, hwn]
    cases u with
    | null => exact absurd rfl hun
    | _ => rfl
  have hvalues : aggregateValues M x (.variable "v")
      [(∅ : Bindings).insert "v" (.scalar v), (∅ : Bindings).insert "v" (.scalar w)] = .ok [v, w] := by
    rw [aggregateValues, List.mapM_cons, List.mapM_cons, evaluateReturnItem_scalarRow,
      evaluateReturnItem_scalarRow]
    rfl
  have hcollect := h.collectDistinct _ _ _ hvalues (by simp [hv, hw])
  rw [evaluateAggregateFunction, hvalues, hnonNull, keepFirst_pair hne] at hcollect
  have hlist : distinctValues txt (nonNull [v, w]) = [v, w] := by
    simpa [Bind.bind, Except.bind, Pure.pure, Except.pure] using hcollect
  rw [hnonNull, distinctValues, distinctBy_pair, if_pos htext] at hlist
  simp at hlist

/-- The string of one character and the string of none, in a list and as columns. -/
lemma RowsByValue.quotes (h : RowsByValue N txt M x U op ops) :
    quote ∉ U.chars ∨ (nul ∉ U.chars ∧ (U.lists → ',' ∉ U.chars ∨ ' ' ∉ U.chars)) := by
  by_contra hnot
  rw [not_or, not_not, not_and_or, not_not] at hnot
  obtain ⟨hquote, hnul | hlist⟩ := hnot
  · -- two columns, of which one has the text of the separator and its quotes
    have hstring : ∀ s : String, (s.toList.all fun c => c == quote || c == nul) = true → U.Has (.string s) := by
      intro s hs
      refine Universe.Has.string s fun c hc => ?_
      have hc' := List.all_eq_true.mp hs c hc
      rw [Bool.or_eq_true, beq_iff_eq, beq_iff_eq] at hc'
      rcases hc' with rfl | rfl
      exacts [hquote, hnul]
    have hlong : U.Has (.string "\"\x00\"") := hstring _ (by decide)
    have hempty : U.Has (.string "") := hstring _ (by decide)
    have hrow : U.HasRow 2 [.string "\"\x00\"", .string ""] := ⟨rfl, by simp [hlong, hempty]⟩
    have hrow' : U.HasRow 2 [.string "", .string "\"\x00\""] := ⟨rfl, by simp [hlong, hempty]⟩
    have htext : rowText txt [.string "\"\x00\"", .string ""] =
        rowText txt [.string "", .string "\"\x00\""] := by
      simp only [rowText, List.map_cons, List.map_nil, Value.toDisplay]
      decide
    have hmerged := (h.mergedCall 2 _ _ hrow hrow').mp (by
      rw [mergeCallRows, if_pos (by decide), distinctBy_pair, if_pos htext])
    simp at hmerged
  · -- two lists, of which one has an item with the text of the separator and its quotes
    rw [Classical.not_imp, not_or, not_not, not_not] at hlist
    obtain ⟨hlists, hcomma, hblank⟩ := hlist
    have hstring : ∀ s : String, (s.toList.all fun c => c == quote || (c == ',' || c == ' ')) = true →
        U.Has (.string s) := by
      intro s hs
      refine Universe.Has.string s fun c hc => ?_
      have hc' := List.all_eq_true.mp hs c hc
      rw [Bool.or_eq_true, Bool.or_eq_true, beq_iff_eq, beq_iff_eq, beq_iff_eq] at hc'
      rcases hc' with rfl | rfl | rfl
      exacts [hquote, hcomma, hblank]
    have hlong : U.Has (.string "\", \"") := hstring _ (by decide)
    have hempty : U.Has (.string "") := hstring _ (by decide)
    have hone : U.Has (.list [.string "\", \""]) := Universe.Has.list _ hlists (by simp [hlong])
    have htwo : U.Has (.list [.string "", .string ""]) := Universe.Has.list _ hlists (by simp [hempty])
    have htext : (Value.list [.string "\", \""]).toDisplay txt =
        (Value.list [.string "", .string ""]).toDisplay txt := by
      simp only [Value.toDisplay, Value.displayItems]
      decide
    have heq := h.eq_of_toDisplay N txt M x hone htwo (by rw [Value.textKind]; decide)
      (by rw [Value.textKind]; decide) htext
    simp at heq

lemma RowsByValue.dateTimes (h : RowsByValue N txt M x U op ops) : ∀ ms ∈ U.dateTimes,
    ∀ ms' ∈ U.dateTimes, wrapMillis ∣ ms.toInt - ms'.toInt → ms = ms' := by
  intro ms hms ms' hms' hdvd
  have htext : (Value.dateTime ms).toDisplay txt = (Value.dateTime ms').toDisplay txt := by
    rw [Value.toDisplay, Value.toDisplay]
    exact (dateTimeToString_eq_iff ms ms').mpr hdvd
  have heq := h.eq_of_toDisplay N txt M x (.dateTime ms hms) (.dateTime ms' hms')
    (by rw [Value.textKind]; decide) (by rw [Value.textKind]; decide) htext
  exact Value.dateTime.inj heq

/-- A statement without rows. -/
def emptyMatch : MatchStatement where
  segments := []
  callClause := none
  returnClause := { distinct := false, items := [], orderBy := none, skip := none, limit := none }

lemma parseUnion_emptyMatch (op : UnionType) (ops : List UnionType) :
    parseUnion (.match emptyMatch) ((op :: ops).map fun o => (o, .match emptyMatch)) =
      some (.union ⟨emptyMatch :: (op :: ops).map fun _ => emptyMatch, op⟩) := by
  have hmapM : ∀ ops : List UnionType,
      ((ops.map fun o => (o, Statement.match emptyMatch)).mapM fun e => e.2.asMatch) =
        some (ops.map fun _ => emptyMatch) := by
    intro ops
    induction ops with
    | nil => rfl
    | cons o ops ih =>
      rw [List.map_cons, List.mapM_cons, ih]
      rfl
  simp only [parseUnion, hmapM]
  rfl

/-- The chain on results of one column: the first query has the given rows, the last one too if asked for. -/
lemma RowsByValue.chain_rows (h : RowsByValue N txt M x U op ops) (n : ℕ) (rows : List Row)
    (branches : List (List Row)) (hlength : branches.length = (op :: ops).length)
    (hrows : ∀ rows' ∈ rows :: branches, ∀ row ∈ rows', U.HasRow n row) :
    (if op = .union then distinctBy (rowText txt) [] (rows ++ branches.flatten)
      else rows ++ branches.flatten) = unionChain rows ((op :: ops).zip branches) := by
  have hresult : ∀ rs' ∈ (⟨List.replicate n "", rows⟩ : ResultSet) ::
      branches.map (fun rows' => ⟨List.replicate n "", rows'⟩), U.HasResult n rs' := by
    intro rs' hrs'
    rcases List.mem_cons.mp hrs' with rfl | hrs'
    · exact ⟨List.length_replicate, hrows rows List.mem_cons_self⟩
    · obtain ⟨rows', hmem, rfl⟩ := List.mem_map.mp hrs'
      exact ⟨List.length_replicate, hrows rows' (List.mem_cons_of_mem rows hmem)⟩
  have hchain := h.chain (.match emptyMatch) ((op :: ops).map fun o => (o, .match emptyMatch))
    ⟨_, op⟩ (by simp [List.map_map, Function.comp_def]) (parseUnion_emptyMatch op ops) n _ _
    (by simp [hlength]) hresult
  rw [unionResults_eq txt M (fun rs' h => (hresult rs' h).columns)] at hchain
  have hflat : ((⟨List.replicate n "", rows⟩ : ResultSet) ::
      branches.map (fun rows' => ⟨List.replicate n "", rows'⟩)).flatMap (·.rows) =
        rows ++ branches.flatten := by
    rw [List.flatMap_cons, List.flatMap_map, List.flatMap_id']
  have hmap : (branches.map fun rows' => (⟨List.replicate n "", rows'⟩ : ResultSet)).map (·.rows) =
      branches := by
    rw [List.map_map]
    exact List.map_id'' (fun _ => rfl) branches
  rw [hflat, hmap] at hchain
  exact (ResultSet.mk.inj (Except.ok.inj hchain)).2

lemma unionChain_append (rows : List Row) (l l' : List (UnionType × List Row)) :
    unionChain rows (l ++ l') = unionChain (unionChain rows l) l' := by
  induction l generalizing rows with
  | nil => rfl
  | cons e l ih =>
    obtain ⟨op, more⟩ := e
    cases op with
    | union => rw [List.cons_append, unionChain, unionChain, ih]
    | unionAll => rw [List.cons_append, unionChain, unionChain, ih]

/-- Empty results leave the rows, without duplicates if one operator is `UNION`. -/
lemma unionChain_empties (ops : List UnionType) (rows : List Row) :
    unionChain rows (ops.map fun o => (o, [])) = if .union ∈ ops then keepFirst ∅ rows else rows := by
  have hself : keepFirst ∅ (keepFirst ∅ rows) = keepFirst ∅ rows := by
    have h := @keepFirst_keepFirst_append _ ∅ rows []
    rwa [List.append_nil, List.append_nil] at h
  induction ops generalizing rows with
  | nil => rw [List.map_nil, unionChain, if_neg (by simp)]
  | cons o ops ih =>
    cases o with
    | unionAll =>
      rw [List.map_cons, unionChain, List.append_nil, ih rows hself]
      simp
    | union =>
      rw [List.map_cons, unionChain, List.append_nil, ih _ (by rw [hself, hself]), if_pos List.mem_cons_self,
        hself, ite_self]

lemma zip_empties (ops : List UnionType) :
    (ops.zip (ops.map fun _ => ([] : List Row))) = ops.map fun o => (o, []) := by
  induction ops with
  | nil => rfl
  | cons o ops ih => rw [List.map_cons, List.zip_cons_cons, ih, List.map_cons]

lemma flatten_empties (ops : List UnionType) : (ops.map fun _ => ([] : List Row)).flatten = [] := by
  rw [List.flatten_eq_nil_iff]
  intro rows hrows
  obtain ⟨-, -, rfl⟩ := List.mem_map.mp hrows
  rfl

/-- The first operator stands for all of them. -/
lemma RowsByValue.oneUnion (h : RowsByValue N txt M x U op ops) : OneUnion op ops := by
  have hone : U.HasRow 1 [.null] := ⟨rfl, by simp [Universe.Has.null]⟩
  by_contra hnot
  rw [OneUnion, not_or, not_and_or] at hnot
  obtain ⟨hunion, hends⟩ := hnot
  have hmem : .union ∈ op :: ops := by
    by_contra hmem
    refine hunion fun o ho => ?_
    cases o with
    | unionAll => rfl
    | union => exact absurd ho hmem
  cases op with
  | unionAll =>
    -- The first query has the same row twice, and the others have none.
    have hchain := h.chain_rows N txt M x 1 [[.null], [.null]]
      ((.unionAll :: ops).map fun _ => []) (by simp) (by simp [hone])
    rw [if_neg (by decide), zip_empties, flatten_empties, unionChain_empties, if_pos hmem] at hchain
    have hdup : keepFirst ∅ [[Value.null], [Value.null]] = [[.null]] := by
      rw [keepFirst_cons_of_notMem (by simp), keepFirst_cons_of_mem (by simp), keepFirst]
    rw [hdup] at hchain
    simp at hchain
  | union =>
    -- The first query and the last one have the same row.
    have hlast : (UnionType.union :: ops).getLast? = some .unionAll := by
      obtain ⟨o, ho⟩ : ∃ o, (UnionType.union :: ops).getLast? = some o :=
        ⟨_, List.getLast?_eq_some_getLast (List.cons_ne_nil _ _)⟩
      rw [ho]
      cases o with
      | unionAll => rfl
      | union => exact absurd ho (hends.resolve_left (not_not.mpr rfl))
    obtain ⟨front, hfront⟩ := List.getLast?_eq_some_iff.mp hlast
    have hchain := h.chain_rows N txt M x 1 [[.null]] ((front.map fun _ => []) ++ [[[.null]]])
      (by rw [hfront]; simp) (by
        intro rows' hrows' row hrow
        have hrow' : row = [.null] := by
          rcases List.mem_cons.mp hrows' with rfl | hrows'
          · exact List.mem_singleton.mp hrow
          · rcases List.mem_append.mp hrows' with hempty | hrows'
            · obtain ⟨-, -, rfl⟩ := List.mem_map.mp hempty
              simp at hrow
            · rw [List.mem_singleton.mp hrows'] at hrow
              exact List.mem_singleton.mp hrow
        rw [hrow']
        exact hone)
    have hkeep : keepFirst ∅ [[Value.null]] = [[.null]] := by
      rw [keepFirst_cons_of_notMem (by simp), keepFirst]
    rw [if_pos rfl, List.flatten_append, flatten_empties, List.nil_append, hfront,
      List.zip_append (by simp), zip_empties, unionChain_append, unionChain_empties, hkeep, ite_self] at hchain
    have hpair : distinctBy (rowText txt) [] [[Value.null], [Value.null]] = [[.null]] := by
      rw [distinctBy_pair, if_pos rfl]
    simp [unionChain, hpair] at hchain

/-- Rows count as the same exactly when they are equal, and the chain is applied from left to right, if and
only if the universe can be read back from texts and the first operator stands for all of them. -/
theorem rowsByValue_iff : RowsByValue N txt M x U op ops ↔ U.Readable ∧ OneUnion op ops := by
  constructor
  · intro h
    exact ⟨⟨h.quotes N txt M x, h.dateTimes N txt M x⟩, h.oneUnion N txt M x⟩
  · rintro ⟨hU, hops⟩
    exact rowsByValue_of_readable N txt M x hU hops

end RowsByValue

/-! ## Rows that are mistaken for each other -/

/-- All strings, and lists. -/
def allStrings : Universe where
  chars := Set.univ
  lists := True
  dateTimes := ∅
  nodeData _ := ([], [])

/-- A list of two strings is counted as a list of one string, two rows with other strings are merged, and
`UNION` followed by `UNION ALL` drops a row that `UNION ALL` keeps. -/
theorem not_rowsByValue_allStrings :
    ¬ RowsByValue noNumbers ⟨fun _ => "", fun _ => ""⟩ plainSemantics (.plain ConcurrentGraph.new)
        allStrings .union [.union] ∧
      distinctValues ⟨fun _ => "", fun _ => ""⟩
          [.list [.string "a", .string "b"], .list [.string "a\", \"b"]] =
        [.list [.string "a", .string "b"]] ∧
      mergeCallRows (rowText ⟨fun _ => "", fun _ => ""⟩) [.union]
          [[.string "a\"\x00\"b", .string "c"], [.string "a", .string "b\"\x00\"c"]] =
        [[.string "a\"\x00\"b", .string "c"]] ∧
      unionResults (plainSemantics.withRowText ⟨fun _ => "", fun _ => ""⟩) .union
          [⟨["x"], [[.int 1]]⟩, ⟨["x"], [[.int 2]]⟩, ⟨["x"], [[.int 1]]⟩] =
        .ok ⟨["x"], [[.int 1], [.int 2]]⟩ ∧
      unionChain [[.int 1]] [(.union, [[.int 2]]), (.unionAll, [[.int 1]])] =
        [[.int 1], [.int 2], [.int 1]] := by
  refine ⟨fun h => ?_, ?_, ?_, ?_, ?_⟩
  · rcases h.quotes with hquote | ⟨hnul, -⟩
    · exact hquote (Set.mem_univ quote)
    · exact hnul (Set.mem_univ nul)
  · have htext : (Value.list [.string "a", .string "b"]).toDisplay ⟨fun _ => "", fun _ => ""⟩ =
        (Value.list [.string "a\", \"b"]).toDisplay ⟨fun _ => "", fun _ => ""⟩ := by
      simp only [Value.toDisplay, Value.displayItems]
      decide
    rw [distinctValues, distinctBy_pair, if_pos htext]
  · have htext : rowText ⟨fun _ => "", fun _ => ""⟩ [.string "a\"\x00\"b", .string "c"] =
        rowText ⟨fun _ => "", fun _ => ""⟩ [.string "a", .string "b\"\x00\"c"] := by
      simp only [rowText, List.map_cons, List.map_nil, Value.toDisplay]
      decide
    rw [mergeCallRows, if_pos (by decide), distinctBy_pair, if_pos htext]
  · rfl
  · rw [unionChain, unionChain, unionChain, List.singleton_append, keepFirst_pair (by simp)]
    rfl

end Maharit
