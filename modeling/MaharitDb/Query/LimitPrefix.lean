import MaharitDb.Query.MatchStatement
import MaharitDb.Query.PathCorrect

/-!
# `LIMIT` as a prefix

`execute_match` stops early when a segment has as many rows as `SKIP` and `LIMIT` ask for.  If that
happens only after the last segment, the statement returns a part of the rows it would return without
`SKIP` and `LIMIT`; it is the part asked for exactly when `CALL` and `DISTINCT` leave enough of the
rows that were kept.
-/

namespace Maharit

/-! ## Lists -/

/-- The same slice of a list and of one of its prefixes. -/
lemma slice_prefix_iff {α : Type*} {l l' : List α} (hsub : l' <+: l) (s k : ℕ) :
    (l'.drop s).take k = (l.drop s).take k ↔ min l.length (s + k) ≤ max l'.length s := by
  obtain ⟨t, rfl⟩ := hsub
  have hslice : (l'.drop s).take k <+: ((l' ++ t).drop s).take k := by
    rw [List.drop_append]
    exact (List.prefix_append _ _).take k
  constructor
  · intro heq
    have hlength := congrArg List.length heq
    simp only [List.length_take, List.length_drop, List.length_append] at hlength ⊢
    omega
  · intro hle
    refine hslice.eq_of_length ?_
    simp only [List.length_take, List.length_drop, List.length_append] at hle ⊢
    omega

/-- Duplicates are dropped from a prefix as from the whole list. -/
lemma distinctBy_prefix {α : Type} (key : α → String) (seen : List String) {l l' : List α}
    (hsub : l' <+: l) : distinctBy key seen l' <+: distinctBy key seen l := by
  obtain ⟨t, rfl⟩ := hsub
  induction l' generalizing seen with
  | nil => exact List.nil_prefix
  | cons a l' ih =>
    rw [List.cons_append, distinctBy, distinctBy]
    split
    · exact ih seen
    · exact List.cons_prefix_cons.mpr ⟨rfl, ih _⟩

/-- A loop over the first elements makes the first results. -/
lemma mapM_take {ε α β : Type} {f : α → Except ε β} {l : List α} {r : List β}
    (h : l.mapM f = .ok r) (n : ℕ) : (l.take n).mapM f = .ok (r.take n) := by
  induction l generalizing r n with
  | nil =>
    have hr : r = [] := (Except.ok.inj h).symm
    simp [hr]
    rfl
  | cons a l ih =>
    rw [List.mapM_cons] at h
    obtain ⟨b, hb, h⟩ := Except.bind_eq_ok.mp h
    obtain ⟨bs, hbs, h⟩ := Except.bind_eq_ok.mp h
    have hr : b :: bs = r := Except.ok.inj h
    cases n with
    | zero => simp; rfl
    | succ n =>
      rw [List.take_succ_cons, List.mapM_cons, hb, ← hr, List.take_succ_cons]
      have hrest := ih hbs n
      change (List.mapM f (l.take n)).bind (fun bs => .ok (b :: bs)) = _
      rw [hrest]
      rfl

/-- A loop makes one result of each element. -/
lemma length_mapM {ε α β : Type} {f : α → Except ε β} {l : List α} {r : List β}
    (h : l.mapM f = .ok r) : r.length = l.length := by
  induction l generalizing r with
  | nil =>
    rw [← Except.ok.inj h]
    rfl
  | cons a l ih =>
    rw [List.mapM_cons] at h
    obtain ⟨b, -, h⟩ := Except.bind_eq_ok.mp h
    obtain ⟨bs, hbs, h⟩ := Except.bind_eq_ok.mp h
    rw [← Except.ok.inj h, List.length_cons, List.length_cons, ih hbs]

section Limit

variable {σ : Type} [GraphBackend σ] (M : Semantics σ) (x : Executor σ)

/-- A return clause with other `SKIP` and `LIMIT`. -/
def ReturnClause.sliced (r : ReturnClause) (skip limit : Option Expression) : ReturnClause :=
  { r with skip := skip, limit := limit }

/-- A statement with other `SKIP` and `LIMIT`. -/
def MatchStatement.sliced (m : MatchStatement) (skip limit : Option Expression) : MatchStatement :=
  { m with returnClause := m.returnClause.sliced skip limit }

/-- A `RETURN` clause that keeps the order of the rows and makes one row of each. -/
structure ReturnClause.IsPlain (r : ReturnClause) : Prop where
  noAggregate : r.items.any isAggregate = false
  noOrder : r.orderBy = none

/-! ## Result sets -/

/-- The rows of a clause without `SKIP` and `LIMIT`. -/
def returnRows (r : ReturnClause) (pairs : List (List Value × Row)) : List Row :=
  (if r.distinct then distinctBy (fun p => M.texts.rowKey p.2) [] pairs else pairs).map (·.2)

variable {M x}

/-- The result set without `SKIP` and `LIMIT`. -/
lemma buildResultSet_base {r : ReturnClause} (hr : r.IsPlain) {bs : List Bindings} {rs : ResultSet} :
    buildResultSet M x (r.sliced none none) bs = .ok rs ↔
      ∃ pairs, bs.mapM (returnRow M x r (r.items.map (returnItemToColumnName M))) = .ok pairs ∧
        rs = ⟨r.items.map (returnItemToColumnName M), returnRows M r pairs⟩ := by
  have hplain : ¬ (r.sliced none none).items.any isAggregate = true := by
    rw [Bool.not_eq_true]
    exact hr.noAggregate
  have horder : (r.sliced none none).orderBy = none := hr.noOrder
  have hrow : returnRow M x (r.sliced none none) = returnRow M x r := rfl
  rw [buildResultSet, if_neg hplain, hrow]
  change Except.bind (bs.mapM _) _ = _ ↔ _
  rw [Except.bind_eq_ok]
  refine exists_congr fun pairs => and_congr_right fun _ => ?_
  simp only [resolveOption, sortRows, horder, slice]
  change Except.ok _ = _ ↔ _
  rw [Except.ok.injEq]
  exact eq_comm

/-- The result set with `SKIP` and `LIMIT` is a slice of the one without. -/
lemma buildResultSet_sliced {r : ReturnClause} (hr : r.IsPlain) {bs : List Bindings} {rs : ResultSet}
    (hbase : buildResultSet M x (r.sliced none none) bs = .ok rs) {skip limit : Expression} {s k : ℕ}
    (hskip : resolveSkipLimit M x skip = .ok s) (hlimit : resolveSkipLimit M x limit = .ok k) :
    buildResultSet M x (r.sliced (some skip) (some limit)) bs =
      .ok { rs with rows := (rs.rows.drop s).take k } := by
  obtain ⟨pairs, hpairs, rfl⟩ := (buildResultSet_base hr).mp hbase
  have hplain : ¬ (r.sliced (some skip) (some limit)).items.any isAggregate = true := by
    rw [Bool.not_eq_true]
    exact hr.noAggregate
  have horder : (r.sliced (some skip) (some limit)).orderBy = none := hr.noOrder
  have hrow : returnRow M x (r.sliced (some skip) (some limit)) = returnRow M x r := rfl
  rw [buildResultSet, if_neg hplain, hrow]
  change Except.bind (bs.mapM (returnRow M x r (r.items.map (returnItemToColumnName M)))) _ = _
  rw [hpairs]
  simp only [Except.bind, ReturnClause.sliced, resolveOption, hskip, hlimit, Except.map, sortRows,
    hr.noOrder]
  rfl

/-- On the first rows, the result set has the first rows. -/
lemma buildResultSet_take {r : ReturnClause} (hr : r.IsPlain) {bs : List Bindings} {rs : ResultSet}
    (hbase : buildResultSet M x (r.sliced none none) bs = .ok rs) (n : ℕ) :
    ∃ rs', buildResultSet M x (r.sliced none none) (bs.take n) = .ok rs' ∧
      rs'.columns = rs.columns ∧ rs'.rows <+: rs.rows := by
  obtain ⟨pairs, hpairs, rfl⟩ := (buildResultSet_base hr).mp hbase
  refine ⟨_, (buildResultSet_base hr).mpr ⟨_, mapM_take hpairs n, rfl⟩, rfl, ?_⟩
  have hsub : pairs.take n <+: pairs := List.take_prefix n pairs
  unfold returnRows
  refine List.IsPrefix.map _ ?_
  split
  · exact distinctBy_prefix _ _ hsub
  · exact hsub

/-! ## `CALL` and the result set -/

/-- On the first rows, `CALL` makes the first rows. -/
lemma executeCallSubquery_take {call : CallSubquery} {bs rows : List Bindings}
    (h : executeCallSubquery M x call bs = .ok rows) (n : ℕ) :
    ∃ m, executeCallSubquery M x call (bs.take n) = .ok (rows.take m) := by
  obtain ⟨g, hg, rfl⟩ := Except.collect_eq_ok.mp h
  have htake : (bs.take n).flatMap g <+: bs.flatMap g := by
    conv_rhs => rw [← List.take_append_drop n bs, List.flatMap_append]
    exact List.prefix_append _ _
  refine ⟨((bs.take n).flatMap g).length, Except.collect_eq_ok.mpr ⟨g, fun b hb => ?_, ?_⟩⟩
  · exact hg b (List.mem_of_mem_take hb)
  · exact (List.prefix_iff_eq_take.mp htake).symm

/-- On the first rows, the end of a statement makes the first rows. -/
lemma finishMatch_take {r : ReturnClause} (hr : r.IsPlain) {call : Option CallSubquery}
    {bs : List Bindings} {rs : ResultSet}
    (hbase : finishMatch M x call (r.sliced none none) bs = .ok rs) (n : ℕ) :
    ∃ rs', finishMatch M x call (r.sliced none none) (bs.take n) = .ok rs' ∧
      rs'.columns = rs.columns ∧ rs'.rows <+: rs.rows := by
  cases call with
  | none => exact buildResultSet_take hr hbase n
  | some call =>
    obtain ⟨rows, hrows, hbuild⟩ := Except.bind_eq_ok.mp hbase
    obtain ⟨m, hm⟩ := executeCallSubquery_take hrows n
    obtain ⟨rs', hrs', hshape⟩ := buildResultSet_take hr hbuild m
    exact ⟨rs', Except.bind_eq_ok.mpr ⟨_, hm, hrs'⟩, hshape⟩

lemma finishMatch_sliced {r : ReturnClause} (hr : r.IsPlain) {call : Option CallSubquery}
    {bs : List Bindings} {rs : ResultSet}
    (hbase : finishMatch M x call (r.sliced none none) bs = .ok rs) {skip limit : Expression}
    {s k : ℕ} (hskip : resolveSkipLimit M x skip = .ok s) (hlimit : resolveSkipLimit M x limit = .ok k) :
    finishMatch M x call (r.sliced (some skip) (some limit)) bs =
      .ok { rs with rows := (rs.rows.drop s).take k } := by
  cases call with
  | none => exact buildResultSet_sliced hr hbase hskip hlimit
  | some call =>
    obtain ⟨rows, hrows, hbuild⟩ := Except.bind_eq_ok.mp hbase
    exact Except.bind_eq_ok.mpr ⟨rows, hrows, buildResultSet_sliced hr hbuild hskip hlimit⟩

/-! ## Segments -/

variable (M)

/-- No segment before the last one has as many as `n` rows. -/
def NoEarlyCut (n : ℕ) : Executor σ → List QuerySegment → List Bindings → Prop
  | x, segment :: segment' :: segments, bs =>
      ∀ bs', (executeQuerySegment M x segment bs).2 = .ok bs' →
        bs'.length < n ∧
          NoEarlyCut n (executeQuerySegment M x segment bs).1 (segment' :: segments) bs'
  | _, _, _ => True

variable {M}

/-- The rows of the segments, cut off after the last one. -/
lemma executeSegments_cut {n : ℕ} {x x' : Executor σ} {segments : List QuerySegment}
    {bs bs' : List Bindings} (hcut : NoEarlyCut M n x segments bs)
    (hbase : executeSegments M none x segments bs = (x', .ok bs')) :
    executeSegments M (some n) x segments bs =
      (x', .ok (if segments = [] then bs' else bs'.take n)) := by
  induction segments generalizing x bs with
  | nil =>
    simp only [executeSegments, Prod.mk.injEq, Except.ok.injEq] at hbase ⊢
    simp [hbase.1, hbase.2]
  | cons segment segments ih =>
    rcases hstep : executeQuerySegment M x segment bs with ⟨x₁, e | bs₁⟩
    · simp [executeSegments, hstep] at hbase
    · simp only [executeSegments, hstep, Option.any_none, Bool.false_eq_true, if_false] at hbase
      simp only [executeSegments, hstep, Option.any_some, decide_eq_true_eq, Option.getD_some,
        reduceCtorEq, if_false]
      cases segments with
      | nil =>
        simp only [executeSegments, Prod.mk.injEq, Except.ok.injEq] at hbase ⊢
        obtain ⟨rfl, rfl⟩ := hbase
        split
        · simp
        · simp [List.take_of_length_le (Nat.le_of_lt (Nat.lt_of_not_le ‹_›))]
      | cons segment' segments =>
        obtain ⟨hshort, hrest⟩ := hcut bs₁ (by rw [hstep])
        rw [hstep] at hrest
        rw [if_neg (Nat.not_le.mpr hshort), ih hrest hbase]
        simp

/-- Executing segments changes nothing but the hints. -/
lemma executeQuerySegment_fst (segment : QuerySegment) (bs : List Bindings) :
    ∃ hints, (executeQuerySegment M x segment bs).1 = { x with rangeHints := hints } := by
  unfold executeQuerySegment
  simp only
  split
  · exact ⟨_, rfl⟩
  · exact ⟨_, rfl⟩

lemma executeSegments_fst {limit : Option ℕ} {segments : List QuerySegment} {bs : List Bindings}
    {x : Executor σ} :
    ∃ hints, (executeSegments M limit x segments bs).1 = { x with rangeHints := hints } := by
  induction segments generalizing x bs with
  | nil => exact ⟨x.rangeHints, rfl⟩
  | cons segment segments ih =>
    obtain ⟨hints, hfst⟩ : ∃ hints,
        (executeQuerySegment M x segment bs).1 = { x with rangeHints := hints } :=
      executeQuerySegment_fst segment bs
    rcases hstep : executeQuerySegment M x segment bs with ⟨x₁, e | bs₁⟩
    · rw [hstep] at hfst
      exact ⟨hints, by simp [executeSegments, hstep, ← hfst]⟩
    · rw [hstep] at hfst
      simp only at hfst
      simp only [executeSegments, hstep]
      split
      · exact ⟨hints, hfst⟩
      · obtain ⟨hints', hrest⟩ : ∃ hints',
            (executeSegments M limit x₁ segments bs₁).1 = { x₁ with rangeHints := hints' } := ih
        exact ⟨hints', by rw [hrest, hfst]⟩

/-! ## The statement -/

lemma isAggregate_of_isPlainCount {var : Option String} {item : ReturnItem Expression}
    (h : isPlainCount var item = true) : isAggregate item = true := by
  induction item using isPlainCount.induct with
  | case1 item name ih =>
    rw [isPlainCount] at h
    rw [isAggregate]
    exact ih h
  | case2 => rfl
  | case3 name => rfl
  | case4 item h₁ h₂ h₃ => simp [isPlainCount] at h

/-- The fast path for counting is not taken without an aggregate. -/
lemma trySimpleCount_eq_none {m : MatchStatement} (hm : m.returnClause.IsPlain) :
    trySimpleCount M x m = none := by
  have hcount : ∀ var, m.returnClause.items ≠ [] →
      (!m.returnClause.items.all (isPlainCount var)) = true := by
    intro var hne
    obtain ⟨item, items, hitems⟩ := List.exists_cons_of_ne_nil hne
    have haggregate := hm.noAggregate
    rw [hitems, List.any_cons, Bool.or_eq_false_iff] at haggregate
    rw [hitems, List.all_cons, Bool.not_and, Bool.or_eq_true, Bool.not_eq_true']
    refine Or.inl (Bool.eq_false_iff.mpr fun hplain => ?_)
    rw [isAggregate_of_isPlainCount hplain] at haggregate
    exact absurd haggregate.1 (by simp)
  unfold trySimpleCount
  split
  · simp only
    split
    · rfl
    · split
      · rfl
      · next hfilters =>
        have hne : m.returnClause.items ≠ [] := by
          intro hnil
          simp [hnil] at hfilters
        rw [if_pos (hcount _ hne)]
  · rfl

/-- `SKIP` or `LIMIT` denotes a number, whatever the hints are. -/
def Resolves (M : Semantics σ) (x : Executor σ) (e : Expression) (n : ℕ) : Prop :=
  ∀ hints, resolveSkipLimit M { x with rangeHints := hints } e = .ok n

/-- What `CALL` and `RETURN` make of the first `k + s` rows of the segments is still `s + k` rows, or
all rows there are; or the rows asked for are beyond the last one anyway. -/
def EnoughLeft (M : Semantics σ) (x : Executor σ) (m : MatchStatement) (s k : ℕ) : Prop :=
  ∀ x' bs rs rs', executeSegments M none x m.segments [∅] = (x', .ok bs) →
    finishMatch M x' m.callClause (m.returnClause.sliced none none) bs = .ok rs →
    finishMatch M x' m.callClause (m.returnClause.sliced none none) (bs.take (k + s)) = .ok rs' →
    min rs.rows.length (s + k) ≤ max rs'.rows.length s

section Statement

variable {m : MatchStatement} (hm : m.returnClause.IsPlain) {skip limit : Expression} {s k : ℕ}
  (hskip : Resolves M x skip s) (hlimit : Resolves M x limit k)

include hm

/-- A statement without `SKIP` and `LIMIT` runs all its segments. -/
lemma executeMatch_base {rs : ResultSet} :
    (executeMatch M x (m.sliced none none)).2 = .ok rs ↔
      ∃ x' bs, executeSegments M none x m.segments [∅] = (x', .ok bs) ∧
        finishMatch M x' m.callClause (m.returnClause.sliced none none) bs = .ok rs := by
  have hplain : (m.sliced none none).returnClause.IsPlain := ⟨hm.noAggregate, hm.noOrder⟩
  have hearly : earlyLimit M x (m.sliced none none).returnClause = none := by
    unfold earlyLimit
    split <;> rfl
  have hsegments : (m.sliced none none).segments = m.segments := rfl
  rw [executeMatch, trySimpleCount_eq_none hplain, hearly, hsegments]
  rcases hrun : executeSegments M none x m.segments [∅] with ⟨x', e | bs⟩
  · simp
  · constructor
    · exact fun h => ⟨x', bs, rfl, h⟩
    · rintro ⟨x₁, bs₁, heq, h⟩
      cases heq
      exact h

include hskip hlimit

/-- A statement with `SKIP` and `LIMIT` cuts its segments off. -/
lemma executeMatch_sliced {x' : Executor σ} {bs : List Bindings}
    (hrun : executeSegments M (some (k + s)) x m.segments [∅] = (x', .ok bs)) :
    (executeMatch M x (m.sliced (some skip) (some limit))).2 =
      finishMatch M x' m.callClause (m.returnClause.sliced (some skip) (some limit)) bs := by
  have hplain : (m.sliced (some skip) (some limit)).returnClause.IsPlain := ⟨hm.noAggregate, hm.noOrder⟩
  have hskip' : resolveSkipLimit M x skip = .ok s := hskip x.rangeHints
  have hlimit' : resolveSkipLimit M x limit = .ok k := hlimit x.rangeHints
  have hearly : earlyLimit M x (m.sliced (some skip) (some limit)).returnClause = some (k + s) := by
    unfold earlyLimit
    rw [hplain.noAggregate, hplain.noOrder]
    simp [MatchStatement.sliced, ReturnClause.sliced, hskip', hlimit', Except.toOption]
  have hsegments : (m.sliced (some skip) (some limit)).segments = m.segments := rfl
  rw [executeMatch, trySimpleCount_eq_none hplain, hearly, hsegments, hrun]
  rfl

end Statement

/-- Without `CALL` and `DISTINCT` every row that was kept is returned. -/
lemma enoughLeft_of_rowwise {m : MatchStatement} (hm : m.returnClause.IsPlain)
    (hcall : m.callClause = none) (hdistinct : m.returnClause.distinct = false) (s k : ℕ) :
    EnoughLeft M x m s k := by
  have hlength : ∀ x' bs rs,
      finishMatch M x' m.callClause (m.returnClause.sliced none none) bs = .ok rs →
        rs.rows.length = bs.length := by
    intro x' bs rs hrs
    rw [hcall] at hrs
    obtain ⟨pairs, hpairs, rfl⟩ := (buildResultSet_base hm).mp hrs
    have hall := length_mapM hpairs
    simp [returnRows, hdistinct, hall]
  intro x' bs rs rs' _ hrs hrs'
  rw [hlength x' bs rs hrs, hlength x' _ rs' hrs', List.length_take]
  omega

end Limit

/-! ## A sample -/

/-- Only literals are evaluated, and nothing is aggregated, sorted or compared. -/
def plainSemantics : Semantics ConcurrentGraph where
  search := ⟨fun _ _ _ _ _ _ => .ok [], fun _ _ _ _ _ _ => .ok []⟩
  evaluate _ := evaluateLiteral
  aggregated _ _ _ := .error (.typeError "no aggregates")
  temporalField _ _ := .ok .null
  smallest _ n pairs := pairs.take n
  texts := ⟨fun _ => "", fun _ => "", fun _ => "", fun _ => "", fun _ => "", fun _ => "", fun _ => "",
    fun _ => ""⟩

/-- The segment `MATCH (n)` with an optional `WITH n`. -/
def matchNodes (withClause : Option WithClause) : QuerySegment where
  matchClauses := [⟨[.node { var := some "n", labels := [], properties := [] }], false⟩]
  whereClause := none
  withClause := withClause

/-- The clause `RETURN name`. -/
def returnVariableClause (name : String) : ReturnClause where
  distinct := false
  items := [.variable name]
  orderBy := none
  skip := none
  limit := none

lemma resolves_literal (g : ConcurrentGraph) (n : Int64) (hn : 0 ≤ n) :
    Resolves plainSemantics (.plain g) (.literal (.int n)) n.toInt.toNat := by
  intro hints
  simp [resolveSkipLimit, plainSemantics, evaluateLiteral, Value.ofLiteral, hn, Bind.bind, Except.bind,
    Pure.pure, Except.pure]

/-- A node, held by its id or with its data. -/
def Value.isNode : Value → Bool
  | .node _ | .nodeData _ _ _ => true
  | _ => false

end Maharit
