import MaharitDb.Query.Aggregate
import MaharitDb.Query.LimitPrefix

/-!
# The shortcuts of counting

`count` is answered without looking at the rows in two places: `try_simple_count` takes the cardinality
of the label index for `MATCH (n:L) RETURN count(n)`, and `evaluate_aggregate` takes the number of rows
when the first row binds the variable to a node or an edge (`maharit-query/src/executor.rs`).  The first
shortcut agrees with the general path; the second does when no later row leaves the variable unbound.
-/

namespace Maharit

variable {σ : Type} [GraphBackend σ] {N : NumberAggregates} {txt : FloatText} {M : Semantics σ}
  {x : Executor σ}

/-! ## Counting the rows that bind a variable -/

/-- The row binds the variable to a value that is not null. -/
def bindsNonNull (name : String) (b : Bindings) : Bool :=
  match b.lookup name with
  | none | some (.scalar .null) => false
  | some _ => true

/-- A returned variable is null where it is unbound or bound to null. -/
lemma isNonNull_variable (name : String) (b : Bindings) :
    isNonNull M x (.variable name) b = bindsNonNull name b := by
  unfold isNonNull bindsNonNull
  rw [evaluateReturnItem, returnVariable]
  rcases b.lookup name with _ | bound
  · rfl
  · cases bound with
    | node id =>
      simp only [nodeValue]
      cases GraphBackend.getNode x.graph id <;> rfl
    | edge id => rfl
    | path nodes edges => rfl
    | scalar value => cases value <;> rfl

/-- `count(v)` is the number of rows, or of rows that bind `v`. -/
lemma countItem_variable (name : String) (bs : List Bindings) :
    countItem M x (.variable name) bs =
      if isAlwaysBound name bs then bs.length else bs.countP (bindsNonNull name) := by
  rw [countItem]
  have hrow : isNonNull M x (.variable name) = bindsNonNull name := funext (isNonNull_variable name)
  rw [hrow]

/-- Counts below the limit of a vector are not wrapped. -/
lemma ofNat_inj {m n : ℕ} (hm : m < 2 ^ 63) (hn : n < 2 ^ 63)
    (h : Int64.ofNat m = Int64.ofNat n) : m = n := by
  have hint : (Int64.ofNat m).toInt = (Int64.ofNat n).toInt := by rw [h]
  rw [Int64.toInt_ofNat_of_lt hm, Int64.toInt_ofNat_of_lt hn] at hint
  exact_mod_cast hint

/-- `count(v)` counts the rows that bind `v` exactly when the first row does not bind it to a node or an
edge, or every row binds it. -/
lemma evaluateAggregate_count_variable {name : String} {bs : List Bindings} (hlen : bs.length < 2 ^ 63) :
    evaluateAggregate N txt M x bs (.aggregate (.count (some (.variable name)))) =
        .ok (.int (Int64.ofNat (bs.countP (bindsNonNull name)))) ↔
      (isAlwaysBound name bs = true → ∀ b ∈ bs, bindsNonNull name b = true) := by
  have hcount : evaluateAggregate N txt M x bs (.aggregate (.count (some (.variable name)))) =
      .ok (.int (Int64.ofNat (countItem M x (.variable name) bs))) := rfl
  rw [hcount, countItem_variable]
  by_cases hfirst : isAlwaysBound name bs = true
  · rw [if_pos hfirst, ← List.countP_eq_length]
    have hle : bs.countP (bindsNonNull name) ≤ bs.length := List.countP_le_length
    constructor
    · intro h _
      have hint : Int64.ofNat bs.length = Int64.ofNat (bs.countP (bindsNonNull name)) := by
        simpa using h
      exact (ofNat_inj hlen (by omega) hint).symm
    · intro h
      rw [h hfirst]
  · rw [if_neg hfirst]
    exact iff_of_true rfl fun h => absurd h hfirst

/-! ## Counting the nodes of a label -/

/-- `execute_match` without the shortcut. -/
def executeMatchRows (M : Semantics σ) (x : Executor σ) (m : MatchStatement) :
    Except ExecuteError ResultSet :=
  match executeSegments M (earlyLimit M x m.returnClause) x m.segments [∅] with
  | (_, .error e) => .error e
  | (x, .ok bs) => finishMatch M x m.callClause m.returnClause bs

/-- The statements that `try_simple_count` answers: one node pattern without properties and with at
most one label, and plain counts. -/
structure SimpleCount (m : MatchStatement) (p : NodePattern Expression) : Prop where
  callClause : m.callClause = none
  segments : m.segments = [⟨[⟨[.node p], false⟩], none, none⟩]
  properties : p.properties = []
  labels : p.labels.length ≤ 1
  nonempty : m.returnClause.items ≠ []
  plain : ∀ item ∈ m.returnClause.items, isPlainCount p.var item = true

/-- The nodes a simple count counts. -/
def countedNodes (g : σ) (p : NodePattern Expression) : List NodeId :=
  match p.labels.head? with
  | some label => GraphBackend.nodesByLabel g label
  | none => GraphBackend.nodeIds g

/-- What `try_simple_count` answers, and when. -/
lemma simpleCount_of_trySimpleCount (hg : GraphBackend.Listed x.graph) {m : MatchStatement}
    {rs : ResultSet} (h : trySimpleCount M x m = some rs) :
    ∃ p, SimpleCount m p ∧ rs =
      { columns := m.returnClause.items.map (returnItemToColumnName M)
        rows := [m.returnClause.items.map fun _ =>
          .int (Int64.ofNat (countedNodes x.graph p).length)] } := by
  unfold trySimpleCount at h
  split at h
  · rename_i p hcall hsegments
    simp only [Option.ite_none_left_eq_some, Bool.or_eq_true, not_or, Bool.not_eq_true',
      decide_eq_true_eq, Option.some.injEq] at h
    obtain ⟨hpattern, hclause, hplain, rfl⟩ := h
    have hitems : m.returnClause.items ≠ [] := by
      intro hnil
      simp [hnil] at hclause
    refine ⟨p, ⟨hcall, hsegments, by simpa using hpattern.1, by simpa using hpattern.2, hitems, ?_⟩, ?_⟩
    · simpa using hplain
    · cases hhead : p.labels.head? with
      | none => simp [countedNodes, hhead, hg.nodeCount]
      | some label => simp [countedNodes, hhead]
  · exact absurd h (by simp)

/-- A plain count counts the rows that a node pattern makes. -/
lemma evaluateAggregate_of_isPlainCount {p : NodePattern Expression} {item : ReturnItem Expression}
    (h : isPlainCount p.var item = true) (ids : List NodeId) :
    evaluateAggregate N txt M x (ids.map fun id => bindVar ∅ p.var (.node id)) item =
      .ok (.int (Int64.ofNat ids.length)) := by
  fun_induction isPlainCount p.var item with
  | case1 item name ih => exact ih h
  | case2 =>
    change Except.ok (Value.int (Int64.ofNat _)) = _
    rw [List.length_map]
  | case3 name =>
    have hvar : p.var = some name := by simpa using h
    have hcount : countItem M x (.variable name)
        (ids.map fun id => bindVar ∅ p.var (.node id)) = ids.length := by
      rw [countItem_variable, hvar]
      cases ids with
      | nil => rfl
      | cons id ids =>
        have hfirst : isAlwaysBound name
            ((id :: ids).map fun id => bindVar ∅ (some name) (BindingValue.node id)) = true := by
          have hlookup : ((∅ : Bindings).insert name (.node id)).lookup name = some (.node id) :=
            AList.lookup_insert _
          simp only [isAlwaysBound, List.map_cons, List.head?_cons, Option.bind_some, bindVar, hlookup]
        rw [if_pos hfirst, List.length_map]
    change Except.ok (Value.int (Int64.ofNat _)) = _
    rw [hcount]
  | case4 => cases h

/-- Every node that is looked at matches a pattern with one label at most and no properties. -/
lemma matchNodePattern_counted (hg : GraphBackend.Listed x.graph) {p : NodePattern Expression}
    {ev : Evaluator} (hhints : x.rangeHints = []) (hproperties : p.properties = [])
    (hlabels : p.labels.length ≤ 1) :
    matchNodePattern x ev p [∅] =
      .ok ((countedNodes x.graph p).map fun id => bindVar ∅ p.var (.node id)) := by
  have hcandidates : nodeCandidates x p = countedNodes x.graph p := by
    have hindex : indexLookup x p = none := by
      unfold indexLookup
      cases p.labels.head? with
      | none => rfl
      | some label => simp [hproperties]
    have hrange : rangeIndexCandidates x p = none := by
      unfold rangeIndexCandidates
      split
      · simp [hhints]
      · rfl
    rw [nodeCandidates, hindex, scanCandidates, hrange]
    rfl
  have hfree : p.var.bind (∅ : Bindings).lookup = none := by
    cases p.var <;> rfl
  have hmatches : ∀ id ∈ countedNodes x.graph p, nodeMatchesPattern x ev id p ∅ = .ok true := by
    intro id hid
    unfold nodeMatchesPattern
    rw [hfree, hproperties]
    cases hp : p.labels with
    | nil =>
      simp [countedNodes, hp] at hid
      have hcontains : GraphBackend.containsNode x.graph id = true :=
        (hg.containsNode id).mpr ((hg.mem_nodeIds id).mp hid)
      simp [hcontains, Except.allM]
    | cons label rest =>
      have hrest : rest = [] := by
        rw [hp] at hlabels
        simpa using hlabels
      subst hrest
      simp [countedNodes, hp] at hid
      have hlabel : GraphBackend.nodeHasAllLabels x.graph id [label] = true := by
        obtain ⟨n, hn, hmem⟩ := (hg.mem_nodesByLabel id label).mp hid
        exact (hg.nodeHasAllLabels id [label]).mpr ⟨n, hn, by simpa using hmem⟩
      simp [hlabel, Except.allM]
  have hkeep : Except.keep (fun id => nodeMatchesPattern x ev id p ∅) (countedNodes x.graph p) =
      .ok (countedNodes x.graph p) :=
    Except.keep_eq_ok.mpr ⟨fun _ => true, hmatches, by simp⟩
  rw [matchNodePattern, Except.collect_singleton, matchNode, hfree]
  simp only [hcandidates, hkeep]
  rfl

/-- The rows that a simple count would be computed from. -/
lemma executeSegments_simpleCount (hg : GraphBackend.Listed x.graph) {m : MatchStatement}
    {p : NodePattern Expression} (hm : SimpleCount m p) :
    executeSegments M (earlyLimit M x m.returnClause) x m.segments [∅] =
      ({ x with rangeHints := [] },
        .ok ((countedNodes x.graph p).map fun id => bindVar ∅ p.var (.node id))) := by
  have hlimit : earlyLimit M x m.returnClause = none := by
    have hany : m.returnClause.items.any isAggregate = true := by
      obtain ⟨item, hitem⟩ := List.exists_mem_of_ne_nil _ hm.nonempty
      exact List.any_eq_true.mpr ⟨item, hitem, isAggregate_of_isPlainCount (hm.plain item hitem)⟩
    simp [earlyLimit, hany]
  have hmatch : matchNodePattern { x with rangeHints := [] } (M.evaluate { x with rangeHints := [] }) p
      [∅] = .ok ((countedNodes x.graph p).map fun id => bindVar ∅ p.var (.node id)) :=
    matchNodePattern_counted (x := { x with rangeHints := [] }) hg rfl hm.properties hm.labels
  rw [hlimit, hm.segments]
  simp only [executeSegments, executeQuerySegment, segmentHints, pushedEqualities, List.map_cons,
    List.map_nil, augmentClause, List.isEmpty_nil, Bool.true_or, if_true, executeMatchClauses,
    executeMatchClause, Bool.false_eq_true, if_false, Except.collect_singleton,
    matchPatternsForBinding, List.isEmpty_cons, matchPattern, hmatch]
  rfl

/-- A loop whose body succeeds on every element. -/
lemma mapM_eq_map {ε α β : Type} {f : α → Except ε β} {g : α → β} {l : List α}
    (h : ∀ a ∈ l, f a = .ok (g a)) : l.mapM f = .ok (l.map g) := by
  induction l with
  | nil => rfl
  | cons a l ih =>
    rw [List.mapM_cons, h a List.mem_cons_self, ih fun a' ha' => h a' (List.mem_cons_of_mem _ ha')]
    rfl

/-- `try_simple_count` answers what the rows give. -/
lemma executeMatchRows_of_trySimpleCount (hg : GraphBackend.Listed x.graph) {m : MatchStatement}
    {rs : ResultSet} (h : trySimpleCount (M.withAggregates N txt) x m = some rs) :
    executeMatchRows (M.withAggregates N txt) x m = .ok rs := by
  obtain ⟨p, hm, rfl⟩ := simpleCount_of_trySimpleCount hg h
  have hitem : ∀ item ∈ m.returnClause.items, isAggregate item = true := fun item hitem =>
    isAggregate_of_isPlainCount (hm.plain item hitem)
  have hall : m.returnClause.items.all isAggregate = true := List.all_eq_true.mpr hitem
  have hany : m.returnClause.items.any isAggregate = true := by
    obtain ⟨item, hmem⟩ := List.exists_mem_of_ne_nil _ hm.nonempty
    exact List.any_eq_true.mpr ⟨item, hmem, hitem item hmem⟩
  have hrow : ∀ x : Executor σ, m.returnClause.items.mapM (evaluateAggregate N txt M x
      ((countedNodes x.graph p).map fun id => bindVar ∅ p.var (.node id))) =
        .ok (m.returnClause.items.map fun _ => .int (Int64.ofNat (countedNodes x.graph p).length)) :=
    fun x => mapM_eq_map fun item hmem => evaluateAggregate_of_isPlainCount (hm.plain item hmem) _
  rw [executeMatchRows, executeSegments_simpleCount hg hm, hm.callClause]
  simp only [finishMatch, buildResultSet, hany, if_true, Semantics.withAggregates,
    buildAggregatedResultSet, hall, hrow]
  have hcolumns : returnItemToColumnName (M.withAggregates N txt) = returnItemToColumnName M := by
    funext item
    cases item <;> rfl
  rw [← hcolumns]
  rfl

/-- The two shortcuts agree with counting row by row. -/
structure CountsAgree (N : NumberAggregates) (txt : FloatText) (M : Semantics σ) (x : Executor σ)
    (m : MatchStatement) (name : String) (bs : List Bindings) : Prop where
  simple : ∀ rs, trySimpleCount (M.withAggregates N txt) x m = some rs →
    executeMatchRows (M.withAggregates N txt) x m = .ok rs
  ofVariable : evaluateAggregate N txt M x bs (.aggregate (.count (some (.variable name)))) =
    .ok (.int (Int64.ofNat (bs.countP (bindsNonNull name))))

/-- Fast counts are the general counts of a statement and of a list of rows exactly when the first row
does not bind the variable to a node or an edge, or no row leaves it unbound or null. -/
theorem countsAgree_iff (N : NumberAggregates) (txt : FloatText) (M : Semantics σ) (x : Executor σ)
    (hg : GraphBackend.Listed x.graph) (m : MatchStatement) (name : String) (bs : List Bindings)
    (hlen : bs.length < 2 ^ 63) :
    CountsAgree N txt M x m name bs ↔
      (isAlwaysBound name bs = true → ∀ b ∈ bs, bindsNonNull name b = true) := by
  have hvariable : evaluateAggregate N txt M x bs (.aggregate (.count (some (.variable name)))) =
        .ok (.int (Int64.ofNat (bs.countP (bindsNonNull name)))) ↔
      (isAlwaysBound name bs = true → ∀ b ∈ bs, bindsNonNull name b = true) :=
    evaluateAggregate_count_variable hlen
  exact ⟨fun h => hvariable.mp h.ofVariable,
    fun h => ⟨fun rs hrs => executeMatchRows_of_trySimpleCount hg hrs, hvariable.mpr h⟩⟩

/-- A person with a friend and a person without one, as `OPTIONAL MATCH` leaves them. -/
def optionalFriends : List Bindings :=
  [((∅ : Bindings).insert "p" (.node 0)).insert "f" (.node 1), (∅ : Bindings).insert "p" (.node 1)]

/-- No aggregate over numbers. -/
def noNumbers : NumberAggregates where
  sum _ := .null
  avg _ := .null
  stDev _ := .null
  stDevP _ := .null
  percentileCont _ _ := .ok .null
  percentileDisc _ _ := .ok .null

/-- `count(p)` of these rows is 2, and the shortcut for `MATCH (n) RETURN count(n)` is right. -/
theorem countsAgree_optionalFriends :
    CountsAgree noNumbers ⟨fun _ => "", fun _ => ""⟩ plainSemantics (.plain ConcurrentGraph.new)
      { segments := [matchNodes none]
        callClause := none
        returnClause := { returnVariableClause "n" with
          items := [.aggregate (.count (some (.variable "n")))] } }
      "p" optionalFriends :=
  (countsAgree_iff _ _ _ _ ConcurrentGraph.consistent_new.listed _ _ _ (by decide)).mpr
    fun _ => by decide

/-- `count(f)` of these rows is 2, although only the first row binds `f`. -/
theorem not_count_optionalFriends :
    evaluateAggregate noNumbers ⟨fun _ => "", fun _ => ""⟩ plainSemantics (.plain ConcurrentGraph.new)
        optionalFriends (.aggregate (.count (some (.variable "f")))) = .ok (.int 2) ∧
      optionalFriends.countP (bindsNonNull "f") = 1 :=
  ⟨rfl, by decide⟩

end Maharit
