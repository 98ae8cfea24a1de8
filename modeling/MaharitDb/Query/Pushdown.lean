import MaharitDb.Lib.Pruned
import MaharitDb.Query.LimitPrefix
import MaharitDb.Query.PathSearch

/-!
# Pushing `WHERE` into the patterns

`execute_query_segment` writes the equalities `variable.property = constant` of a `WHERE` clause into
the node patterns, so that fewer rows are made.  A row that the pushed equality drops is doomed: the
`WHERE` clause would drop it, and every row made from it, in the end.  That is so when the constant
has a value which is not null, a date, a time or a duration: the evaluator takes a property that is
missing for null and compares dates, the matcher does neither, and it reports a parameter that is
missing where the evaluator drops the row.  It also takes that the variable of the node is not taken
by the relationship of the same hop.
-/

namespace Maharit

/-! ## Constants -/

/-- The value of a literal or of a parameter. -/
def constValue (params : HashMap String Value) : Expression → Option Value
  | .literal lit => some (.ofLiteral lit)
  | .parameter name => params.lookup name
  | _ => none

/-- Neither null nor a date, a time or a duration. -/
def Value.isPlain : Value → Bool
  | .null | .date _ | .dateTime _ | .duration _ _ _ => false
  | _ => true

/-- The constant has a value that the matcher compares as `=` does. -/
def PushesPlainly (params : HashMap String Value) (c : Expression) : Prop :=
  (constValue params c).any Value.isPlain = true

lemma valuesEqual_comm (v w : Value) : valuesEqual v w = valuesEqual w v := by
  cases v <;> cases w <;>
    simp [valuesEqual, F64.closeTo_comm, Bool.beq_eq_decide_eq, eq_comm]

/-- The matcher finds a plain value whenever the evaluator does. -/
lemma valuesEqual_eq_false {actual : PropertyValue} {w : Value} (hw : w.isPlain = true)
    (hactual : propertyValueMatches actual w = false) :
    valuesEqual (.ofProperty actual) w = false := by
  by_contra heq
  rw [Bool.not_eq_false] at heq
  have htemporal : actual.isTemporal = false := by
    cases actual <;> cases w <;>
      simp_all [PropertyValue.isTemporal, Value.isPlain, valuesEqual, Value.ofProperty]
  rw [propertyValueMatches_iff.mpr ⟨heq, htemporal⟩] at hactual
  exact absurd hactual (by decide)

section Pushdown

variable {σ : Type} [GraphBackend σ] {I : Interpretation σ} {x : Executor σ}
  {sub : Expression → Bindings → Except ExecuteError Value} {eqs : List PushedEquality}

/-! ## Doomed rows -/

variable (I x) in
/-- The equality is true of a row, as `WHERE` evaluates it. -/
def EqualityHolds (b : Bindings) (eq : PushedEquality) : Prop :=
  ∃ v w, evaluateProperty I x b eq.var eq.property = .ok v ∧
    constValue x.params eq.value = some w ∧ valuesEqual v w = true

variable (I x eqs) in
/-- A bound variable of the row fails an equality. -/
def Doomed (b : Bindings) : Prop :=
  ∃ eq ∈ eqs, (∃ value, b.lookup eq.var = some value) ∧ ¬ EqualityHolds I x b eq

/-- A row made from another one: what is bound stays, or a path takes its name. -/
def Grows (b b' : Bindings) : Prop :=
  ∀ name value, IsVisible name → b.lookup name = some value →
    b'.lookup name = some value ∨ ∃ nodes edges, b'.lookup name = some (.path nodes edges)

lemma not_equalityHolds_of_path {b : Bindings} {eq : PushedEquality} {nodes : List NodeId}
    {edges : List EdgeId} (hb : b.lookup eq.var = some (.path nodes edges)) :
    ¬ EqualityHolds I x b eq := by
  rintro ⟨v, w, hv, -⟩
  simp [evaluateProperty, hb] at hv

/-- What is made from a doomed row is doomed. -/
lemma Doomed.grows (hvisible : ∀ eq ∈ eqs, IsVisible eq.var) {b b' : Bindings}
    (hb : Doomed I x eqs b) (hgrows : Grows b b') : Doomed I x eqs b' := by
  obtain ⟨eq, hmem, ⟨value, hvalue⟩, hnot⟩ := hb
  rcases hgrows eq.var value (hvisible eq hmem) hvalue with hsame | ⟨nodes, edges, hpath⟩
  · refine ⟨eq, hmem, ⟨value, hsame⟩, fun hholds => hnot ?_⟩
    obtain ⟨v, w, hv, hw, heq⟩ := hholds
    refine ⟨v, w, ?_, hw, heq⟩
    rw [← hv]
    simp only [evaluateProperty, hvalue, hsame]
  · exact ⟨eq, hmem, ⟨_, hpath⟩, not_equalityHolds_of_path hpath⟩

/-- The constants of the equalities, as the evaluator sees them. -/
lemma evaluateWith_const {c : Expression} (hc : isPushableConst c = true) (b : Bindings) (v : Value) :
    evaluateWith I x sub c b = .ok v ↔ constValue x.params c = some v := by
  cases c with
  | literal lit => simp [evaluateWith, constValue]
  | parameter name =>
    simp only [evaluateWith, constValue]
    cases x.params.lookup name <;> simp
  | _ => cases hc

omit [GraphBackend σ] in
lemma applyBinaryOp_and_eq_true {v w : Value} (h : applyBinaryOp I v .and w = .ok (.bool true)) :
    v = .bool true ∧ w = .bool true := by
  simp only [applyBinaryOp] at h
  split at h
  · simpa using h
  · cases h

lemma evaluateWith_binaryOp {l r : Expression} {op : BinaryOp} {b : Bindings} {v : Value}
    (h : evaluateWith I x sub (.binaryOp l op r) b = .ok v) :
    ∃ vl vr, evaluateWith I x sub l b = .ok vl ∧ evaluateWith I x sub r b = .ok vr ∧
      applyBinaryOp I vl op vr = .ok v := by
  rw [evaluateWith] at h
  obtain ⟨vl, hl, h⟩ := Except.bind_eq_ok.mp h
  obtain ⟨vr, hr, h⟩ := Except.bind_eq_ok.mp h
  exact ⟨vl, vr, hl, hr, h⟩

/-- What is pushed is a constant. -/
lemma isPushableConst_of_mem_collect {condition : Expression} {eq : PushedEquality}
    (heq : eq ∈ collectPushableEqualities condition) : isPushableConst eq.value = true := by
  induction condition using collectPushableEqualities.induct with
  | case1 l r ihl ihr =>
    rw [collectPushableEqualities] at heq
    rcases List.mem_append.mp heq with hmem | hmem
    · exact ihl hmem
    · exact ihr hmem
  | case2 v p rhs hconst =>
    rw [collectPushableEqualities, if_pos hconst, List.mem_singleton] at heq
    rw [heq]
    exact hconst
  | case4 lhs v p hleft hconst =>
    rw [collectPushableEqualities, if_pos hconst, List.mem_singleton] at heq
    · rw [heq]
      exact hconst
    · exact hleft
  | _ => simp_all [collectPushableEqualities]

/-- A row that `WHERE` keeps satisfies all the equalities that are pushed. -/
lemma equalityHolds_of_where {condition : Expression} {b : Bindings} {eq : PushedEquality}
    (heq : eq ∈ collectPushableEqualities condition)
    (hkeep : evaluateWith I x sub condition b = .ok (.bool true)) : EqualityHolds I x b eq := by
  induction condition using collectPushableEqualities.induct with
  | case1 l r ihl ihr =>
    obtain ⟨vl, vr, hl, hr, hboth⟩ := evaluateWith_binaryOp hkeep
    obtain ⟨rfl, rfl⟩ := applyBinaryOp_and_eq_true hboth
    rw [collectPushableEqualities] at heq
    rcases List.mem_append.mp heq with hmem | hmem
    · exact ihl hmem hl
    · exact ihr hmem hr
  | case2 v p rhs hconst =>
    rw [collectPushableEqualities, if_pos hconst, List.mem_singleton] at heq
    subst heq
    obtain ⟨vl, vr, hl, hr, hequal⟩ := evaluateWith_binaryOp hkeep
    rw [evaluateWith] at hl
    refine ⟨vl, vr, hl, (evaluateWith_const hconst b vr).mp hr, ?_⟩
    simpa [applyBinaryOp] using hequal
  | case3 v p rhs hconst =>
    rw [collectPushableEqualities, if_neg hconst] at heq
    cases heq
  | case4 lhs v p hleft hconst =>
    rw [collectPushableEqualities, if_pos hconst, List.mem_singleton] at heq
    · subst heq
      obtain ⟨vl, vr, hl, hr, hequal⟩ := evaluateWith_binaryOp hkeep
      rw [evaluateWith] at hr
      refine ⟨vr, vl, hr, (evaluateWith_const hconst b vl).mp hl, ?_⟩
      rw [valuesEqual_comm]
      simpa [applyBinaryOp] using hequal
    · exact hleft
  | case5 lhs v p hleft hconst =>
    rw [collectPushableEqualities, if_neg hconst] at heq
    · cases heq
    · exact hleft
  | case6 l r hleft hright =>
    simp [collectPushableEqualities] at heq
  | case7 condition hand heq' =>
    simp [collectPushableEqualities] at heq

/-! ## Nodes -/

@[simp] lemma augmentNodePattern_var (eqs : List PushedEquality) (p : NodePattern Expression) :
    (augmentNodePattern eqs p).var = p.var := by
  unfold augmentNodePattern
  split <;> rfl

@[simp] lemma augmentNodePattern_labels (eqs : List PushedEquality) (p : NodePattern Expression) :
    (augmentNodePattern eqs p).labels = p.labels := by
  unfold augmentNodePattern
  split <;> rfl

/-- The pushed equalities come after the inline properties. -/
lemma augmentNodePattern_properties (eqs : List PushedEquality) (p : NodePattern Expression) :
    ∃ pushed, (augmentNodePattern eqs p).properties = p.properties ++ pushed ∧
      ∀ e ∈ pushed, ∃ eq ∈ eqs, p.var = some eq.var ∧ e = (eq.property, eq.value) := by
  unfold augmentNodePattern
  cases hvar : p.var with
  | none => exact ⟨[], (List.append_nil _).symm, by simp⟩
  | some var =>
    simp only
    induction eqs using List.reverseRecOn with
    | nil => exact ⟨[], (List.append_nil _).symm, by simp⟩
    | append_singleton eqs eq ih =>
      obtain ⟨pushed, hpushed, hall⟩ := ih
      rw [List.foldl_append, hpushed, List.foldl_cons, List.foldl_nil]
      have hweaken : ∀ e ∈ pushed, ∃ eq' ∈ eqs ++ [eq], some var = some eq'.var ∧
          e = (eq'.property, eq'.value) := by
        intro e he
        obtain ⟨eq', hmem, h⟩ := hall e he
        exact ⟨eq', List.mem_append_left _ hmem, h⟩
      split
      · rename_i hpush
        refine ⟨pushed ++ [(eq.property, eq.value)], (List.append_assoc _ _ _), ?_⟩
        rw [List.forall_mem_append]
        refine ⟨hweaken, ?_⟩
        rw [List.forall_mem_singleton]
        exact ⟨eq, List.mem_append_right _ (List.mem_singleton_self eq), by rw [hpush.1], rfl⟩
      · exact ⟨pushed, rfl, hweaken⟩

variable {ev : Evaluator}

variable (x ev eqs) in
/-- A pushed equality rejects the node. -/
def Rejects (p : NodePattern Expression) (b : Bindings) (id : NodeId) : Prop :=
  ∃ eq ∈ eqs, p.var = some eq.var ∧ nodeHasProperty x ev id b (eq.property, eq.value) = .ok false

/-- The equalities compare with plain constants, which the evaluator knows. -/
structure PlainEqualities (x : Executor σ) (ev : Evaluator) (eqs : List PushedEquality) : Prop where
  plain : ∀ eq ∈ eqs, PushesPlainly x.params eq.value
  evaluates : ∀ b c w, constValue x.params c = some w → ev b c = .ok w
  visible : ∀ eq ∈ eqs, IsVisible eq.var
  reads : GraphBackend.NodeReads x.graph

lemma PlainEqualities.value (h : PlainEqualities x ev eqs) {eq : PushedEquality} (hmem : eq ∈ eqs) :
    ∃ w, constValue x.params eq.value = some w ∧ w.isPlain = true := by
  have hplain := h.plain eq hmem
  unfold PushesPlainly at hplain
  rwa [Option.any_eq_true] at hplain

/-- Testing a pushed equality never fails. -/
lemma PlainEqualities.nodeHasProperty (h : PlainEqualities x ev eqs) {eq : PushedEquality}
    (hmem : eq ∈ eqs) (id : NodeId) (b : Bindings) :
    ∃ ok, nodeHasProperty x ev id b (eq.property, eq.value) = .ok ok := by
  obtain ⟨w, hw, -⟩ := h.value hmem
  unfold Maharit.nodeHasProperty
  simp only
  cases GraphBackend.getNodeProperty x.graph id eq.property with
  | none => exact ⟨false, rfl⟩
  | some actual => exact ⟨_, by rw [h.evaluates b _ w hw]; rfl⟩

/-- An equality that rejects a node is false of the rows where the variable is bound to it. -/
lemma PlainEqualities.not_equalityHolds (h : PlainEqualities x ev eqs) {eq : PushedEquality}
    (hmem : eq ∈ eqs) {id : NodeId} {b b' : Bindings} (hb' : b'.lookup eq.var = some (.node id))
    (hreject : Maharit.nodeHasProperty x ev id b (eq.property, eq.value) = .ok false) :
    ¬ EqualityHolds I x b' eq := by
  rintro ⟨v, w, hv, hw, hequal⟩
  obtain ⟨w', hw', hplain⟩ := h.value hmem
  obtain rfl : w' = w := Option.some.inj (hw'.symm.trans hw)
  simp only [evaluateProperty, hb'] at hv
  simp only [Maharit.nodeHasProperty, h.reads.getNodeProperty] at hreject
  cases hnode : GraphBackend.getNode x.graph id with
  | none =>
    rw [hnode] at hv
    cases hv
  | some n =>
    rw [hnode] at hv
    simp only [hnode, Option.bind_some] at hreject
    obtain rfl : propertyOrNull (n.getProperty eq.property) = v := Except.ok.inj hv
    cases hprop : n.getProperty eq.property with
    | none =>
      rw [hprop] at hequal
      have hnull : valuesEqual .null w' = true := hequal
      cases w' <;> simp_all [valuesEqual, Value.isPlain]
    | some actual =>
      rw [hprop] at hequal hreject
      simp only [h.evaluates b _ w' hw', Except.map, Except.ok.injEq] at hreject
      have hfalse : valuesEqual (.ofProperty actual) w' = false := valuesEqual_eq_false hplain hreject
      have htrue : valuesEqual (.ofProperty actual) w' = true := hequal
      rw [hfalse] at htrue
      cases htrue

/-- The pattern with the equalities pushed into it matches the same nodes, but for those that an
equality rejects. -/
lemma PlainEqualities.nodeMatches (h : PlainEqualities x ev eqs) {p : NodePattern Expression}
    {b : Bindings} {id : NodeId} {ok : Bool} (hok : nodeMatchesPattern x ev id p b = .ok ok) :
    ∃ ok', nodeMatchesPattern x ev id (augmentNodePattern eqs p) b = .ok ok' ∧
      (ok' = true → ok = true) ∧ (ok = true → ok' = false → Rejects x eqs ev p b id) := by
  obtain ⟨pushed, hpushed, hfrom⟩ := augmentNodePattern_properties eqs p
  have htotal : ∀ e ∈ pushed, ∃ ok, Maharit.nodeHasProperty x ev id b e = .ok ok := by
    intro e he
    obtain ⟨eq, hmem, -, rfl⟩ := hfrom e he
    exact h.nodeHasProperty hmem id b
  unfold nodeMatchesPattern at hok ⊢
  rw [augmentNodePattern_var, augmentNodePattern_labels, hpushed]
  split at hok
  · rename_i hbound
    exact ⟨false, by rw [if_pos hbound], by simp, by simp_all⟩
  rename_i hbound
  rw [if_neg hbound]
  split at hok
  · rename_i hlabels
    exact ⟨false, by rw [if_pos hlabels], by simp, by simp_all⟩
  rename_i hlabels
  rw [if_neg hlabels]
  split at hok
  · -- The node is not there, so it has none of the pushed properties either.
    rename_i hmissing
    obtain rfl : ok = false := (Except.ok.inj hok).symm
    have hprops : p.properties = [] := List.isEmpty_iff.mp hmissing.2.1
    refine ⟨false, ?_, by simp, by simp⟩
    rw [hprops, List.nil_append]
    split
    · rfl
    rename_i hpresent
    rcases Except.allM_of_total htotal with htrue | ⟨hfalse, -⟩
    · cases pushed with
      | nil => exact absurd ⟨hmissing.1, rfl, hmissing.2.2⟩ hpresent
      | cons e pushed =>
        obtain ⟨actual, expected, hget, -⟩ :=
          nodeHasProperty_eq_true.mp (Except.allM_eq_true.mp htrue e List.mem_cons_self)
        rw [h.reads.getNodeProperty] at hget
        obtain ⟨n, hn, -⟩ := Option.bind_eq_some_iff.mp hget
        have hcontains := h.reads.containsNode id n hn
        rw [hcontains] at hmissing
        exact absurd hmissing.2.2 (by simp)
    · exact hfalse
  rename_i hpresent
  rw [if_neg fun hcond => hpresent ⟨hcond.1, by
    rw [List.isEmpty_iff, List.append_eq_nil_iff] at hcond
    exact List.isEmpty_iff.mpr hcond.2.1.1, hcond.2.2⟩]
  rw [Except.allM_append, hok]
  cases ok with
  | false => exact ⟨false, rfl, by simp, by simp⟩
  | true =>
    rcases Except.allM_of_total htotal with htrue | ⟨hfalse, e, he, hno⟩
    · exact ⟨true, htrue, by simp, by simp⟩
    · obtain ⟨eq, hmem, hvar, rfl⟩ := hfrom e he
      exact ⟨false, hfalse, by simp, fun _ _ => ⟨eq, hmem, hvar, hno⟩⟩

/-! ## Rows -/

lemma Grows.refl (b : Bindings) : Grows b b := fun _ _ _ hb => Or.inl hb

lemma Grows.trans {b b' b'' : Bindings} (h : Grows b b') (h' : Grows b' b'') : Grows b b'' := by
  intro name value hname hb
  rcases h name value hname hb with hsame | ⟨nodes, edges, hpath⟩
  · exact h' name value hname hsame
  · rcases h' name _ hname hpath with hsame | hother
    · exact Or.inr ⟨nodes, edges, hsame⟩
    · exact Or.inr hother

/-- A variable is only bound to what it denotes already. -/
lemma grows_bindVar {b : Bindings} {var : Option String} {value : BindingValue}
    (hvar : Denotes b var value) : Grows b (bindVar b var value) := by
  intro name value' hname hb
  rw [lookup_bindVar]
  split
  · rename_i heq
    subst heq
    exact Or.inl (by rw [hvar value' (by simpa using hb)])
  · exact Or.inl hb

lemma grows_bindVar_path (b : Bindings) (var : Option String) (nodes : List NodeId)
    (edges : List EdgeId) : Grows b (bindVar b var (.path nodes edges)) := by
  intro name value hname hb
  rw [lookup_bindVar]
  split
  · exact Or.inr ⟨nodes, edges, rfl⟩
  · exact Or.inl hb

lemma grows_dropHidden (b : Bindings) : Grows b (dropHidden b) := by
  intro name value hname hb
  rw [lookup_dropHidden b hname]
  exact Or.inl hb

lemma denotes_of_nodeMatches {p : NodePattern Expression} {b : Bindings} {id : NodeId}
    (h : nodeMatchesPattern x ev id p b = .ok true) : Denotes b p.var (.node id) := by
  rw [denotes_node]
  by_contra hbound
  rw [Bool.not_eq_false] at hbound
  rw [nodeMatchesPattern, if_pos hbound] at h
  cases h

/-- A row is doomed when the variable of a rejected node is bound to that node, or taken by a path. -/
lemma PlainEqualities.doomed (h : PlainEqualities x ev eqs) {p : NodePattern Expression}
    {b b' : Bindings} {id : NodeId} (hreject : Rejects x eqs ev p b id)
    (hb' : ∀ eq ∈ eqs, p.var = some eq.var → b'.lookup eq.var = some (.node id) ∨
      ∃ nodes edges, b'.lookup eq.var = some (.path nodes edges)) : Doomed I x eqs b' := by
  obtain ⟨eq, hmem, hvar, hno⟩ := hreject
  rcases hb' eq hmem hvar with hnode | ⟨nodes, edges, hpath⟩
  · exact ⟨eq, hmem, ⟨_, hnode⟩, h.not_equalityHolds hmem hnode hno⟩
  · exact ⟨eq, hmem, ⟨_, hpath⟩, not_equalityHolds_of_path hpath⟩

/-! ## Node patterns -/

variable (x) in
/-- No property has an index. -/
def NoIndex : Prop := ∀ label property, x.propertyIndex.hasIndex label property = false

omit [GraphBackend σ] in
lemma noIndex_of_hasAnyIndex (h : x.propertyIndex.hasAnyIndex = false) : NoIndex x := by
  intro label property
  have hkeys : x.propertyIndex.definitions.keys = [] := by
    simpa [PropertyIndex.hasAnyIndex] using h
  refine decide_eq_false fun hmem => ?_
  rw [AList.mem_keys, hkeys] at hmem
  cases hmem

/-- Without an index, the pushed equalities do not change which nodes are tried. -/
lemma nodeCandidates_augment (hx : NoIndex x) (p : NodePattern Expression) :
    nodeCandidates x (augmentNodePattern eqs p) = nodeCandidates x p := by
  have hlookup : ∀ p : NodePattern Expression, indexLookup x p = none := by
    intro p
    unfold indexLookup
    split
    · rfl
    · refine List.findSome?_eq_none_iff.mpr fun property _ => ?_
      split
      · rw [hx, if_neg (by simp)]
      · rfl
  simp only [nodeCandidates, hlookup, Option.getD_none, scanCandidates, rangeIndexCandidates,
    augmentNodePattern_var, augmentNodePattern_labels]

lemma grows_matchNode {p : NodePattern Expression} {b : Bindings} {r : List Bindings}
    (hr : matchNode x ev p b = .ok r) : ∀ b' ∈ r, Grows b b' := by
  unfold matchNode at hr
  cases hbound : p.var.bind b.lookup with
  | some bound =>
    simp only [hbound] at hr
    have hself : ∀ b' ∈ r, b' = b := by
      cases hnode : bound.asNode with
      | none =>
        simp only [hnode, Except.ok.injEq] at hr
        simp [← hr]
      | some id =>
        simp only [hnode] at hr
        obtain ⟨ok, -, rfl⟩ := Except.map_eq_ok.mp hr
        intro b' hb'
        split at hb'
        · exact List.mem_singleton.mp hb'
        · cases hb'
    intro b' hb'
    rw [hself b' hb']
    exact Grows.refl b
  | none =>
    simp only [hbound] at hr
    obtain ⟨ids, -, rfl⟩ := Except.map_eq_ok.mp hr
    intro b' hb'
    obtain ⟨id, -, rfl⟩ := List.mem_map.mp hb'
    exact grows_bindVar (by simp [Denotes, hbound])

/-- Node patterns agree, up to doomed rows. -/
lemma PlainEqualities.matchNode (h : PlainEqualities x ev eqs) (hx : NoIndex x)
    (p : NodePattern Expression) (b : Bindings) :
    Pruned.Agree (Doomed I x eqs) (matchNode x ev p b) (matchNode x ev (augmentNodePattern eqs p) b) := by
  unfold Maharit.matchNode
  rw [augmentNodePattern_var, nodeCandidates_augment hx]
  cases hbound : p.var.bind b.lookup with
  | some bound =>
    simp only
    cases hnode : bound.asNode with
    | none => exact Pruned.Agree.refl _
    | some id =>
      intro r hr
      obtain ⟨ok, hok, rfl⟩ := Except.map_eq_ok.mp hr
      obtain ⟨ok', hok', himp, hreject⟩ := h.nodeMatches hok
      refine ⟨_, Except.map_eq_ok.mpr ⟨ok', hok', rfl⟩, ?_⟩
      cases ok' with
      | true =>
        rw [himp rfl]
        exact Pruned.refl _
      | false =>
        cases ok with
        | false => exact Pruned.refl _
        | true =>
          refine Pruned.dropAll (List.forall_mem_singleton.mpr (h.doomed (hreject rfl rfl) ?_))
          intro eq _ hvar
          rw [hvar, Option.bind_some] at hbound
          rw [hbound]
          cases bound with
          | node id' =>
            obtain rfl : id' = id := by simpa [BindingValue.asNode] using hnode
            exact Or.inl rfl
          | _ => cases hnode
  | none =>
    refine Pruned.Agree.map (D := Rejects x eqs ev p b)
      (Pruned.Agree.keep (fun id ok hok => h.nodeMatches hok) _) ?_
    intro id hreject
    refine h.doomed hreject fun eq _ hvar => Or.inl ?_
    rw [lookup_bindVar, if_pos hvar]

/-! ## Hops -/

/-- The hop with the equalities pushed into its end node. -/
def augmentHop (eqs : List PushedEquality) (segment : PathSegment Expression) :
    PathSegment Expression :=
  { segment with node := augmentNodePattern eqs segment.node }

/-- The relationship of a single hop does not take the name of its end node, when that name is
compared. -/
def NamedApart (eqs : List PushedEquality) (segment : PathSegment Expression) : Prop :=
  ∀ eq ∈ eqs, segment.node.var = some eq.var → segment.edge.var ≠ some eq.var

lemma grows_matchHop {segment : PathSegment Expression} {b : Bindings} {prev : NodeId} {e : Edge}
    {r : List Bindings} (hr : matchHop x ev segment b prev e = .ok r) : ∀ b' ∈ r, Grows b b' := by
  unfold matchHop at hr
  split at hr
  · rename_i hedge
    obtain ⟨ok, hok, rfl⟩ := Except.map_eq_ok.mp hr
    intro b' hb'
    cases ok with
    | false => cases hb'
    | true =>
      rw [List.mem_singleton.mp hb']
      intro name value hname hb
      rw [lookup_bindVar, lookup_bindVar]
      split
      · -- A relationship variable that is bound was compared with this relationship.
        rename_i hvar
        left
        simp only [edgeMatches, hvar, Option.bind_some, hb, Bool.and_eq_true, Option.all_some] at hedge
        cases value with
        | edge id =>
          have hid : id = e.id := by simpa using hedge.2
          rw [hid]
        | _ => exact absurd hedge.2 (by simp)
      · have hnode := grows_bindVar (denotes_of_nodeMatches hok) name value hname hb
        rwa [lookup_bindVar] at hnode
  · obtain rfl : [] = r := Except.ok.inj hr
    simp

/-- Single hops agree, up to doomed rows. -/
lemma PlainEqualities.matchHop (h : PlainEqualities x ev eqs) {segment : PathSegment Expression}
    (hapart : NamedApart eqs segment) (b : Bindings) (prev : NodeId) (e : Edge) :
    Pruned.Agree (Doomed I x eqs) (matchHop x ev segment b prev e)
      (matchHop x ev (augmentHop eqs segment) b prev e) := by
  unfold Maharit.matchHop
  simp only [augmentHop, augmentNodePattern_var]
  split
  · intro r hr
    obtain ⟨ok, hok, rfl⟩ := Except.map_eq_ok.mp hr
    obtain ⟨ok', hok', himp, hreject⟩ := h.nodeMatches hok
    refine ⟨_, Except.map_eq_ok.mpr ⟨ok', hok', rfl⟩, ?_⟩
    cases ok' with
    | true =>
      rw [himp rfl]
      exact Pruned.refl _
    | false =>
      cases ok with
      | false => exact Pruned.refl _
      | true =>
        refine Pruned.dropAll (List.forall_mem_singleton.mpr (h.doomed (hreject rfl rfl) ?_))
        intro eq hmem hvar
        rw [lookup_bindVar, if_neg (hapart eq hmem hvar), lookup_bindVar, if_pos hvar]
        exact Or.inl rfl
  · exact Pruned.Agree.refl _

lemma grows_matchSingleHop {segment : PathSegment Expression} {prev : NodePattern Expression}
    {b : Bindings} {r : List Bindings} (hr : matchSingleHop x ev segment prev b = .ok r) :
    ∀ b' ∈ r, Grows b b' := by
  unfold matchSingleHop at hr
  split at hr
  · cases hr
  split at hr
  · cases hr
  obtain ⟨found, hfound, rfl⟩ := Except.collect_eq_ok.mp hr
  intro b' hb'
  obtain ⟨e, he, hb'⟩ := List.mem_flatMap.mp hb'
  exact grows_matchHop (hfound e he) b' hb'

lemma PlainEqualities.matchSingleHop (h : PlainEqualities x ev eqs)
    {segment : PathSegment Expression} (hapart : NamedApart eqs segment)
    (prev : NodePattern Expression) (b : Bindings) :
    Pruned.Agree (Doomed I x eqs) (matchSingleHop x ev segment prev b)
      (matchSingleHop x ev (augmentHop eqs segment) (augmentNodePattern eqs prev) b) := by
  unfold Maharit.matchSingleHop
  rw [augmentNodePattern_var]
  split
  · exact Pruned.Agree.refl _
  split
  · exact Pruned.Agree.refl _
  exact Pruned.Agree.collect (fun e => h.matchHop hapart b _ e) _

/-! ## Longer hops -/

lemma grows_bindFound {segment : PathSegment Expression} {b : Bindings} {path : FoundPath}
    (hstop : endMatches x.graph ev segment b path.stop = .ok true) :
    Grows b (bindFound segment b path) :=
  (grows_bindVar (denotes_of_nodeMatches (x := .bare x.graph) hstop)).trans
    (grows_bindVar_path _ _ _ _)

/-- A path to a rejected node makes a doomed row. -/
lemma PlainEqualities.doomed_bindFound (h : PlainEqualities x ev eqs)
    {segment : PathSegment Expression} {b : Bindings} {path : FoundPath}
    (hreject : Rejects x eqs ev segment.node b path.stop) :
    Doomed I x eqs (bindFound segment b path) := by
  refine h.doomed hreject fun eq _ hvar => ?_
  unfold bindFound
  rw [lookup_bindVar]
  split
  · exact Or.inr ⟨_, _, rfl⟩
  · rw [lookup_bindVar, if_pos hvar]
    exact Or.inl rfl

lemma PlainEqualities.endMatches (h : PlainEqualities x ev eqs) {segment : PathSegment Expression}
    {b : Bindings} {id : NodeId} {ok : Bool} (hok : endMatches x.graph ev segment b id = .ok ok) :
    ∃ ok', endMatches x.graph ev (augmentHop eqs segment) b id = .ok ok' ∧
      (ok' = true → ok = true) ∧ (ok = true → ok' = false → Rejects x eqs ev segment.node b id) :=
  h.nodeMatches hok

lemma endMatches_of_tryPath {g : σ} {segment : PathSegment Expression} {b : Bindings} {min depth : ℕ}
    {path : FoundPath} {r : List FoundPath} (hr : tryPath g ev segment b min depth path = .ok r) :
    ∀ found ∈ r, Maharit.endMatches g ev segment b found.stop = .ok true := by
  unfold tryPath at hr
  split at hr
  · obtain ⟨ok, hok, rfl⟩ := Except.map_eq_ok.mp hr
    intro found hfound
    cases ok with
    | false => cases hfound
    | true =>
      rw [List.mem_singleton.mp hfound]
      exact hok
  · obtain rfl : [] = r := Except.ok.inj hr
    simp

/-- The end nodes that a variable-length hop finds match their pattern. -/
lemma endMatches_of_explore {g : σ} {segment : PathSegment Expression} {b : Bindings} {min : ℕ}
    {left depth : ℕ} {path : FoundPath} {r : List FoundPath}
    (hr : explore g ev segment b min left depth path = .ok r) :
    ∀ found ∈ r, Maharit.endMatches g ev segment b found.stop = .ok true := by
  induction left generalizing depth path r with
  | zero =>
    rw [explore] at hr
    exact endMatches_of_tryPath hr
  | succ left ih =>
    rw [explore] at hr
    obtain ⟨here, hhere, hr⟩ := Except.bind_eq_ok.mp hr
    obtain ⟨rest, hrest, rfl⟩ := Except.map_eq_ok.mp hr
    obtain ⟨found, hfound, rfl⟩ := Except.collect_eq_ok.mp hrest
    rw [List.forall_mem_append]
    refine ⟨endMatches_of_tryPath hhere, fun path' hpath' => ?_⟩
    obtain ⟨child, hchild, hpath'⟩ := List.mem_flatMap.mp hpath'
    exact ih (hfound child hchild) path' hpath'

lemma PlainEqualities.tryPath (h : PlainEqualities x ev eqs) (segment : PathSegment Expression)
    (b : Bindings) (min depth : ℕ) (path : FoundPath) :
    Pruned.Agree (fun found => Rejects x eqs ev segment.node b found.stop)
      (tryPath x.graph ev segment b min depth path)
      (tryPath x.graph ev (augmentHop eqs segment) b min depth path) := by
  unfold Maharit.tryPath
  split
  · intro r hr
    obtain ⟨ok, hok, rfl⟩ := Except.map_eq_ok.mp hr
    obtain ⟨ok', hok', himp, hreject⟩ := h.endMatches hok
    refine ⟨_, Except.map_eq_ok.mpr ⟨ok', hok', rfl⟩, ?_⟩
    cases ok' with
    | true =>
      rw [himp rfl]
      exact Pruned.refl _
    | false =>
      cases ok with
      | false => exact Pruned.refl _
      | true => exact Pruned.dropAll (List.forall_mem_singleton.mpr (hreject rfl rfl))
  · exact Pruned.Agree.refl _

/-- The depth-first search agrees, up to paths to rejected nodes. -/
lemma PlainEqualities.explore (h : PlainEqualities x ev eqs) (segment : PathSegment Expression)
    (b : Bindings) (min left depth : ℕ) (path : FoundPath) :
    Pruned.Agree (fun found => Rejects x eqs ev segment.node b found.stop)
      (explore x.graph ev segment b min left depth path)
      (explore x.graph ev (augmentHop eqs segment) b min left depth path) := by
  induction left generalizing depth path with
  | zero =>
    rw [Maharit.explore, Maharit.explore]
    exact h.tryPath segment b min depth path
  | succ left ih =>
    rw [Maharit.explore, Maharit.explore]
    have hchildren : path.children x.graph (augmentHop eqs segment) = path.children x.graph segment :=
      rfl
    rw [hchildren]
    exact (h.tryPath segment b min depth path).append
      (Pruned.Agree.collect (fun child => ih (depth + 1) child) _)

lemma hopStart_augment (prev : NodePattern Expression) (b : Bindings) :
    hopStart (augmentNodePattern eqs prev) b = hopStart prev b := by
  unfold hopStart
  rw [augmentNodePattern_var]

lemma bindFound_augment (segment : PathSegment Expression) (b : Bindings) :
    bindFound (augmentHop eqs segment) b = bindFound segment b := by
  funext path
  simp only [bindFound, augmentHop, augmentNodePattern_var]

/-- Variable-length hops agree, up to doomed rows. -/
lemma PlainEqualities.matchVariableLength (h : PlainEqualities x ev eqs)
    (segment : PathSegment Expression) (prev : NodePattern Expression) (range : LengthRange)
    (b : Bindings) :
    Pruned.Agree (Doomed I x eqs) (matchVariableLength x.graph ev segment prev range b)
      (matchVariableLength x.graph ev (augmentHop eqs segment) (augmentNodePattern eqs prev) range b) := by
  unfold Maharit.matchVariableLength
  rw [hopStart_augment, bindFound_augment]
  intro r hr
  obtain ⟨start, hok, hr⟩ := Except.bind_eq_ok.mp hr
  rw [hok]
  exact (h.explore segment b _ _ _ _).map (fun path hreject => h.doomed_bindFound hreject) r hr

lemma grows_matchVariableLength {segment : PathSegment Expression} {prev : NodePattern Expression}
    {range : LengthRange} {b : Bindings} {r : List Bindings}
    (hr : matchVariableLength x.graph ev segment prev range b = .ok r) : ∀ b' ∈ r, Grows b b' := by
  obtain ⟨start, -, hr⟩ := Except.bind_eq_ok.mp hr
  obtain ⟨paths, hpaths, rfl⟩ := Except.map_eq_ok.mp hr
  intro b' hb'
  obtain ⟨path, hpath, rfl⟩ := List.mem_map.mp hb'
  exact grows_bindFound (endMatches_of_explore hpaths path hpath)

/-- The breadth-first search agrees, up to rejected nodes; the predecessors are the same. -/
lemma PlainEqualities.searchLayers (h : PlainEqualities x ev eqs) {segment : PathSegment Expression}
    {kind : ShortestPathKind} {b : Bindings} {min : ℕ} {max : Option ℕ} {boundEnd : Option NodeId}
    {fuel : ℕ} {s : Layer} {r : List NodeId × Predecessors}
    (hr : searchLayers x.graph ev segment kind b min max boundEnd fuel s = .ok r) :
    ∃ ids, searchLayers x.graph ev (augmentHop eqs segment) kind b min max boundEnd fuel s =
        .ok (ids, r.2) ∧ Pruned (Rejects x eqs ev segment.node b) r.1 ids := by
  have hkeep : ∀ s : Layer, Pruned.Agree (Rejects x eqs ev segment.node b)
      (if min ≤ s.depth then Except.keep (Maharit.endMatches x.graph ev segment b) s.frontier else .ok [])
      (if min ≤ s.depth then Except.keep (Maharit.endMatches x.graph ev (augmentHop eqs segment) b)
        s.frontier else .ok []) := by
    intro s
    split
    · exact Pruned.Agree.keep (fun id ok hok => h.endMatches hok) _
    · exact Pruned.Agree.refl _
  induction fuel generalizing s r with
  | zero =>
    rw [Maharit.searchLayers] at hr ⊢
    obtain rfl := Except.ok.inj hr
    exact ⟨[], rfl, .nil⟩
  | succ fuel ih =>
    rw [Maharit.searchLayers] at hr ⊢
    split at hr
    · rename_i hempty
      obtain rfl := Except.ok.inj hr
      exact ⟨[], by rw [if_pos hempty], .nil⟩
    rename_i hempty
    rw [if_neg hempty]
    obtain ⟨here, hhere, hr⟩ := Except.bind_eq_ok.mp hr
    obtain ⟨here', hhere', hpruned⟩ := hkeep s here hhere
    rw [hhere']
    split at hr
    · rename_i hend
      obtain rfl := Except.ok.inj hr
      exact ⟨here', by rw [Except.bind, if_pos hend], hpruned⟩
    · rename_i hend
      obtain ⟨rest, hrest, rfl⟩ := Except.map_eq_ok.mp hr
      obtain ⟨ids, hids, hpruned'⟩ := ih hrest
      refine ⟨here' ++ ids, ?_, hpruned.append hpruned'⟩
      rw [Except.bind, if_neg hend]
      exact Except.map_eq_ok.mpr ⟨_, hids, rfl⟩

lemma endMatches_of_searchLayers {g : σ} {segment : PathSegment Expression}
    {kind : ShortestPathKind} {b : Bindings} {min : ℕ} {max : Option ℕ} {boundEnd : Option NodeId}
    {fuel : ℕ} {s : Layer} {r : List NodeId × Predecessors}
    (hr : searchLayers g ev segment kind b min max boundEnd fuel s = .ok r) :
    ∀ id ∈ r.1, Maharit.endMatches g ev segment b id = .ok true := by
  induction fuel generalizing s r with
  | zero =>
    rw [searchLayers] at hr
    obtain rfl := Except.ok.inj hr
    simp
  | succ fuel ih =>
    rw [searchLayers] at hr
    split at hr
    · obtain rfl := Except.ok.inj hr
      simp
    obtain ⟨here, hhere, hr⟩ := Except.bind_eq_ok.mp hr
    have hkept : ∀ id ∈ here, Maharit.endMatches g ev segment b id = .ok true := by
      split at hhere
      · obtain ⟨p, hp, rfl⟩ := Except.keep_eq_ok.mp hhere
        intro id hid
        rw [List.mem_filter] at hid
        rw [hp id hid.1, hid.2]
      · obtain rfl : [] = here := Except.ok.inj hhere
        simp
    split at hr
    · obtain rfl := Except.ok.inj hr
      exact hkept
    · obtain ⟨rest, hrest, rfl⟩ := Except.map_eq_ok.mp hr
      rw [List.forall_mem_append]
      exact ⟨hkept, ih hrest⟩

/-- The paths to a node end there. -/
lemma stop_of_shortestPathsTo {preds : Predecessors} {start stop : NodeId} {kind : ShortestPathKind}
    {path : FoundPath} (h : path ∈ shortestPathsTo preds start stop kind) : path.stop = stop := by
  have hmem : path ∈ (backwards preds start preds.keys.length [stop] []).map fun p =>
      (⟨stop, p.1, p.2⟩ : FoundPath) := by
    unfold shortestPathsTo at h
    cases kind with
    | single => exact List.mem_of_mem_take h
    | all => exact h
  obtain ⟨p, -, rfl⟩ := List.mem_map.mp hmem
  rfl

/-- Shortest-path hops agree, up to doomed rows. -/
lemma PlainEqualities.matchShortest (h : PlainEqualities x ev eqs) (segment : PathSegment Expression)
    (prev : NodePattern Expression) (kind : ShortestPathKind) (min : ℕ) (max : Option ℕ)
    (b : Bindings) :
    Pruned.Agree (Doomed I x eqs) (matchShortest x.graph ev segment prev kind min max b)
      (matchShortest x.graph ev (augmentHop eqs segment) (augmentNodePattern eqs prev) kind min max b) := by
  unfold Maharit.matchShortest
  rw [hopStart_augment, bindFound_augment]
  have hbound : (augmentHop eqs segment).node.var = segment.node.var :=
    augmentNodePattern_var eqs segment.node
  rw [hbound]
  intro r hr
  obtain ⟨start, hok, hr⟩ := Except.bind_eq_ok.mp hr
  obtain ⟨found, hfound, rfl⟩ := Except.map_eq_ok.mp hr
  obtain ⟨ids, hids, hpruned⟩ := h.searchLayers hfound
  rw [hok]
  refine ⟨_, Except.map_eq_ok.mpr ⟨_, hids, rfl⟩, hpruned.flatMap fun id hreject b' hb' => ?_⟩
  obtain ⟨path, hpath, rfl⟩ := List.mem_map.mp hb'
  rw [← stop_of_shortestPathsTo hpath] at hreject
  exact h.doomed_bindFound hreject

lemma grows_matchShortest {segment : PathSegment Expression} {prev : NodePattern Expression}
    {kind : ShortestPathKind} {min : ℕ} {max : Option ℕ} {b : Bindings} {r : List Bindings}
    (hr : matchShortest x.graph ev segment prev kind min max b = .ok r) : ∀ b' ∈ r, Grows b b' := by
  obtain ⟨start, -, hr⟩ := Except.bind_eq_ok.mp hr
  obtain ⟨found, hfound, rfl⟩ := Except.map_eq_ok.mp hr
  intro b' hb'
  obtain ⟨id, hid, hb'⟩ := List.mem_flatMap.mp hb'
  obtain ⟨path, hpath, rfl⟩ := List.mem_map.mp hb'
  have hstop := endMatches_of_searchLayers hfound id hid
  rw [← stop_of_shortestPathsTo hpath] at hstop
  exact grows_bindFound hstop

/-! ## Paths -/

/-- The path with the equalities pushed into its nodes. -/
def augmentPath (eqs : List PushedEquality) (p : PathPattern Expression) : PathPattern Expression :=
  { p with
    start := augmentNodePattern eqs p.start
    segments := p.segments.map (augmentHop eqs) }

/-- The single hops of a path give their relationships and end nodes different names. -/
def HopsApart (eqs : List PushedEquality) (shortest : Option ShortestPathKind)
    (segments : List (PathSegment Expression)) : Prop :=
  shortest = none → ∀ segment ∈ segments, segment.edge.lengthRange = none → NamedApart eqs segment

/-- A loop over rows whose results only grow agrees from pruned rows too. -/
lemma PlainEqualities.collect (h : PlainEqualities x ev eqs)
    {f f' : Bindings → Except ExecuteError (List Bindings)}
    (hf : ∀ b, Pruned.Agree (Doomed I x eqs) (f b) (f' b))
    (hgrows : ∀ b r, f b = .ok r → ∀ b' ∈ r, Grows b b') :
    Pruned.AgreeFrom (Doomed I x eqs) (Doomed I x eqs) (Except.collect f) (Except.collect f') :=
  Pruned.AgreeFrom.collect hf fun b r hb hr b' hb' => hb.grows h.visible (hgrows b r hr b' hb')

variable (x ev) in
/-- A hop of any kind. -/
def matchAnyHop (shortest : Option ShortestPathKind) (segment : PathSegment Expression)
    (prev : NodePattern Expression) (bs : List Bindings) : Except ExecuteError (List Bindings) :=
  match shortest with
  | some kind => matchShortestSegment x.graph ev segment prev kind bs
  | none => matchSegment .standard x ev segment prev bs

lemma matchSegments_cons (shortest : Option ShortestPathKind) (segment : PathSegment Expression)
    (segments : List (PathSegment Expression)) (prev : NodePattern Expression) :
    matchSegments .standard x ev shortest (segment :: segments) prev = fun bs =>
      (matchAnyHop x ev shortest segment prev bs).bind
        (matchSegments .standard x ev shortest segments segment.node) := by
  cases shortest <;> rfl

lemma PlainEqualities.matchAnyHop (h : PlainEqualities x ev eqs) {shortest : Option ShortestPathKind}
    {segment : PathSegment Expression} (hapart : HopsApart eqs shortest [segment])
    (prev : NodePattern Expression) :
    Pruned.AgreeFrom (Doomed I x eqs) (Doomed I x eqs) (matchAnyHop x ev shortest segment prev)
      (matchAnyHop x ev shortest (augmentHop eqs segment) (augmentNodePattern eqs prev)) := by
  cases shortest with
  | some kind =>
    have hbounds : shortestBounds (augmentHop eqs segment) = shortestBounds segment := rfl
    intro l l' hl
    simp only [Maharit.matchAnyHop, matchShortestSegment, augmentNodePattern_var, hbounds]
    split
    · exact Pruned.Agree.refl _
    split
    · exact Pruned.Agree.refl _
    exact h.collect (fun b => h.matchShortest segment prev kind _ _ b)
      (fun b r hr => grows_matchShortest hr) l l' hl
  | none =>
    have hrange : (augmentHop eqs segment).edge.lengthRange = segment.edge.lengthRange := rfl
    intro l l' hl
    simp only [Maharit.matchAnyHop, matchSegment, hrange]
    cases hlength : segment.edge.lengthRange with
    | some range =>
      exact h.collect (fun b => h.matchVariableLength segment prev range b)
        (fun b r hr => grows_matchVariableLength hr) l l' hl
    | none =>
      have hnames : NamedApart eqs segment := hapart rfl segment List.mem_cons_self hlength
      exact h.collect (fun b => h.matchSingleHop hnames prev b)
        (fun b r hr => grows_matchSingleHop hr) l l' hl

/-- The hops of a path, one after the other. -/
lemma PlainEqualities.matchSegments (h : PlainEqualities x ev eqs)
    {shortest : Option ShortestPathKind} {segments : List (PathSegment Expression)}
    (hapart : HopsApart eqs shortest segments) (prev : NodePattern Expression) :
    Pruned.AgreeFrom (Doomed I x eqs) (Doomed I x eqs)
      (matchSegments .standard x ev shortest segments prev)
      (matchSegments .standard x ev shortest (segments.map (augmentHop eqs))
        (augmentNodePattern eqs prev)) := by
  induction segments generalizing prev with
  | nil =>
    intro l l' hl r hr
    obtain rfl : l = r := Except.ok.inj hr
    exact ⟨l', rfl, hl⟩
  | cons segment segments ih =>
    have hfirst : HopsApart eqs shortest [segment] := fun hs s hmem =>
      hapart hs s (by rw [List.mem_singleton.mp hmem]; exact List.mem_cons_self)
    have hrest : HopsApart eqs shortest segments := fun hs s hmem =>
      hapart hs s (List.mem_cons_of_mem _ hmem)
    rw [List.map_cons, matchSegments_cons, matchSegments_cons]
    exact (h.matchAnyHop hfirst prev).bind (ih hrest segment.node)

/-! ## Hidden names -/

/-- Nothing is pushed into a node with a hidden name. -/
lemma augmentNodePattern_named (hvisible : ∀ eq ∈ eqs, IsVisible eq.var) (n : ℕ)
    (p : NodePattern Expression) :
    augmentNodePattern eqs { p with var := (nameVar n p.var).2 } =
      { augmentNodePattern eqs p with var := (nameVar n p.var).2 } := by
  cases hvar : p.var with
  | some var => simp [augmentNodePattern, nameVar, hvar]
  | none =>
    have hnone : ∀ eq ∈ eqs, eq.var ≠ anonVar (n + 1) := by
      rintro eq hmem heq
      exact not_isVisible_anonVar (n + 1) (heq ▸ hvisible eq hmem)
    have hsame : ∀ (eqs' : List PushedEquality), (∀ eq ∈ eqs', eq.var ≠ anonVar (n + 1)) →
        ∀ properties : List (String × Expression),
          eqs'.foldl (fun properties eq =>
            if eq.var = anonVar (n + 1) ∧ properties.all (fun e => e.1 ≠ eq.property) then
              properties ++ [(eq.property, eq.value)]
            else properties) properties = properties := by
      intro eqs' hne properties
      induction eqs' with
      | nil => rfl
      | cons eq eqs' ih =>
        rw [List.forall_mem_cons] at hne
        rw [List.foldl_cons, if_neg fun hcond => hne.1 hcond.1]
        exact ih hne.2
    simp only [augmentNodePattern, nameVar, hvar]
    rw [hsame eqs hnone]

lemma nameSegment_augment (hvisible : ∀ eq ∈ eqs, IsVisible eq.var) (bindEdges : Bool) (n : ℕ)
    (segment : PathSegment Expression) :
    nameSegment bindEdges n (augmentHop eqs segment) =
      ((nameSegment bindEdges n segment).1, augmentHop eqs (nameSegment bindEdges n segment).2) := by
  simp only [nameSegment, augmentHop, augmentNodePattern_var]
  rw [augmentNodePattern_named hvisible]

lemma nameSegments_augment (hvisible : ∀ eq ∈ eqs, IsVisible eq.var) (bindEdges : Bool) (n : ℕ)
    (segments : List (PathSegment Expression)) :
    nameSegments bindEdges n (segments.map (augmentHop eqs)) =
      (nameSegments bindEdges n segments).map (augmentHop eqs) := by
  induction segments generalizing n with
  | nil => rfl
  | cons segment segments ih =>
    rw [List.map_cons, nameSegments, nameSegments, nameSegment_augment hvisible, ih, List.map_cons]

lemma nameAnonymous_augment (hvisible : ∀ eq ∈ eqs, IsVisible eq.var) (p : PathPattern Expression) :
    nameAnonymous (augmentPath eqs p) = augmentPath eqs (nameAnonymous p) := by
  simp only [nameAnonymous, augmentPath, augmentNodePattern_var, nameSegments_augment hvisible,
    augmentNodePattern_named hvisible]

lemma hasAnonymous_augment (p : PathPattern Expression) :
    hasAnonymous (augmentPath eqs p) = hasAnonymous p := by
  simp [hasAnonymous, augmentPath, augmentHop, List.any_map, Function.comp_def]

/-- Hidden names are not compared. -/
lemma HopsApart.named (hvisible : ∀ eq ∈ eqs, IsVisible eq.var) {shortest : Option ShortestPathKind}
    {segments : List (PathSegment Expression)} (hapart : HopsApart eqs shortest segments)
    (bindEdges : Bool) (n : ℕ) : HopsApart eqs shortest (nameSegments bindEdges n segments) := by
  intro hshortest
  replace hapart := hapart hshortest
  induction segments generalizing n with
  | nil => simp [nameSegments]
  | cons segment segments ih =>
    rw [List.forall_mem_cons] at hapart
    rw [nameSegments, List.forall_mem_cons]
    refine ⟨fun hlength eq hmem hnode hedge => ?_, ih _ hapart.2⟩
    have hunhidden : ∀ (m : ℕ) (var : Option String), (nameVar m var).2 = some eq.var →
        var = some eq.var := by
      intro m var hname
      cases var with
      | some v => exact hname
      | none => exact absurd (hvisible eq hmem) (Option.some.inj hname ▸ not_isVisible_anonVar (m + 1))
    have hnode' : segment.node.var = some eq.var := hunhidden n _ hnode
    refine hapart.1 hlength eq hmem hnode' ?_
    cases bindEdges with
    | false => exact hedge
    | true => exact hunhidden _ _ hedge

/-! ## Patterns -/

/-- The path that is matched, with its hidden names. -/
lemma named_augment (hvisible : ∀ eq ∈ eqs, IsVisible eq.var) (p : PathPattern Expression) :
    (if hasAnonymous p then nameAnonymous (augmentPath eqs p) else augmentPath eqs p) =
      augmentPath eqs (if hasAnonymous p then nameAnonymous p else p) := by
  split
  · exact nameAnonymous_augment hvisible p
  · rfl

lemma assembleSegments_augment (b : Bindings) (segments : List (PathSegment Expression)) :
    assembleSegments b (segments.map (augmentHop eqs)) = assembleSegments b segments := by
  induction segments with
  | nil => rfl
  | cons segment segments ih =>
    simp only [List.map_cons, assembleSegments, ih, augmentHop, augmentNodePattern_var]

lemma bindPath_augment (p : PathPattern Expression) : bindPath (augmentPath eqs p) = bindPath p := by
  funext b
  simp only [bindPath, assemblePath, augmentPath, augmentNodePattern_var, assembleSegments_augment]

lemma grows_bindPath {p : PathPattern Expression} {b : Bindings} {r : List Bindings}
    (hr : bindPath p b = .ok r) : ∀ b' ∈ r, Grows b b' := by
  unfold bindPath at hr
  cases hvar : p.var with
  | none =>
    simp only [hvar, Except.ok.injEq] at hr
    rw [← hr, List.forall_mem_singleton]
    exact Grows.refl b
  | some var =>
    simp only [hvar] at hr
    obtain ⟨path, hpath, rfl⟩ := Except.map_eq_ok.mp hr
    obtain ⟨start, -, hpath⟩ := Except.bind_eq_ok.mp hpath
    obtain ⟨rest, -, rfl⟩ := Except.map_eq_ok.mp hpath
    rw [List.forall_mem_singleton]
    exact grows_bindVar_path b (some var) _ _

/-- The last steps of a path: its own variable is bound, and the hidden ones are dropped. -/
lemma PlainEqualities.finishPath (h : PlainEqualities x ev eqs) (q : PathPattern Expression)
    (hide : Bool) :
    Pruned.AgreeFrom (Doomed I x eqs) (Doomed I x eqs)
      (fun bs => (Except.collect (bindPath q) bs).map fun bs => if hide then bs.map dropHidden else bs)
      (fun bs => (Except.collect (bindPath (augmentPath eqs q)) bs).map fun bs =>
        if hide then bs.map dropHidden else bs) := by
  rw [bindPath_augment]
  intro l l' hl
  have hbind : Pruned.Agree (Doomed I x eqs) (Except.collect (bindPath q) l)
      (Except.collect (bindPath q) l') :=
    h.collect (fun b => Pruned.Agree.refl _) (fun b r hr => grows_bindPath hr) l l' hl
  cases hide with
  | true => exact hbind.map fun b hb => hb.grows h.visible (grows_dropHidden b)
  | false =>
    intro r hr
    obtain ⟨m, hm, rfl⟩ := Except.map_eq_ok.mp hr
    obtain ⟨m', hm', hpruned⟩ := hbind m hm
    exact ⟨m', Except.map_eq_ok.mpr ⟨m', hm', rfl⟩, hpruned⟩

/-- The names in a pattern keep relationships and compared nodes apart. -/
def Pattern.Apart (eqs : List PushedEquality) : Pattern Expression → Prop
  | .node _ => True
  | .path p => HopsApart eqs p.shortest p.segments

/-- Patterns agree, up to doomed rows. -/
lemma PlainEqualities.matchPattern (h : PlainEqualities x ev eqs) (hx : NoIndex x)
    {p : Pattern Expression} (hp : p.Apart eqs) :
    Pruned.AgreeFrom (Doomed I x eqs) (Doomed I x eqs) (matchPattern .standard x ev p)
      (matchPattern .standard x ev (augmentPattern eqs p)) := by
  have hnode : ∀ p : NodePattern Expression, Pruned.AgreeFrom (Doomed I x eqs) (Doomed I x eqs)
      (matchNodePattern x ev p) (matchNodePattern x ev (augmentNodePattern eqs p)) := fun p =>
    h.collect (fun b => h.matchNode hx p b) fun b r hr => grows_matchNode hr
  cases p with
  | node p => exact hnode p
  | path p =>
    change Pruned.AgreeFrom _ _ (matchPathPattern .standard x ev p)
      (matchPathPattern .standard x ev (augmentPath eqs p))
    have hapart : HopsApart eqs (if hasAnonymous p then nameAnonymous p else p).shortest
        (if hasAnonymous p then nameAnonymous p else p).segments := by
      split
      · exact HopsApart.named h.visible hp _ _
      · exact hp
    unfold matchPathPattern
    simp only [hasAnonymous_augment, named_augment h.visible]
    exact (hnode _).bind ((h.matchSegments hapart _).bind (h.finishPath _ _))

/-! ## Clauses -/

/-- Every row of the result has grown from a row of the input. -/
def GrowsFrom (F : List Bindings → Except ExecuteError (List Bindings)) : Prop :=
  ∀ l r, F l = .ok r → ∀ b' ∈ r, ∃ b ∈ l, Grows b b'

lemma GrowsFrom.collect {f : Bindings → Except ExecuteError (List Bindings)}
    (hf : ∀ b r, f b = .ok r → ∀ b' ∈ r, Grows b b') : GrowsFrom (Except.collect f) := by
  intro l r hr b' hb'
  obtain ⟨g, hg, rfl⟩ := Except.collect_eq_ok.mp hr
  obtain ⟨b, hb, hb'⟩ := List.mem_flatMap.mp hb'
  exact ⟨b, hb, hf b _ (hg b hb) b' hb'⟩

lemma GrowsFrom.bind {F G : List Bindings → Except ExecuteError (List Bindings)}
    (hF : GrowsFrom F) (hG : GrowsFrom G) : GrowsFrom fun l => (F l).bind G := by
  intro l r hr b'' hb''
  obtain ⟨m, hm, hr⟩ := Except.bind_eq_ok.mp hr
  obtain ⟨b', hb', hgrows'⟩ := hG m r hr b'' hb''
  obtain ⟨b, hb, hgrows⟩ := hF l m hm b' hb'
  exact ⟨b, hb, hgrows.trans hgrows'⟩

lemma growsFrom_ok : GrowsFrom fun l => .ok l := by
  intro l r hr b' hb'
  obtain rfl : l = r := Except.ok.inj hr
  exact ⟨b', hb', Grows.refl b'⟩

lemma growsFrom_matchAnyHop (shortest : Option ShortestPathKind) (segment : PathSegment Expression)
    (prev : NodePattern Expression) : GrowsFrom (matchAnyHop x ev shortest segment prev) := by
  intro l r hr
  unfold matchAnyHop at hr
  cases shortest with
  | some kind =>
    simp only [matchShortestSegment] at hr
    split at hr
    · cases hr
    split at hr
    · cases hr
    exact GrowsFrom.collect (fun b r hr => grows_matchShortest hr) l r hr
  | none =>
    simp only [matchSegment] at hr
    split at hr
    · exact GrowsFrom.collect (fun b r hr => grows_matchVariableLength hr) l r hr
    · exact GrowsFrom.collect (fun b r hr => grows_matchSingleHop hr) l r hr

lemma growsFrom_matchSegments (shortest : Option ShortestPathKind)
    (segments : List (PathSegment Expression)) (prev : NodePattern Expression) :
    GrowsFrom (matchSegments .standard x ev shortest segments prev) := by
  induction segments generalizing prev with
  | nil => exact growsFrom_ok
  | cons segment segments ih =>
    rw [matchSegments_cons]
    exact (growsFrom_matchAnyHop shortest segment prev).bind (ih segment.node)

lemma growsFrom_matchPattern (p : Pattern Expression) : GrowsFrom (matchPattern .standard x ev p) := by
  have hnode : ∀ p : NodePattern Expression, GrowsFrom (matchNodePattern x ev p) := fun p =>
    GrowsFrom.collect fun b r hr => grows_matchNode hr
  cases p with
  | node p => exact hnode p
  | path p =>
    refine (hnode _).bind ((growsFrom_matchSegments _ _ _).bind ?_)
    intro l r hr
    obtain ⟨m, hm, rfl⟩ := Except.map_eq_ok.mp hr
    intro b' hb'
    have hbound := GrowsFrom.collect (fun b r hr => grows_bindPath hr) l m hm
    split at hb'
    · obtain ⟨b₁, hb₁, rfl⟩ := List.mem_map.mp hb'
      obtain ⟨b, hb, hgrows⟩ := hbound b₁ hb₁
      exact ⟨b, hb, hgrows.trans (grows_dropHidden b₁)⟩
    · exact hbound b' hb'

lemma growsFrom_matchPatterns (ps : List (Pattern Expression)) :
    GrowsFrom (matchPatterns .standard x ev ps) := by
  induction ps with
  | nil => exact growsFrom_ok
  | cons p ps ih => exact (growsFrom_matchPattern p).bind ih

lemma growsFrom_matchPatternsForBinding (ps : List (Pattern Expression)) :
    GrowsFrom (matchPatternsForBinding .standard x ev ps) := by
  induction ps with
  | nil => exact growsFrom_ok
  | cons p ps ih =>
    intro l r hr
    rw [matchPatternsForBinding] at hr
    split at hr
    · exact growsFrom_ok l r hr
    · exact (growsFrom_matchPattern p).bind ih l r hr

/-- The patterns of a clause agree, up to doomed rows; the loop may end early when none is left. -/
lemma PlainEqualities.matchPatternsForBinding (h : PlainEqualities x ev eqs) (hx : NoIndex x)
    {ps : List (Pattern Expression)} (hps : ∀ p ∈ ps, p.Apart eqs) :
    Pruned.AgreeFrom (Doomed I x eqs) (Doomed I x eqs) (matchPatternsForBinding .standard x ev ps)
      (matchPatternsForBinding .standard x ev (ps.map (augmentPattern eqs))) := by
  induction ps with
  | nil =>
    intro l l' hl r hr
    obtain rfl : l = r := Except.ok.inj hr
    exact ⟨l', rfl, hl⟩
  | cons p ps ih =>
    rw [List.forall_mem_cons] at hps
    intro l l' hl r hr
    rw [List.map_cons, Maharit.matchPatternsForBinding]
    cases l' with
    | nil =>
      refine ⟨[], rfl, Pruned.dropAll fun b' hb' => ?_⟩
      obtain ⟨b, hb, hgrows⟩ := growsFrom_matchPatternsForBinding (p :: ps) l r hr b' hb'
      exact (hl.forall_of_nil b hb).grows h.visible hgrows
    | cons b l' =>
      have hne : l ≠ [] := by
        rintro rfl
        cases hl
      rw [Maharit.matchPatternsForBinding, if_neg (by simpa using hne)] at hr
      rw [if_neg (by simp)]
      exact (h.matchPattern hx hps.1).bind (ih hps.2) l (b :: l') hl r hr

/-- The rows of an optional clause have grown from its input, or are its input. -/
lemma grows_executeMatchClause {clause : MatchClause} {b : Bindings} {r : List Bindings}
    (hr : (if clause.optional then
        (matchPatterns .standard x ev clause.patterns [b]).map fun rows =>
          if rows.isEmpty then [b] else rows
      else matchPatternsForBinding .standard x ev clause.patterns [b]) = .ok r) :
    ∀ b' ∈ r, Grows b b' := by
  intro b' hb'
  split at hr
  · obtain ⟨rows, hrows, rfl⟩ := Except.map_eq_ok.mp hr
    split at hb'
    · rw [List.mem_singleton.mp hb']
      exact Grows.refl b
    · obtain ⟨b₀, hb₀, hgrows⟩ := growsFrom_matchPatterns clause.patterns [b] rows hrows b' hb'
      rwa [List.mem_singleton.mp hb₀] at hgrows
  · obtain ⟨b₀, hb₀, hgrows⟩ := growsFrom_matchPatternsForBinding clause.patterns [b] r hr b' hb'
    rwa [List.mem_singleton.mp hb₀] at hgrows

lemma PlainEqualities.executeMatchClause (h : PlainEqualities x ev eqs) (hx : NoIndex x)
    {clause : MatchClause} (hclause : clause.optional = false → ∀ p ∈ clause.patterns, p.Apart eqs) :
    Pruned.AgreeFrom (Doomed I x eqs) (Doomed I x eqs) (executeMatchClause .standard x ev clause)
      (executeMatchClause .standard x ev (augmentClause eqs clause)) := by
  refine h.collect (fun b => ?_) fun b r hr => grows_executeMatchClause hr
  by_cases hpush : (eqs.isEmpty || clause.optional) = true
  · rw [augmentClause, if_pos hpush]
    exact Pruned.Agree.refl _
  · rw [augmentClause, if_neg hpush]
    rw [Bool.or_eq_true, not_or, Bool.not_eq_true, Bool.not_eq_true] at hpush
    simp only [hpush.2, Bool.false_eq_true, if_false]
    exact h.matchPatternsForBinding hx (hclause hpush.2) [b] [b] (Pruned.refl _)

/-! ## Segments -/

/-- The evaluator and the searches of the executor; the rest stays open. -/
def Semantics.standard (M : Semantics σ) (I : Interpretation σ)
    (sub : Executor σ → Expression → Bindings → Except ExecuteError Value) : Semantics σ :=
  { M with
    search := .standard
    evaluate := fun x b e => evaluateWith I x (sub x) e b }

/-- A segment as it reads: the patterns are matched as they are, and `WHERE` comes after them. -/
def executeSegmentPlain (M : Semantics σ) (x : Executor σ) (segment : QuerySegment)
    (bs : List Bindings) : Except ExecuteError (List Bindings) :=
  let x : Executor σ := { x with rangeHints := [] }
  (executeMatchClauses M x segment.matchClauses bs).bind fun bs =>
    let bs := retainWhere M x segment.whereClause bs
    match segment.withClause with
    | some w => applyWithClause M x w bs
    | none => .ok bs

/-- Pushing gives the rows of the segment, and fails only when the segment as it reads fails. -/
def PushdownPreserves (M : Semantics σ) (x : Executor σ) (segment : QuerySegment)
    (bs : List Bindings) : Prop :=
  ∀ rows, executeSegmentPlain M x segment bs = .ok rows →
    (executeQuerySegment M x segment bs).2 = .ok rows

/-- The variables that are compared can be spelled, and no single hop gives one to both its
relationship and its end node. -/
structure QuerySegment.Apart (segment : QuerySegment) : Prop where
  visible : ∀ eq ∈ pushedEqualities segment, IsVisible eq.var
  patterns : ∀ clause ∈ segment.matchClauses, clause.optional = false →
    ∀ p ∈ clause.patterns, p.Apart (pushedEqualities segment)

lemma isPushableConst_of_mem_pushed {segment : QuerySegment} {eq : PushedEquality}
    (heq : eq ∈ pushedEqualities segment) : isPushableConst eq.value = true := by
  unfold pushedEqualities at heq
  split at heq
  · exact isPushableConst_of_mem_collect heq
  · cases heq

/-- The `MATCH` clauses agree, up to doomed rows. -/
lemma PlainEqualities.executeMatchClauses {M : Semantics σ}
    {sub : Executor σ → Expression → Bindings → Except ExecuteError Value}
    (h : PlainEqualities x ((M.standard I sub).evaluate x) eqs) (hx : NoIndex x)
    {clauses : List MatchClause}
    (hclauses : ∀ clause ∈ clauses, clause.optional = false → ∀ p ∈ clause.patterns, p.Apart eqs) :
    Pruned.AgreeFrom (Doomed I x eqs) (Doomed I x eqs)
      (executeMatchClauses (M.standard I sub) x clauses)
      (executeMatchClauses (M.standard I sub) x (clauses.map (augmentClause eqs))) := by
  induction clauses with
  | nil =>
    intro l l' hl r hr
    obtain rfl : l = r := Except.ok.inj hr
    exact ⟨l', rfl, hl⟩
  | cons clause clauses ih =>
    rw [List.forall_mem_cons] at hclauses
    exact (h.executeMatchClause hx hclauses.1).bind (ih hclauses.2)

/-- `WHERE` drops the doomed rows. -/
lemma whereHolds_of_doomed {M : Semantics σ}
    {sub : Executor σ → Expression → Bindings → Except ExecuteError Value} {condition : Expression}
    {b : Bindings} (hb : Doomed I x (collectPushableEqualities condition) b) :
    whereHolds (M.standard I sub) x condition b = false := by
  obtain ⟨eq, hmem, -, hnot⟩ := hb
  rw [← Bool.not_eq_true]
  intro hkeep
  suffices htrue : evaluateWith I x (sub x) condition b = .ok (.bool true) from
    hnot (equalityHolds_of_where hmem htrue)
  unfold whereHolds at hkeep
  split at hkeep
  · rename_i value hvalue
    rw [show evaluateWith I x (sub x) condition b = .ok value from hvalue]
    cases value with
    | bool t =>
      cases t with
      | true => rfl
      | false => cases hkeep
    | _ => cases hkeep
  · cases hkeep

/-- Pushing preserves the rows when every equality compares with a plain constant. -/
lemma pushdownPreserves_of_plain (M : Semantics σ) (I : Interpretation σ)
    (sub : Executor σ → Expression → Bindings → Except ExecuteError Value) {x : Executor σ}
    {segment : QuerySegment} (hreads : GraphBackend.NodeReads x.graph)
    (hindex : x.propertyIndex.hasAnyIndex = false) (hapart : segment.Apart)
    (hplain : ∀ eq ∈ pushedEqualities segment, PushesPlainly x.params eq.value)
    (bs : List Bindings) : PushdownPreserves (M.standard I sub) x segment bs := by
  intro rows hrows
  let x' : Executor σ := { x with rangeHints := [] }
  have hequalities : PlainEqualities x' ((M.standard I sub).evaluate x') (pushedEqualities segment) :=
    { plain := hplain
      evaluates := fun b c w hw => by
        have hconst : isPushableConst c = true := by
          cases c with
          | literal lit => rfl
          | parameter name => rfl
          | _ => cases hw
        exact (evaluateWith_const hconst b w).mpr hw
      visible := hapart.visible
      reads := hreads }
  have hhints : segmentHints x segment = [] := by
    unfold segmentHints
    split
    · rw [hindex, if_neg (by simp)]
    · rfl
  obtain ⟨m, hm, hrest⟩ := Except.bind_eq_ok.mp hrows
  obtain ⟨m', hm', hpruned⟩ := hequalities.executeMatchClauses (noIndex_of_hasAnyIndex hindex)
    hapart.patterns bs bs (Pruned.refl bs) m hm
  have hretain : retainWhere (M.standard I sub) x' segment.whereClause m =
      retainWhere (M.standard I sub) x' segment.whereClause m' := by
    cases hwhere : segment.whereClause with
    | some condition =>
      rw [pushedEqualities, hwhere] at hpruned
      exact hpruned.filter_eq fun b hb => whereHolds_of_doomed hb
    | none =>
      -- Nothing is pushed, so no row is doomed.
      rw [pushedEqualities, hwhere] at hpruned
      have hsame := hpruned.filter_eq (p := fun _ => true) fun b hb => by
        obtain ⟨eq, hmem, -⟩ := hb
        cases hmem
      simpa [retainWhere] using hsame
  rw [hretain] at hrest
  have hpushed : executeMatchClauses (M.standard I sub) { x with rangeHints := [] }
      (segment.matchClauses.map (augmentClause (pushedEqualities segment))) bs = .ok m' := hm'
  unfold executeQuerySegment
  simp only [hhints, hpushed]
  exact hrest

end Pushdown

/-! ## Constants that must not be pushed -/

/-- A graph of one node, with a property `a` if a value is given. -/
def oneNode (value : Option PropertyValue) : ConcurrentGraph :=
  WriteCall.run .new (.createNodeWithLabels [] ::
    (value.map (WriteCall.setNodeProperty 0 "a")).toList)

/-- The pattern `(n)` with inline properties. -/
def nodeN (properties : List (String × Expression)) : NodePattern Expression where
  var := some "n"
  labels := []
  properties := properties

/-- The condition `n.a = c`. -/
def equalsA (c : Expression) : Expression := .binaryOp (.property "n" "a") .eq c

/-- The segment `MATCH (n) WHERE n.a = c`. -/
def matchWhereA (c : Expression) : QuerySegment where
  matchClauses := [⟨[.node (nodeN [])], false⟩]
  whereClause := some (equalsA c)
  withClause := none

/-- An executor on a graph, with parameters only. -/
def Executor.withParams (g : ConcurrentGraph) (params : HashMap String Value) :
    Executor ConcurrentGraph :=
  { Executor.bare g with params := params }

/-- Operators and functions that are not comparisons or logic give null. -/
def plainInterpretation : Interpretation ConcurrentGraph where
  binary _ _ _ := .ok .null
  unary _ _ := .ok .null
  temporalField _ _ := .null
  scalar _ _ _ := .ok .null
  reduce _ _ _ _ _ _ := .ok .null

/-- The evaluator and the searches of the executor, and nothing else. -/
def standardSemantics : Semantics ConcurrentGraph :=
  plainSemantics.standard plainInterpretation fun _ _ _ => .ok .null

/-- The row that binds `n` to the node. -/
def rowN : Bindings := AList.insert "n" (.node 0) ∅

section Constants

variable {params : HashMap String Value} {c : Expression}

/-- The test of the pushed equality decides whether the row is made. -/
lemma executeMatchClauses_pushed {g : ConcurrentGraph} (hids : GraphBackend.nodeIds g = [0])
    {r : Except ExecuteError Bool}
    (hr : nodeHasProperty (.withParams g params) (standardSemantics.evaluate (.withParams g params)) 0 ∅
      ("a", c) = r) :
    executeMatchClauses standardSemantics (.withParams g params) [⟨[.node (nodeN [("a", c)])], false⟩] [∅] =
      r.map fun ok => if ok then [rowN] else [] := by
  have hnode : nodeMatchesPattern (.withParams g params)
      (standardSemantics.evaluate (.withParams g params)) 0 (nodeN [("a", c)]) ∅ = r := by
    simp only [nodeMatchesPattern, nodeN, Except.allM, hr]
    cases r with
    | error e => rfl
    | ok ok => cases ok <;> rfl
  have hcandidates : nodeCandidates (.withParams g params) (nodeN [("a", c)]) = [0] := by
    rw [← hids]
    rfl
  have hmatch : matchNode (.withParams g params) (standardSemantics.evaluate (.withParams g params))
      (nodeN [("a", c)]) ∅ = r.map fun ok => if ok then [rowN] else [] := by
    have hfree : ((nodeN [("a", c)]).var.bind (∅ : Bindings).lookup) = none := rfl
    rw [matchNode, hfree, hcandidates]
    simp only [Except.keep, hnode]
    cases r with
    | error e => rfl
    | ok ok => cases ok <;> rfl
  simp only [executeMatchClauses, executeMatchClause, Except.collect_singleton, Bool.false_eq_true,
    if_false, matchPatternsForBinding, List.isEmpty_cons, matchPattern, matchNodePattern, hmatch]
  cases r with
  | error e => rfl
  | ok ok => cases ok <;> rfl

/-- The run that pushes the equality. -/
lemma executeQuerySegment_matchWhereA {g : ConcurrentGraph} (hids : GraphBackend.nodeIds g = [0])
    (hc : isPushableConst c = true) {r : Except ExecuteError Bool}
    (hr : nodeHasProperty (.withParams g params) (standardSemantics.evaluate (.withParams g params)) 0 ∅
      ("a", c) = r) :
    (executeQuerySegment standardSemantics (.withParams g params) (matchWhereA c) [∅]).2 =
      r.map fun ok => if ok then
        retainWhere standardSemantics (.withParams g params) (some (equalsA c)) [rowN] else [] := by
  have hclauses : (matchWhereA c).matchClauses.map (augmentClause (pushedEqualities (matchWhereA c))) =
      [⟨[.node (nodeN [("a", c)])], false⟩] := by
    have hpushed : pushedEqualities (matchWhereA c) = [⟨"n", "a", c⟩] := by
      simp [pushedEqualities, matchWhereA, equalsA, collectPushableEqualities, hc]
    rw [hpushed]
    rfl
  have hhints : ({ Executor.withParams g params with
      rangeHints := segmentHints (.withParams g params) (matchWhereA c) } : Executor ConcurrentGraph) =
        .withParams g params := rfl
  unfold executeQuerySegment
  simp only [hhints, hclauses, executeMatchClauses_pushed hids hr]
  cases r with
  | error e => rfl
  | ok ok => cases ok <;> rfl

/-- What `WHERE` makes of the row. -/
lemma whereHolds_rowN {g : ConcurrentGraph} {n : Node} (hn : GraphBackend.getNode g 0 = some n)
    (hc : isPushableConst c = true) :
    whereHolds standardSemantics (.withParams g params) (equalsA c) rowN =
      (constValue params c).any (valuesEqual (propertyOrNull (n.getProperty "a"))) := by
  have hleft : evaluateProperty plainInterpretation (.withParams g params) rowN "n" "a" =
      .ok (propertyOrNull (n.getProperty "a")) := by
    have hlookup : rowN.lookup "n" = some (.node 0) := rfl
    have hgraph : (Executor.withParams g params).graph = g := rfl
    simp only [evaluateProperty, hlookup, hgraph, hn]
  have hright : ∀ v, evaluateWith plainInterpretation (.withParams g params)
      (fun _ _ => .ok .null) c rowN = .ok v ↔ constValue params c = some v := by
    intro v
    exact evaluateWith_const hc rowN v
  have hwhere : standardSemantics.evaluate (.withParams g params) rowN (equalsA c) =
      evaluateWith plainInterpretation (.withParams g params) (fun _ _ => .ok .null) (equalsA c) rowN := rfl
  rw [whereHolds, hwhere, equalsA, evaluateWith, evaluateWith, hleft]
  cases hconst : constValue params c with
  | some w =>
    rw [(hright w).mpr hconst]
    cases hequal : valuesEqual (propertyOrNull (n.getProperty "a")) w <;>
      simp [Bind.bind, Except.bind, applyBinaryOp, hequal, Value.isTrue]
  | none =>
    cases hev : evaluateWith plainInterpretation (.withParams g params) (fun _ _ => .ok .null) c rowN with
    | ok v =>
      rw [(hright v).mp hev] at hconst
      cases hconst
    | error e => rfl

/-- The run that does not push. -/
lemma executeSegmentPlain_matchWhereA (value : Option PropertyValue) :
    executeSegmentPlain standardSemantics (.withParams (oneNode value) params) (matchWhereA c) [∅] =
      .ok (retainWhere standardSemantics (.withParams (oneNode value) params) (some (equalsA c)) [rowN]) := by
  cases value <;> rfl

/-- The node of the graph, which has the property `a` if a value is given. -/
lemma getNode_oneNode (value : Option PropertyValue) :
    ∃ n, GraphBackend.getNode (oneNode value) 0 = some n ∧ n.getProperty "a" = value := by
  cases value with
  | none => exact ⟨_, rfl, rfl⟩
  | some value => exact ⟨_, rfl, rfl⟩

/-- A value that `=` finds equal to a constant and the matcher does not. -/
lemma exists_value_of_not_isPlain {w : Value} (hw : w.isPlain = false) :
    ∃ value : Option PropertyValue, valuesEqual (propertyOrNull value) w = true ∧
      ∀ actual ∈ value, propertyValueMatches actual w = false := by
  cases w with
  | null => exact ⟨none, rfl, by simp⟩
  | date days => exact ⟨some (.date days), by simp [propertyOrNull, Value.ofProperty, valuesEqual],
      by simp [propertyValueMatches]⟩
  | dateTime ms => exact ⟨some (.dateTime ms), by simp [propertyOrNull, Value.ofProperty, valuesEqual],
      by simp [propertyValueMatches]⟩
  | duration months days millis =>
    exact ⟨some (.duration months days millis),
      by simp [propertyOrNull, Value.ofProperty, valuesEqual], by simp [propertyValueMatches]⟩
  | _ => cases hw

/-- A constant without a plain value must not be pushed. -/
lemma exists_not_pushdownPreserves (hc : isPushableConst c = true) (hplain : ¬ PushesPlainly params c) :
    ∃ value, ¬ PushdownPreserves standardSemantics (.withParams (oneNode value) params) (matchWhereA c)
      [∅] := by
  have hids : ∀ value, GraphBackend.nodeIds (oneNode value) = [0] := by
    intro value
    cases value <;> rfl
  have heval : ∀ (g : ConcurrentGraph) v, standardSemantics.evaluate (.withParams g params) ∅ c = .ok v ↔
      constValue params c = some v := fun g v => evaluateWith_const hc ∅ v
  cases hconst : constValue params c with
  | none =>
    -- The parameter is missing: `WHERE` drops the row, the matcher fails.
    refine ⟨some (.int 1), fun hpreserves => ?_⟩
    obtain ⟨n, hn, -⟩ := getNode_oneNode (some (.int 1))
    have hdrop : executeSegmentPlain standardSemantics (.withParams (oneNode (some (.int 1))) params)
        (matchWhereA c) [∅] = .ok [] := by
      rw [executeSegmentPlain_matchWhereA, retainWhere, List.filter_singleton, whereHolds_rowN hn hc, hconst]
      rfl
    obtain ⟨e, he⟩ : ∃ e, nodeHasProperty (.withParams (oneNode (some (.int 1))) params)
        (standardSemantics.evaluate (.withParams (oneNode (some (.int 1))) params)) 0 ∅ ("a", c) =
          .error e := by
      cases hev : standardSemantics.evaluate (.withParams (oneNode (some (.int 1))) params) ∅ c with
      | ok v =>
        rw [(heval _ v).mp hev] at hconst
        cases hconst
      | error e =>
        refine ⟨e, ?_⟩
        change (standardSemantics.evaluate _ ∅ c).map _ = _
        rw [hev]
        rfl
    have hpushed := hpreserves [] hdrop
    rw [executeQuerySegment_matchWhereA (hids _) hc he] at hpushed
    cases hpushed
  | some w =>
    have hw : w.isPlain = false := by
      rw [PushesPlainly, hconst, Option.any_some, Bool.not_eq_true] at hplain
      exact hplain
    obtain ⟨value, hequal, hmatcher⟩ := exists_value_of_not_isPlain hw
    refine ⟨value, fun hpreserves => ?_⟩
    obtain ⟨n, hn, hvalue⟩ := getNode_oneNode value
    have hkeep : executeSegmentPlain standardSemantics (.withParams (oneNode value) params)
        (matchWhereA c) [∅] = .ok [rowN] := by
      rw [executeSegmentPlain_matchWhereA, retainWhere, List.filter_singleton, whereHolds_rowN hn hc, hconst,
        hvalue, Option.any_some, hequal]
      rfl
    have hno : nodeHasProperty (.withParams (oneNode value) params)
        (standardSemantics.evaluate (.withParams (oneNode value) params)) 0 ∅ ("a", c) = .ok false := by
      have hget : GraphBackend.getNodeProperty (Executor.withParams (oneNode value) params).graph 0 "a" =
          value :=
        ((ConcurrentGraph.nodeReads (oneNode value)).getNodeProperty 0 "a").trans (by rw [hn]; exact hvalue)
      simp only [nodeHasProperty, hget, (heval _ w).mpr hconst]
      cases value with
      | none => rfl
      | some actual => exact congrArg Except.ok (hmatcher actual rfl)
    have hpushed := hpreserves [rowN] hkeep
    rw [executeQuerySegment_matchWhereA (hids _) hc hno] at hpushed
    cases hpushed

end Constants

/-! ## Which constants may be pushed -/

lemma apart_matchWhereA (c : Expression) : (matchWhereA c).Apart where
  visible eq heq := by
    have hmem : eq ∈ collectPushableEqualities (equalsA c) := heq
    rw [equalsA, collectPushableEqualities] at hmem
    split at hmem
    · have hn : anonVarPrefix.isPrefixOf "n" = false := by decide +kernel
      rw [List.mem_singleton.mp hmem]
      exact hn
    · cases hmem
  patterns clause hclause _ p hp := by
    obtain rfl := List.mem_singleton.mp hclause
    obtain rfl := List.mem_singleton.mp hp
    trivial

end Maharit
