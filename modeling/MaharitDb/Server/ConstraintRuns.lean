import MaharitDb.Lib.ExceptList
import MaharitDb.Query.StatementSteps
import MaharitDb.Server.NodeChanges
import MaharitDb.Server.ReadOnly

/-!
# Constraints along statements

Each path that writes checks the constraints on its own: a new node before it is stored, a property before
it is set, and all properties of `SET +=` before the first one is set.  Together they keep a constraint, also
when a statement fails half-way, for the nodes that have the constrained label first, unless labels change,
the constraint is created over existing data, or `SET +=` changes several properties under a composite
uniqueness constraint.  The edges are left aside.
-/

namespace Maharit

open Stateful GraphBackend

namespace Constraint

/-! ## What a constraint says of the nodes -/

/-- The node has the constrained label first. -/
def Governs (c : Constraint) (n : Node) : Prop := n.labels.head? = some c.label

/-- What the constraint says of the value of one of its properties. -/
def FitsValue (c : Constraint) (value : PropertyValue) : Prop :=
  match c.constraintType with
  | .notNull => value ≠ .null
  | .typeCheck type => value = .null ∨ ConstraintManager.PropertyType.admits type value = true
  | _ => True

/-- What the constraint says of a node by itself. -/
structure Fits (c : Constraint) (n : Node) : Prop where
  value : ∀ p ∈ c.properties, ∀ v, n.getProperty p = some v → c.FitsValue v
  present : c.constraintType = .notNull → ∀ p ∈ c.properties, (n.getProperty p).isSome = true
  label : ∀ required, c.constraintType = .requiredLabel required → required ∈ n.labels

/-- Two nodes that a uniqueness constraint forbids: they have the constrained properties, with the same
values. -/
def Clashes (c : Constraint) (n n' : Node) : Prop :=
  c.constraintType = .unique ∧
    ∀ p ∈ c.properties, ∃ v, n.getProperty p = some v ∧ n'.getProperty p = some v

lemma Clashes.symm {c : Constraint} {n n' : Node} (h : c.Clashes n n') : c.Clashes n' n :=
  ⟨h.1, fun p hp => (h.2 p hp).imp fun _ hv => hv.symm⟩

/-- No other node clashes with the node of the id. -/
def NoClash (c : Constraint) (nodes : NodeId → Option Node) (id : NodeId) (n : Node) : Prop :=
  ∀ m n', m ≠ id → nodes m = some n' → c.Governs n' → ¬ c.Clashes n n'

/-- The constraint holds of the nodes. -/
structure HoldsOf (c : Constraint) (nodes : NodeId → Option Node) : Prop where
  fits : ∀ id n, nodes id = some n → c.Governs n → c.Fits n
  noClash : ∀ id n, nodes id = some n → c.Governs n → c.NoClash nodes id n

variable {c : Constraint} {nodes nodes' : NodeId → Option Node} {id : NodeId} {n : Node}

/-- A change of one node. -/
lemma HoldsOf.change (h : c.HoldsOf nodes) (id : NodeId) (hothers : ∀ m, m ≠ id → nodes' m = nodes m)
    (hnew : ∀ n, nodes' id = some n → c.Governs n → c.Fits n ∧ c.NoClash nodes id n) : c.HoldsOf nodes' := by
  constructor
  · intro m n hn hgoverns
    by_cases hm : m = id
    · subst hm
      exact (hnew n hn hgoverns).1
    · exact h.fits m n (hothers m hm ▸ hn) hgoverns
  · intro m n hn hgoverns m' n' hne hn' hgoverns' hclash
    by_cases hm : m = id
    · subst hm
      exact (hnew n hn hgoverns).2 m' n' hne (hothers m' hne ▸ hn') hgoverns' hclash
    · by_cases hm' : m' = id
      · subst hm'
        exact (hnew n' hn' hgoverns').2 m n hm (hothers m hm ▸ hn) hgoverns hclash.symm
      · exact h.noClash m n (hothers m hm ▸ hn) hgoverns m' n' hne (hothers m' hm' ▸ hn') hgoverns' hclash

/-- A node that is like one that was there, in all that the constraint looks at. -/
lemma HoldsOf.of_similar (h : c.HoldsOf nodes) (hothers : ∀ m, m ≠ id → nodes' m = nodes m)
    (hnew : ∀ n', nodes' id = some n' → c.Governs n' → ∃ n, nodes id = some n ∧ c.Governs n ∧
      (∀ p ∈ c.properties, n'.getProperty p = n.getProperty p) ∧ ∀ l ∈ n.labels, l ∈ n'.labels) :
    c.HoldsOf nodes' := by
  refine h.change id hothers fun n' hn' hgoverns' => ?_
  obtain ⟨n, hn, hgoverns, hprops, hlabels⟩ := hnew n' hn' hgoverns'
  have hfits := h.fits id n hn hgoverns
  refine ⟨⟨fun p hp v hv => hfits.value p hp v (hprops p hp ▸ hv), fun hnull p hp => ?_, fun required hr =>
    hlabels _ (hfits.label required hr)⟩, fun m n₂ hne hn₂ hgoverns₂ hclash => ?_⟩
  · rw [hprops p hp]
    exact hfits.present hnull p hp
  · refine h.noClash id n hn hgoverns m n₂ hne hn₂ hgoverns₂ ⟨hclash.1, fun p hp => ?_⟩
    rw [← hprops p hp]
    exact hclash.2 p hp

/-! ## The checks -/

section Checks

variable {σ : Type} [GraphBackend σ] {g : σ}

/-- The nodes of a backend are kept under their ids. -/
def Keyed (g : σ) : Prop := ∀ id n, getNode g id = some n → n.id = id

lemma forM_eq_ok {α ε : Type} {f : α → Except ε Unit} {l : List α} (h : l.forM f = .ok ()) :
    ∀ a ∈ l, f a = .ok () := by
  induction l with
  | nil => simp
  | cons a l ih =>
    obtain ⟨⟨⟩, ha, hl⟩ := Except.bind_eq_ok.mp h
    intro b hb
    rcases List.mem_cons.mp hb with rfl | hb
    · exact ha
    · exact ih hl b hb

/-- The other nodes, as the checks see them. -/
lemma mem_others (hσ : NodeLaws σ) (hg : Keyed g) {m : NodeId} {n' : Node} (hn' : getNode g m = some n')
    (hgoverns : c.Governs n') {exclude : Option NodeId} (hne : exclude ≠ some m) :
    n' ∈ ConstraintManager.others g c exclude := by
  refine List.mem_filter.mpr ⟨(hσ.mem_allNodes g n').mpr ⟨m, hn'⟩, ?_⟩
  have hlabel : n'.hasLabel c.label = true := (n'.hasLabel_iff _).mpr (List.mem_of_mem_head? hgoverns)
  rw [hg m n' hn']
  simpa [hlabel] using hne

/-- A uniqueness check of one property that passes. -/
lemma not_clashes_of_single (hσ : NodeLaws σ) (hg : Keyed g) (hone : c.properties.length = 1) {value : PropertyValue}
    {exclude : Option NodeId} (hcheck : ConstraintManager.checkUniqueSingle g c value exclude = .ok ())
    (hvalue : n.getProperty (c.properties.headD "") = some value) {m : NodeId} {n' : Node}
    (hn' : getNode g m = some n') (hgoverns : c.Governs n') (hne : exclude ≠ some m) : ¬ c.Clashes n n' := by
  rintro ⟨-, hclash⟩
  obtain ⟨p, hp⟩ := List.length_eq_one_iff.mp hone
  have hhead : c.properties.headD "" = p := by
    rw [hp]
    rfl
  obtain ⟨v, hv, hv'⟩ := hclash p (hp ▸ List.mem_singleton_self p)
  rw [hhead, hv] at hvalue
  obtain rfl : v = value := Option.some.inj hvalue
  simp only [ConstraintManager.checkUniqueSingle, hhead] at hcheck
  split at hcheck
  · cases hcheck
  · rename_i hnone
    exact hnone (List.any_eq_true.mpr ⟨n', mem_others hσ hg hn' hgoverns hne, by simp [hv']⟩)

/-- A uniqueness check of several properties that passes. -/
lemma not_clashes_of_composite (hσ : NodeLaws σ) (hg : Keyed g) {properties : String → Option PropertyValue}
    {exclude : Option NodeId} (hcheck : ConstraintManager.checkUniqueComposite g c properties exclude = .ok ())
    (hproperties : ∀ p, n.getProperty p = properties p) {m : NodeId} {n' : Node} (hn' : getNode g m = some n')
    (hgoverns : c.Governs n') (hne : exclude ≠ some m) : ¬ c.Clashes n n' := by
  rintro ⟨-, hclash⟩
  unfold ConstraintManager.checkUniqueComposite at hcheck
  split at hcheck
  · rename_i hmissing
    obtain ⟨p, hp, hnone⟩ := List.any_eq_true.mp hmissing
    obtain ⟨v, hv, -⟩ := hclash p hp
    rw [← hproperties p, hv] at hnone
    cases hnone
  · split at hcheck
    · cases hcheck
    · rename_i hnone
      refine hnone (List.any_eq_true.mpr ⟨n', mem_others hσ hg hn' hgoverns hne, List.all_eq_true.mpr fun p hp => ?_⟩)
      obtain ⟨v, hv, hv'⟩ := hclash p hp
      rw [← hproperties p, hv, hv']
      exact beq_self_eq_true _

lemma fitsValue_of_typeCheck {property : String} {value : PropertyValue} {type : PropertyType}
    (htype : c.constraintType = .typeCheck type)
    (hcheck : ConstraintManager.checkTypeSingle c property value type = .ok ()) : c.FitsValue value := by
  unfold ConstraintManager.checkTypeSingle at hcheck
  split at hcheck
  · rename_i hadmits
    simpa only [FitsValue, htype] using hadmits
  · cases hcheck

/-- Only uniqueness constraints forbid pairs. -/
lemma noClash_of_ne (h : c.constraintType ≠ .unique) : c.NoClash nodes id n :=
  fun _ _ _ _ _ hclash => h hclash.1

/-- The check before a node is created. -/
lemma of_checkNodeCreate (hσ : NodeLaws σ) (hg : Keyed g) {properties : String → Option PropertyValue}
    (hcheck : ConstraintManager.checkNodeCreate g c.label properties none c = .ok ())
    (hproperties : ∀ p, n.getProperty p = properties p) (hgoverns : c.Governs n) :
    c.Fits n ∧ c.NoClash (getNode g) id n := by
  have hother : ∀ {m : NodeId}, (none : Option NodeId) ≠ some m := fun h => by cases h
  have hfree : c.constraintType = .unique → c.Fits n := by
    intro htype
    refine ⟨fun p hp v hv => ?_, fun hnull => ?_, fun required hr => ?_⟩
    · simp only [FitsValue, htype]
    all_goals simp_all
  unfold ConstraintManager.checkNodeCreate at hcheck
  rw [if_neg (fun hne => hne rfl)] at hcheck
  rcases htype : c.constraintType with _ | _ | type | required | ⟨source, target⟩ <;>
    simp only [htype] at hcheck
  · -- a uniqueness constraint
    refine ⟨hfree htype, fun m n' _ hn' hgoverns' => ?_⟩
    split at hcheck
    · rename_i hone
      split at hcheck
      · rename_i value hvalue
        exact not_clashes_of_single hσ hg hone hcheck ((hproperties _).trans hvalue) hn' hgoverns' hother
      · -- the property is missing
        rename_i hvalue
        rintro ⟨-, hclash⟩
        obtain ⟨p, hp⟩ := List.length_eq_one_iff.mp hone
        obtain ⟨v, hv, -⟩ := hclash p (hp ▸ List.mem_singleton_self p)
        rw [hp, List.headD_cons, ← hproperties p, hv] at hvalue
        cases hvalue
    · exact not_clashes_of_composite hσ hg hcheck hproperties hn' hgoverns' hother
  · have hvalue : ∀ p ∈ c.properties, ∃ v, n.getProperty p = some v ∧ v ≠ .null := by
      intro p hp
      have hp := forM_eq_ok hcheck p hp
      unfold ConstraintManager.checkNotNull at hp
      split at hp
      · cases hp
      · rename_i hnull
        rw [hproperties p]
        rcases hv : properties p with _ | v
        · rw [hv] at hnull
          exact absurd rfl hnull
        · refine ⟨v, rfl, fun hv' => hnull ?_⟩
          rw [hv, hv']
          rfl
    refine ⟨⟨fun p hp v hv => ?_, fun _ p hp => ?_, fun required hr => ?_⟩, noClash_of_ne (by simp [htype])⟩
    · obtain ⟨w, hw, hne⟩ := hvalue p hp
      rw [hw] at hv
      obtain rfl := Option.some.inj hv
      simpa only [FitsValue, htype] using hne
    · obtain ⟨w, hw, -⟩ := hvalue p hp
      rw [hw]
      rfl
    · rw [htype] at hr
      cases hr
  · refine ⟨⟨fun p hp v hv => ?_, fun hr => ?_, fun required hr => ?_⟩, noClash_of_ne (by simp [htype])⟩
    · have hp := forM_eq_ok hcheck p hp
      rw [← hproperties p, hv] at hp
      exact fitsValue_of_typeCheck htype hp
    · rw [htype] at hr
      cases hr
    · rw [htype] at hr
      cases hr
  · refine ⟨⟨fun p hp v hv => ?_, fun hr => ?_, fun required' hr => ?_⟩, noClash_of_ne (by simp [htype])⟩
    · simp only [FitsValue, htype]
    · rw [htype] at hr
      cases hr
    · rw [htype] at hr
      obtain rfl := ConstraintType.requiredLabel.inj hr
      split at hcheck
      · cases hcheck
      · rename_i hsame
        rw [not_not] at hsame
        exact hsame ▸ List.mem_of_mem_head? hgoverns
  · refine ⟨⟨fun p hp v hv => ?_, fun hr => ?_, fun required hr => ?_⟩, noClash_of_ne (by simp [htype])⟩
    · simp only [FitsValue, htype]
    · rw [htype] at hr
      cases hr
    · rw [htype] at hr
      cases hr

/-- What is known of a value before it is set. -/
def SetFits (c : Constraint) (nodes : NodeId → Option Node) (id : NodeId) (property : String × PropertyValue) : Prop :=
  ∀ n, nodes id = some n → c.Governs n → property.1 ∈ c.properties →
    c.FitsValue property.2 ∧ c.NoClash nodes id (n.setProperty property.1 property.2)

/-- The check before a property is set. -/
lemma of_checkPropertySet (hσ : NodeLaws σ) (hg : Keyed g) {property : String × PropertyValue}
    (hcheck : ∀ n, getNode g id = some n →
      ConstraintManager.checkPropertySet g n property.1 property.2 c = .ok ()) :
    SetFits c (getNode g) id property := by
  intro n hn hgoverns hmem
  have hcheck := hcheck n hn
  have hid : n.id = id := hg id n hn
  have hlabel : n.hasLabel c.label = true := (n.hasLabel_iff _).mpr (List.mem_of_mem_head? hgoverns)
  unfold ConstraintManager.checkPropertySet at hcheck
  rw [if_neg (by simp [hlabel, hmem])] at hcheck
  have hset : ∀ p, (n.setProperty property.1 property.2).getProperty p =
      ConstraintManager.updatedProps n property.1 property.2 p :=
    fun p => HashMap.lookup_insert_ite n.properties property.1 p property.2
  rcases htype : c.constraintType with _ | _ | type | required | ⟨source, target⟩ <;>
    simp only [htype] at hcheck
  · refine ⟨by simp only [FitsValue, htype], fun m n' hne hn' hgoverns' => ?_⟩
    have hother : some n.id ≠ some m := fun h => hne (hid ▸ (Option.some.inj h).symm)
    split at hcheck
    · rename_i hone
      refine not_clashes_of_single hσ hg hone hcheck ?_ hn' hgoverns' hother
      obtain ⟨p, hp⟩ := List.length_eq_one_iff.mp hone
      rw [hp, List.mem_singleton] at hmem
      rw [hp, List.headD_cons, hset, ConstraintManager.updatedProps, if_pos hmem.symm]
    · exact not_clashes_of_composite hσ hg hcheck hset hn' hgoverns' hother
  · refine ⟨?_, noClash_of_ne (by simp [htype])⟩
    split at hcheck
    · cases hcheck
    · rename_i hne
      simpa only [FitsValue, htype] using hne
  · exact ⟨fitsValue_of_typeCheck htype hcheck, noClash_of_ne (by simp [htype])⟩
  · exact ⟨by simp only [FitsValue, htype], noClash_of_ne (by simp [htype])⟩
  · exact ⟨by simp only [FitsValue, htype], noClash_of_ne (by simp [htype])⟩

end Checks

/-! ## Setting and removing properties -/

/-- The nodes after one of them changed. -/
def changed (nodes : NodeId → Option Node) (id : NodeId) (f : Node → Node) : NodeId → Option Node :=
  fun m => if m = id then (nodes id).map f else nodes m

lemma changed_of_ne {f : Node → Node} {m : NodeId} (hm : m ≠ id) : changed nodes id f m = nodes m := if_neg hm

lemma changed_eq_some {f : Node → Node} {n' : Node} (h : changed nodes id f id = some n') :
    ∃ n, nodes id = some n ∧ f n = n' := by
  rw [changed, if_pos rfl] at h
  exact Option.map_eq_some_iff.mp h

lemma HoldsOf.setProperty (h : c.HoldsOf nodes) {property : String × PropertyValue}
    (hset : SetFits c nodes id property) :
    c.HoldsOf (changed nodes id fun n => n.setProperty property.1 property.2) := by
  by_cases hmem : property.1 ∈ c.properties
  · refine h.change id (fun m => changed_of_ne) fun n' hn' hgoverns' => ?_
    obtain ⟨n, hn, rfl⟩ := changed_eq_some hn'
    obtain ⟨hvalue, hclash⟩ := hset n hn hgoverns' hmem
    have hfits := h.fits id n hn hgoverns'
    refine ⟨⟨fun p hp v hv => ?_, fun hnull p hp => ?_, hfits.label⟩, hclash⟩
    · simp only [Node.getProperty, Node.setProperty, HashMap.lookup_insert_ite] at hv
      split at hv
      · exact Option.some.inj hv ▸ hvalue
      · exact hfits.value p hp v hv
    · simp only [Node.getProperty, Node.setProperty, HashMap.lookup_insert_ite]
      split
      · rfl
      · exact hfits.present hnull p hp
  · refine h.of_similar (fun m => changed_of_ne) fun n' hn' hgoverns' => ?_
    obtain ⟨n, hn, rfl⟩ := changed_eq_some hn'
    refine ⟨n, hn, hgoverns', fun p hp => ?_, fun l hl => hl⟩
    have hne : p ≠ property.1 := fun heq => hmem (heq ▸ hp)
    simp only [Node.getProperty, Node.setProperty, HashMap.lookup_insert_ite, if_neg hne]

/-- A value that was checked can still be set after others were, unless the constraint is about several
properties together. -/
lemma SetFits.of_changed {property property' : String × PropertyValue} (h : SetFits c nodes id property)
    (hone : c.constraintType = .unique → c.properties.length = 1) :
    SetFits c (changed nodes id fun n => n.setProperty property'.1 property'.2) id property := by
  intro n' hn' hgoverns' hmem
  obtain ⟨n, hn, rfl⟩ := changed_eq_some hn'
  obtain ⟨hvalue, hclash⟩ := h n hn hgoverns' hmem
  refine ⟨hvalue, fun m n₂ hne hn₂ hgoverns₂ hclash' => ?_⟩
  rw [changed_of_ne hne] at hn₂
  refine hclash m n₂ hne hn₂ hgoverns₂ ⟨hclash'.1, fun p hp => ?_⟩
  obtain ⟨v, hv, hv'⟩ := hclash'.2 p hp
  refine ⟨v, ?_, hv'⟩
  obtain ⟨q, hq⟩ := List.length_eq_one_iff.mp (hone hclash'.1)
  rw [hq, List.mem_singleton] at hmem hp
  subst hmem hp
  simpa only [Node.getProperty, Node.setProperty, AList.lookup_insert] using hv

lemma HoldsOf.removeProperty (h : c.HoldsOf nodes) {property : String}
    (hcheck : ∀ n, nodes id = some n → ConstraintManager.checkPropertyRemove n property c = .ok ()) :
    c.HoldsOf (changed nodes id fun n => n.removeProperty property) := by
  refine h.change id (fun m => changed_of_ne) fun n' hn' hgoverns' => ?_
  obtain ⟨n, hn, rfl⟩ := changed_eq_some hn'
  have hfits := h.fits id n hn hgoverns'
  have hsub : ∀ {p v}, (n.removeProperty property).getProperty p = some v → n.getProperty p = some v := by
    intro p v hv
    simp only [Node.getProperty, Node.removeProperty, HashMap.lookup_erase_ite] at hv
    split at hv
    · cases hv
    · exact hv
  refine ⟨⟨fun p hp v hv => hfits.value p hp v (hsub hv), fun hnull p hp => ?_, hfits.label⟩,
    fun m n₂ hne hn₂ hgoverns₂ hclash => ?_⟩
  · have hlabel : n.hasLabel c.label = true := (n.hasLabel_iff _).mpr (List.mem_of_mem_head? hgoverns')
    have hne : p ≠ property := by
      rintro rfl
      have hcheck := hcheck n hn
      unfold ConstraintManager.checkPropertyRemove at hcheck
      rw [if_neg (by simp [hlabel, hp]), if_pos hnull] at hcheck
      cases hcheck
    simp only [Node.getProperty, Node.removeProperty, HashMap.lookup_erase_ite, if_neg hne]
    exact hfits.present hnull p hp
  · refine h.noClash id n hn hgoverns' m n₂ hne hn₂ hgoverns₂ ⟨hclash.1, fun p hp => ?_⟩
    obtain ⟨v, hv, hv'⟩ := hclash.2 p hp
    exact ⟨v, hsub hv, hv'⟩

/-! ## Labels -/

/-- A label other than the constrained one is added. -/
lemma HoldsOf.addLabel (h : c.HoldsOf nodes) {label : String} (hne : label ≠ c.label) :
    c.HoldsOf (changed nodes id fun n => n.addLabel label) := by
  refine h.of_similar (fun m => changed_of_ne) fun n' hn' hgoverns' => ?_
  obtain ⟨n, hn, rfl⟩ := changed_eq_some hn'
  refine ⟨n, hn, ?_, fun p hp => ?_, fun l hl => ?_⟩ <;> simp only [Node.addLabel, Governs, Node.getProperty] at hgoverns' ⊢
  · split at hgoverns'
    · rcases hlabels : n.labels with _ | ⟨l, ls⟩
      · rw [hlabels] at hgoverns'
        exact absurd (Option.some.inj hgoverns') hne
      · rw [hlabels] at hgoverns'
        exact hgoverns'
    · exact hgoverns'
  · split <;> rfl
  · split
    · exact List.mem_append_left _ hl
    · exact hl

/-- The constrained label is removed. -/
lemma HoldsOf.removeLabel (h : c.HoldsOf nodes) : c.HoldsOf (changed nodes id fun n => n.removeLabel c.label) := by
  refine h.change id (fun m => changed_of_ne) fun n' hn' hgoverns' => ?_
  obtain ⟨n, -, rfl⟩ := changed_eq_some hn'
  have hmem := List.mem_of_mem_head? hgoverns'
  simp [Node.removeLabel] at hmem

/-- The updates that keep the constraint: the label of the constraint is not added, and no other one is removed;
`SET +=` sets one property only under a uniqueness constraint of several; the constraint is not created anew. -/
def Allows (c : Constraint) : Update → Prop
  | .set (.property _ _ _) => True
  | .set (.mergeProperties _ properties) =>
      c.constraintType = .unique → c.properties.length = 1 ∨ properties.length ≤ 1
  | .set (.addLabel _ label) => label ≠ c.label
  | .remove (.property _ _) => True
  | .remove (.label _ label) => label = c.label
  | .constrain cc => ⟨cc.name, cc.label, cc.properties, cc.constraintType.toType⟩ ≠ c

end Constraint

/-! ## Statements -/

section Executor

variable {σ : Type} [GraphBackend σ] {c : Constraint} {x x' : Executor σ}

/-- Checking is on, and if the constraint is registered it holds. -/
structure Enforced (c : Constraint) (x : Executor σ) : Prop where
  enabled : x.constraints.enabled = true
  keyed : Constraint.Keyed x.graph
  holds : x.constraints.constraints.lookup c.name = some c → c.HoldsOf (getNode x.graph)

/-- A step that keeps the constraint enforced. -/
def KeepsEnforced (c : Constraint) (x x' : Executor σ) : Prop := Enforced c x → Enforced c x'

instance : Std.Refl (KeepsEnforced (σ := σ) c) := ⟨fun _ h => h⟩

instance : IsTrans (Executor σ) (KeepsEnforced c) := ⟨fun _ _ _ h h' hx => h' (h hx)⟩

/-- A step that keeps the nodes and the constraints. -/
lemma KeepsEnforced.of_same (hnodes : getNode x'.graph = getNode x.graph) (hconstraints : x'.constraints = x.constraints) :
    KeepsEnforced c x x' := by
  intro h
  refine ⟨hconstraints ▸ h.enabled, fun id n hn => h.keyed id n ?_, fun hc => ?_⟩
  · rw [← hnodes]
    exact hn
  · rw [hnodes]
    exact h.holds (hconstraints ▸ hc)

/-- A step that changes one node. -/
lemma KeepsEnforced.of_changed {id : NodeId} {f : Node → Node}
    (hnodes : getNode x'.graph = Constraint.changed (getNode x.graph) id f) (hid : ∀ n, (f n).id = n.id)
    (hconstraints : x'.constraints = x.constraints)
    (hholds : Enforced c x → x.constraints.constraints.lookup c.name = some c →
      c.HoldsOf (Constraint.changed (getNode x.graph) id f)) : KeepsEnforced c x x' := by
  intro h
  refine ⟨hconstraints ▸ h.enabled, fun m n hn => ?_, fun hc => ?_⟩
  · rw [hnodes] at hn
    by_cases hm : m = id
    · subst hm
      obtain ⟨n', hn', rfl⟩ := Constraint.changed_eq_some hn
      exact (hid n').trans (h.keyed m n' hn')
    · rw [Constraint.changed_of_ne hm] at hn
      exact h.keyed m n hn
  · rw [hnodes]
    exact hholds h (hconstraints ▸ hc)

/-- A check of the registered constraints that passes. -/
lemma check_of_validate {m : ConstraintManager} {check : Constraint → Except ConstraintError Unit}
    (henabled : m.enabled = true) (hc : m.constraints.lookup c.name = some c) (h : m.validate check = .ok ()) :
    check c = .ok () := by
  rw [ConstraintManager.validate, if_pos henabled] at h
  refine Constraint.forM_eq_ok h c (List.mem_map.mpr ⟨⟨c.name, c⟩, ?_, rfl⟩)
  exact AList.mem_lookup_iff.mp hc

omit [GraphBackend σ] in
/-- What is done after a check. -/
lemma within_validate {R : Executor σ → Executor σ → Prop} [Std.Refl R] {α : Type}
    {check : Executor σ → Except ConstraintError Unit} {m : Exec σ α} (hm : ∀ x, check x = .ok () → R x (m x).1) :
    Within R (Exec.validate check >>= fun _ => m) := by
  refine Within.read_bind fun x _ hread => hm x ?_
  rcases hcheck : check x with e | _
  · rw [hcheck] at hread
    cases hread
  · rfl

omit [GraphBackend σ] in
/-- Checks one after the other. -/
lemma forM_validate {α : Type} (check : α → Executor σ → Except ConstraintError Unit) (l : List α) :
    (l.forM fun a => Exec.validate (check a)) = (Exec.validate fun x => l.forM fun a => check a x : Exec σ Unit) := by
  induction l with
  | nil => rfl
  | cons a l ih =>
    funext x
    have hrun : ((a :: l).forM fun a => Exec.validate (check a)) x =
        (Exec.validate (check a) >>= fun _ => l.forM fun a => Exec.validate (check a)) x := rfl
    have hcons : (a :: l).forM (fun a => check a x) = (check a x).bind fun _ => l.forM fun a => check a x := rfl
    have hall : (Exec.validate fun x => (a :: l).forM fun a => check a x : Exec σ Unit) x =
        (x, ((a :: l).forM fun a => check a x).mapError .constraintError) := rfl
    rw [hrun, ih, hall, hcons]
    simp only [Exec.validate, Stateful.read, bind]
    rcases check a x with e | _ <;> rfl

variable (hσ : NodeLaws σ) {M : Semantics σ}

include hσ

lemma nodes_assignNodeProperty (id : NodeId) (property : String × PropertyValue) (x : Executor σ) :
    getNode (assignNodeProperty id property x).1.graph =
        Constraint.changed (getNode x.graph) id (fun n => n.setProperty property.1 property.2) ∧
      (assignNodeProperty id property x).1.constraints = x.constraints := by
  have hgraph : (assignNodeProperty id property x).1.graph =
      setNodeProperty x.graph id property.1 property.2 := by
    change (reindexNodeProperty id property.1 _ (some property.2) _).graph = _
    unfold reindexNodeProperty
    split
    · rfl
    · split <;> rfl
  have hconstraints : (assignNodeProperty id property x).1.constraints = x.constraints := by
    change (reindexNodeProperty id property.1 _ (some property.2) _).constraints = _
    unfold reindexNodeProperty
    split
    · rfl
    · split <;> rfl
  refine ⟨?_, hconstraints⟩
  rw [hgraph]
  funext m
  exact hσ.setProperty x.graph id property.1 property.2 m

/-- Setting properties of a node whose values were checked before. -/
lemma keepsEnforced_assign {id : NodeId} (properties : List (String × PropertyValue))
    (hmany : c.constraintType = .unique → c.properties.length = 1 ∨ properties.length ≤ 1)
    (hset : Enforced c x → x.constraints.constraints.lookup c.name = some c →
      ∀ property ∈ properties, Constraint.SetFits c (getNode x.graph) id property) :
    KeepsEnforced c x ((properties.forM (assignNodeProperty id) : Exec σ Unit) x).1 := by
  induction properties generalizing x with
  | nil => exact refl_of (KeepsEnforced c) x
  | cons property properties ih =>
    obtain ⟨hnodes, hconstraints⟩ := nodes_assignNodeProperty hσ id property x
    have hfirst : KeepsEnforced c x (assignNodeProperty id property x).1 := by
      refine .of_changed hnodes (fun n => rfl) hconstraints fun hx hc => ?_
      exact (hx.holds hc).setProperty (hset hx hc property List.mem_cons_self)
    intro hx
    have hrest : KeepsEnforced c (assignNodeProperty id property x).1
        ((properties.forM (assignNodeProperty id) : Exec σ Unit) (assignNodeProperty id property x).1).1 := by
      refine ih (fun hunique => (hmany hunique).imp (fun hone => hone) fun hle => ?_) fun _ hc property' hmem => ?_
      · exact Nat.le_of_succ_le hle
      · rw [hnodes]
        rw [hconstraints] at hc
        refine (hset hx hc property' (List.mem_cons_of_mem _ hmem)).of_changed fun hunique => ?_
        rcases hmany hunique with hone | hle
        · exact hone
        · have hnone : properties = [] := List.eq_nil_of_length_eq_zero (Nat.le_zero.mp (Nat.le_of_succ_le_succ hle))
          rw [hnone] at hmem
          cases hmem
    exact hrest (hfirst hx)

/-- The check of a property, as the constraint sees it. -/
lemma setFits_of_validate {id : NodeId} {property : String × PropertyValue} (hx : Enforced c x)
    (hc : x.constraints.constraints.lookup c.name = some c)
    (hcheck : (match getNode x.graph id with
      | some n => x.constraints.validatePropertySet x.graph n property.1 property.2
      | none => .ok ()) = .ok ()) : Constraint.SetFits c (getNode x.graph) id property := by
  refine Constraint.of_checkPropertySet hσ hx.keyed fun n hn => ?_
  rw [hn] at hcheck
  exact check_of_validate hx.enabled hc hcheck

lemma keepsEnforced_applySetItem (b : Bindings) (item : SetItem) (hitem : c.Allows (.set item)) :
    Within (KeepsEnforced c) (applySetItem M b item) := by
  have hedge : ∀ id property, Within (KeepsEnforced (σ := σ) c) (assignEdgeProperty id property) :=
    fun id property x => .of_same (hσ.setEdgeProperty x.graph id property.1 property.2) rfl
  rcases item with ⟨name, property, e⟩ | ⟨name, properties⟩ | ⟨name, label⟩
  · refine (within_boundTo b name).bind fun bound => (Within.read _).bind fun value => ?_
    rcases bound with id | id | _ | _
    · refine within_validate fun x hcheck => ?_
      exact keepsEnforced_assign hσ [(property, value)] (fun _ => .inr le_rfl)
        fun hx hc property' hmem => List.mem_singleton.mp hmem ▸ setFits_of_validate hσ hx hc hcheck
    · exact hedge id _
    all_goals exact Within.fail _
  · refine (within_boundTo b name).bind fun bound => (within_evaluateProperties M properties b).bind_of fun y values hvalues => ?_
    have hlength : values.length = properties.length := length_of_mapList hvalues
    rcases bound with id | id | _ | _
    · have hchecks : values.forM (validateSet (σ := σ) id) = Exec.validate fun x => values.forM fun property =>
          match getNode x.graph id with
          | some n => x.constraints.validatePropertySet x.graph n property.1 property.2
          | none => .ok () := forM_validate _ values
      simp only [hchecks]
      refine within_validate fun x hcheck => ?_
      refine keepsEnforced_assign hσ values (fun hunique => ?_) fun hx hc property hmem => ?_
      · rw [hlength]
        exact hitem hunique
      · exact setFits_of_validate hσ hx hc (Constraint.forM_eq_ok hcheck property hmem)
    · exact Within.forM (hedge id) values
    all_goals exact Within.fail _
  · refine (within_boundTo b name).bind fun bound => ?_
    rcases bound with id | id | _ | _
    · intro x
      change KeepsEnforced c x { x with graph := addNodeLabel x.graph id label }
      refine .of_changed (f := fun n => n.addLabel label)
        (funext fun m => hσ.addLabel x.graph id label m) (fun n => ?_) rfl fun hx hc => (hx.holds hc).addLabel hitem
      unfold Node.addLabel
      split <;> rfl
    all_goals exact Within.fail _

lemma keepsEnforced_applyRemoveItem (b : Bindings) (item : RemoveItem) (hitem : c.Allows (.remove item)) :
    Within (KeepsEnforced c) (applyRemoveItem b item : Exec σ Unit) := by
  rcases item with ⟨name, property⟩ | ⟨name, label⟩
  · refine (within_boundTo b name).bind fun bound => ?_
    rcases bound with id | id | _ | _
    · refine within_validate fun x hcheck => ?_
      let x₁ : Executor σ := { x with graph := (removeNodeProperty x.graph id property).1 }
      have hremoved : KeepsEnforced c x x₁ := by
        refine .of_changed (f := fun n => n.removeProperty property)
          (funext fun m => hσ.removeProperty x.graph id property m) (fun n => rfl) rfl fun hx hc => ?_
        refine (hx.holds hc).removeProperty fun n hn => ?_
        rw [hn] at hcheck
        exact check_of_validate hx.enabled hc hcheck
      have hindexed : ∀ old, KeepsEnforced c x₁ (reindexNodeProperty id property old none x₁) := by
        intro old
        refine .of_same ?_ ?_
        all_goals
          unfold reindexNodeProperty
          split
          · rfl
          · split <;> rfl
      rw [bind_apply]
      simp only [Exec.onGraph]
      rcases (removeNodeProperty x.graph id property).2 with _ | old
      · exact hremoved
      · exact fun hx => hindexed (some old) (hremoved hx)
    · refine Within.bind (m := Exec.onGraph fun g => removeEdgeProperty g id property) (fun x => ?_) fun _ => Within.pure ()
      exact .of_same (hσ.removeEdgeProperty x.graph id property) rfl
    all_goals exact Within.fail _
  · obtain rfl : label = c.label := hitem
    simp only [applyRemoveItem]
    split
    · next id _ =>
      intro x
      change KeepsEnforced c x { x with graph := removeNodeLabel x.graph id c.label }
      exact .of_changed (f := fun n => n.removeLabel c.label) (funext fun m => hσ.removeLabel x.graph id c.label m)
        (fun n => rfl) rfl fun hx hc => (hx.holds hc).removeLabel
    · exact Within.fail _

/-! ### New nodes -/

/-- The nodes after the properties of a new node are set. -/
lemma getNode_foldl_setNodeProperty (g : σ) (id : NodeId) (properties : List (String × PropertyValue)) (m : NodeId) :
    getNode (properties.foldl (fun g e => setNodeProperty g id e.1 e.2) g) m =
      if m = id then (getNode g id).map fun n =>
        { n with properties := properties.foldl (fun p e => p.insert e.1 e.2) n.properties }
      else getNode g m := by
  induction properties generalizing g with
  | nil =>
    by_cases hm : m = id
    · subst hm
      simp
    · simp [hm]
  | cons e properties ih =>
    rw [List.foldl_cons, ih, hσ.setProperty, hσ.setProperty, if_pos rfl]
    by_cases hm : m = id
    · simp only [hm, if_true, Option.map_map]
      rfl
    · simp only [hm, if_false]

omit hσ in
/-- The executor after the properties of a new node are set. -/
lemma foldl_setNodeProperty (id : NodeId) (properties : List (String × PropertyValue)) (x : Executor σ) :
    properties.foldl (fun (x : Executor σ) (e : String × PropertyValue) =>
        { x with graph := setNodeProperty x.graph id e.1 e.2 }) x =
      { x with graph := properties.foldl (fun g e => setNodeProperty g id e.1 e.2) x.graph } := by
  induction properties generalizing x with
  | nil => rfl
  | cons e properties ih => exact ih _

/-- A node with properties is stored. -/
lemma keepsEnforced_stored {labels : List String} {properties : List (String × PropertyValue)} {g : σ}
    (hg : g = properties.foldl (fun g e => setNodeProperty g (createNodeWithLabels x.graph labels).2 e.1 e.2)
      (createNodeWithLabels x.graph labels).1)
    (hgraph : x'.graph = g) (hconstraints : x'.constraints = x.constraints)
    (hcheck : x.constraints.validateNodeCreate x.graph (labels.headD "") (propertiesOf properties).lookup none = .ok ()) :
    KeepsEnforced c x x' := by
  have hnodes : ∀ m, getNode x'.graph m = if m = (createNodeWithLabels x.graph labels).2 then
      some ⟨(createNodeWithLabels x.graph labels).2, labels, propertiesOf properties⟩
      else getNode x.graph m := by
    intro m
    rw [hgraph, hg, getNode_foldl_setNodeProperty hσ, hσ.create, hσ.create, if_pos rfl]
    split <;> rfl
  intro hx
  refine ⟨hconstraints ▸ hx.enabled, fun m n hn => ?_, fun hc => ?_⟩
  · rw [hnodes] at hn
    split at hn
    · rename_i hm
      obtain rfl := Option.some.inj hn
      exact hm.symm
    · exact hx.keyed m n hn
  · rw [hconstraints] at hc
    refine (hx.holds hc).change (createNodeWithLabels x.graph labels).2 (fun m hm => ?_) fun n hn hgoverns => ?_
    · rw [hnodes, if_neg hm]
    · rw [hnodes, if_pos rfl] at hn
      obtain rfl := Option.some.inj hn
      have hlabel : labels.headD "" = c.label := by
        rw [List.headD_eq_head?_getD, show labels.head? = some c.label from hgoverns]
        rfl
      rw [hlabel] at hcheck
      exact Constraint.of_checkNodeCreate hσ hx.keyed (check_of_validate hx.enabled hc hcheck) (fun p => rfl) hgoverns

lemma keepsEnforced_createNode (A : TextAnalysis) (p : NodePattern Expression) (b : Bindings) :
    Within (KeepsEnforced c) (createNode A M p b) := by
  refine (within_evaluateProperties M p.properties b).bind fun properties => within_validate fun x hcheck => ?_
  rw [bind_apply]
  simp only [Exec.onGraph]
  rw [bind_apply, forM_modify, foldl_setNodeProperty]
  exact keepsEnforced_stored hσ rfl rfl rfl hcheck

/-! ### The steps of a statement -/

lemma keepsEnforced_createHopEdge (p : EdgePattern Expression) (prev next : NodeId) (b : Bindings) :
    Within (KeepsEnforced c) (createHopEdge M p prev next b) := by
  unfold createHopEdge
  rcases p.direction with _ | _ | _
  all_goals
    refine Within.bind (m := Exec.validate _) (Within.read _) fun _ => ?_
    refine Within.bind (m := Exec.onGraph fun g => createEdge g _ _ _) (fun x => ?_) fun _ => ?_
    · exact .of_same (hσ.createEdge x.graph _ _ _) rfl
    · refine (Within.read _).bind fun id => (within_evaluateProperties M p.properties b).bind fun properties => ?_
      refine (Within.forM (fun property => ?_) properties).bind fun _ => Within.pure _
      exact fun x => .of_same (hσ.setEdgeProperty x.graph id property.1 property.2) rfl

lemma keepsEnforced_deleteNodeOf (detach : Bool) (id : NodeId) :
    Within (KeepsEnforced c) (deleteNodeOf detach id : Exec σ Bool) := by
  intro x
  unfold deleteNodeOf
  split
  · exact refl_of (KeepsEnforced c) x
  · have hnodes : ∀ m, getNode (deleteNode x.graph id).1 m = if m = id then none else getNode x.graph m :=
      hσ.delete x.graph id
    refine fun hx => ⟨hx.enabled, fun m n hn => ?_, fun hc => ?_⟩
    · rw [hnodes] at hn
      split at hn
      · cases hn
      · exact hx.keyed m n hn
    · refine (hx.holds hc).change id (fun m hm => ?_) fun n hn _ => ?_
      · rw [hnodes, if_neg hm]
      · rw [hnodes, if_pos rfl] at hn
        cases hn

omit hσ in
lemma keepsEnforced_createConstraint (cc : CreateConstraintStatement) (hcc : c.Allows (.constrain cc)) :
    Within (KeepsEnforced c) (executeCreateConstraint cc : Exec σ ResultSet) := by
  intro x hx
  unfold executeCreateConstraint ConstraintManager.createConstraint
  by_cases hname : cc.name ∈ x.constraints.constraints
  · rw [if_pos hname]
    exact hx
  · rw [if_neg hname]
    refine ⟨hx.enabled, hx.keyed, fun hc => ?_⟩
    simp only [HashMap.lookup_insert_ite] at hc
    split at hc
    · exact absurd (Option.some.inj hc) hcc
    · exact hx.holds hc

omit hσ in
lemma keepsEnforced_dropConstraint (name : String) :
    Within (KeepsEnforced c) (executeDropConstraint name : Exec σ ResultSet) := by
  intro x hx
  unfold executeDropConstraint ConstraintManager.dropConstraint
  by_cases hname : name ∈ x.constraints.constraints
  · rw [if_pos hname]
    refine ⟨hx.enabled, hx.keyed, fun hc => ?_⟩
    simp only [HashMap.lookup_erase_ite] at hc
    split at hc
    · cases hc
    · exact hx.holds hc
  · rw [if_neg hname]
    exact hx

/-- The steps of a statement keep the constraint. -/
lemma stepRules_keepsEnforced (A : TextAnalysis) : StepRules A M (KeepsEnforced c) c.Allows where
  hints _ _ := .of_same rfl rfl
  fulltext _ _ := .of_same rfl rfl
  createNode := keepsEnforced_createNode hσ A
  createHopEdge := keepsEnforced_createHopEdge hσ
  applySetItem := keepsEnforced_applySetItem hσ
  applyRemoveItem := keepsEnforced_applyRemoveItem hσ
  deleteEdge id x := .of_same (hσ.deleteEdge x.graph id) rfl
  deleteNodeOf := keepsEnforced_deleteNodeOf hσ
  createConstraint := keepsEnforced_createConstraint
  deleteIndexedNode := within_deleteIndexedNode (keepsEnforced_deleteNodeOf hσ) fun _ _ => .of_same rfl rfl
  dropConstraint := keepsEnforced_dropConstraint
  createIndex _ _ _ := .of_same rfl rfl
  dropIndex _ _ _ := .of_same rfl rfl

end Executor

/-- **Constraints hold along statements.**  Statements with allowed updates keep a constraint that holds, one
after the other, also where they fail half-way. -/
theorem constraint_enforced (J : JsonText) (A : TextAnalysis) (M : Semantics (RecordingGraph J)) (P : Planner)
    (c : Constraint) {x : Executor (RecordingGraph J)} (hx : Enforced c x) (statements : List Statement)
    (hupdates : ∀ s ∈ statements, ∀ u ∈ s.updates, c.Allows u) :
    Enforced c (statements.foldl (fun x s => (execute A M P s x).1) x) := by
  induction statements generalizing x with
  | nil => exact hx
  | cons s statements ih =>
    have hrules : StepRules A M (KeepsEnforced c) c.Allows := stepRules_keepsEnforced RecordingGraph.nodeLaws A
    have hfirst : Enforced c (execute A M P s x).1 :=
      hrules.execute P s (hupdates s List.mem_cons_self) x hx
    exact ih hfirst fun s' hs' => hupdates s' (List.mem_cons_of_mem _ hs')

/-- No two nodes `:Person` have the same name. -/
def uniqueName : Constraint := ⟨"unique_name", "Person", ["name"], .unique⟩

/-- The statement `CREATE (:Person:Admin {name: ..})`. -/
def createNamed (name : String) : Statement :=
  .create [.node ⟨none, ["Person", "Admin"], [("name", .literal (.string name))]⟩]

/-- An executor on the empty graph, with one constraint. -/
def constrainedExecutor : Executor (RecordingGraph (sampleEnv false).J) where
  graph := .new _ .new true
  constraints := { ConstraintManager.new with constraints := (∅ : HashMap String Constraint).insert "unique_name" uniqueName }
  fulltext := .new
  propertyIndex := .new
  rangeHints := []
  params := ∅

/-- The second `a` is refused. -/
theorem constraint_enforced_unique :
    let x := [createNamed "a", createNamed "a", createNamed "b"].foldl
      (fun x s => (execute plainAnalysis (sampleEnv false).writes plainPlanner s x).1) constrainedExecutor
    x.graph.graph.nodes.entries.length = 2 ∧ Enforced uniqueName x := by
  intro x
  have hcount : x.graph.graph.nodes.entries.length = 2 := by decide +kernel
  refine ⟨hcount, constraint_enforced _ plainAnalysis (sampleEnv false).writes plainPlanner uniqueName ?_ _ ?_⟩
  · refine ⟨rfl, fun id n hn => ?_, fun _ => ⟨fun id n hn => ?_, fun id n hn => ?_⟩⟩ <;> cases hn
  · intro s hs u hu
    simp only [List.mem_cons, List.not_mem_nil, or_false] at hs
    rcases hs with rfl | rfl | rfl <;> cases hu

end Maharit
