import MaharitDb.Core.PropertyIndexRanges
import MaharitDb.Server.ConstraintRuns

/-!
# Property indexes follow the graph

The executor enters and takes out the values of an index as it writes, each kind of statement in code of its
own.  A node whose first label is indexed is then found under the value it has, also by the range index when
the value is an integer: after any statements, failed ones included, that move no other node under the label.
-/

namespace Maharit

open Stateful GraphBackend PropertyIndex

/-! ## The entries -/

namespace PropertyIndex

variable {ix : PropertyIndex} {triples : Set Triple}

@[simp] lemma definitions_indexProperty (ix : PropertyIndex) (id : NodeId) (property : String)
    (value : PropertyValue) : (ix.indexProperty id property value).definitions = ix.definitions := by
  rcases value <;> rfl

@[simp] lemma definitions_removeEntry (ix : PropertyIndex) (id : NodeId) (property : String)
    (value : PropertyValue) : (ix.removeEntry id property value).definitions = ix.definitions := by
  rcases value <;> rfl

@[simp] lemma definitions_unindexProperty (ix : PropertyIndex) (id : NodeId) (property : String)
    (value : PropertyValue) : (ix.unindexProperty id property value).definitions = ix.definitions := by
  simp [unindexProperty]

@[simp] lemma definitions_removeNode (ix : PropertyIndex) (id : NodeId) :
    (ix.removeNode id).definitions = ix.definitions := by
  have hfold : ∀ (keys : List PropertyKey) (ix : PropertyIndex),
      (keys.foldl (fun ix key => removeEntry ix id key.1 key.2) ix).definitions = ix.definitions := by
    intro keys
    induction keys with
    | nil => exact fun _ => rfl
    | cons key keys ih => exact fun ix => (ih _).trans (definitions_removeEntry ix id key.1 key.2)
  unfold removeNode
  split
  · rfl
  · exact hfold _ _

/-- An index that is listed is one that the executor keeps up to date. -/
lemma hasIndex_of_lookup {d : IndexDefinition} (h : ix.definitions.lookup d.key = some d) :
    ix.hasIndex d.label d.property = true :=
  decide_eq_true (AList.lookup_isSome.mp (Option.isSome_of_eq_some h))

/-- What a loop enters. -/
lemma Describes.foldl_index {α : Type} {step : PropertyIndex → α → PropertyIndex} (entry : α → Option Triple)
    {definitions : HashMap String IndexDefinition}
    (hstep : ∀ ix a, ix.definitions = definitions → (entry a = none → step ix a = ix) ∧
      ∀ t, entry a = some t → step ix a = ix.indexProperty t.1 t.2.1 t.2.2)
    (l : List α) (h : ix.Describes triples) (hdefinitions : ix.definitions = definitions) :
    ∃ triples', (l.foldl step ix).Describes triples' ∧ (l.foldl step ix).definitions = definitions ∧
      triples ⊆ triples' ∧ ∀ a ∈ l, ∀ t, entry a = some t → t ∈ triples' := by
  induction l generalizing ix triples with
  | nil => exact ⟨triples, h, hdefinitions, Set.Subset.rfl, by simp⟩
  | cons a l ih =>
    obtain ⟨hnone, hsome⟩ := hstep ix a hdefinitions
    rw [List.foldl_cons]
    rcases hentry : entry a with _ | t
    · rw [hnone hentry]
      obtain ⟨triples', hall, hdefs, hsub, hmem⟩ := ih h hdefinitions
      refine ⟨triples', hall, hdefs, hsub, fun b hb u hu => ?_⟩
      rcases List.mem_cons.mp hb with rfl | hb
      · rw [hentry] at hu
        cases hu
      · exact hmem b hb u hu
    · rw [hsome t hentry]
      obtain ⟨triples', hall, hdefs, hsub, hmem⟩ := ih (h.indexProperty t.1 t.2.1 t.2.2)
        ((definitions_indexProperty ..).trans hdefinitions)
      refine ⟨triples', hall, hdefs, (Set.subset_insert _ _).trans hsub, fun b hb u hu => ?_⟩
      rcases List.mem_cons.mp hb with rfl | hb
      · obtain rfl := Option.some.inj (hentry.symm.trans hu)
        exact hsub (Set.mem_insert _ _)
      · exact hmem b hb u hu

/-- A value that is entered is found, an integer in every range around it too. -/
lemma Describes.found (h : ix.Describes triples) {id : NodeId} {property : String} {value : PropertyValue}
    (hmem : (id, property, value) ∈ triples) :
    id ∈ ix.findByProperty property value ∧
      ∀ n lo hi, value = .int n → lo ≤ n → n ≤ hi → id ∈ ix.findByIntRange property lo hi := by
  refine ⟨(HashSet.mem_toList _ _).mpr ((h id (.exact (property, value))).mpr hmem), ?_⟩
  rintro n lo hi rfl hlo hhi
  have hslot : id ∈ HashMap.getDefault (HashMap.getDefault ix.intRangeIndex property) n :=
    (h id (.int property n)).mpr hmem
  have hbetween : (decide (lo ≤ n) && decide (n ≤ hi)) = true := by
    rw [decide_eq_true hlo, decide_eq_true hhi, Bool.and_self]
  exact (PropertyIndex.mem_nodesIn (p := fun k => decide (lo ≤ k) && decide (k ≤ hi))).mpr ⟨n, hbetween, hslot⟩

end PropertyIndex

/-! ## The index on a property of a label -/

/-- The update moves no other node under the label: only the first label of a node is indexed, and an index is
not told when a label comes or goes. -/
def Update.MovesNoneTo (label : String) : Update → Prop
  | .set (.addLabel _ added) => added ≠ label
  | .remove (.label _ removed) => removed = label
  | _ => True

namespace IndexDefinition

/-- The triples contain the values of the nodes under the label. -/
def Covers (d : IndexDefinition) (nodes : NodeId → Option Node) (triples : Set Triple) : Prop :=
  ∀ id n value, nodes id = some n → n.labels.head? = some d.label → n.getProperty d.property = some value →
    (id, d.property, value) ∈ triples

/-- The index is up to date as long as it is listed. -/
structure Follows (d : IndexDefinition) (nodes : NodeId → Option Node) (ix : PropertyIndex) : Prop where
  keyed : ∀ id n, nodes id = some n → n.id = id
  entries : ∃ triples, ix.Describes triples ∧ (ix.definitions.lookup d.key = some d → d.Covers nodes triples)

end IndexDefinition

namespace Executor

variable {σ : Type} [GraphBackend σ] {d : IndexDefinition} {x x' : Executor σ}

/-- A step that keeps the index up to date. -/
def KeepsFollowed (d : IndexDefinition) (x x' : Executor σ) : Prop :=
  d.Follows (getNode x.graph) x.propertyIndex → d.Follows (getNode x'.graph) x'.propertyIndex

instance : Std.Refl (KeepsFollowed (σ := σ) d) := ⟨fun _ h => h⟩

instance : IsTrans (Executor σ) (KeepsFollowed d) := ⟨fun _ _ _ h h' hx => h' (h hx)⟩

/-- A step that keeps the nodes and the indexes. -/
lemma KeepsFollowed.of_same (hnodes : getNode x'.graph = getNode x.graph)
    (hindex : x'.propertyIndex = x.propertyIndex) : KeepsFollowed d x x' := by
  intro h
  obtain ⟨triples, hdescribes, hcovers⟩ := h.entries
  refine ⟨fun id n hn => h.keyed id n ?_, triples, ?_, ?_⟩
  · rw [← hnodes]
    exact hn
  · rw [hindex]
    exact hdescribes
  · rw [hindex, hnodes]
    exact hcovers

/-- A step that changes one node, and enters in the index what the node then has. -/
lemma KeepsFollowed.of_changed {id : NodeId} {f : Node → Node}
    (hnodes : getNode x'.graph = Constraint.changed (getNode x.graph) id f) (hid : ∀ n, (f n).id = n.id)
    (hdefinitions : x'.propertyIndex.definitions = x.propertyIndex.definitions)
    (hentries : ∀ triples, x.propertyIndex.Describes triples → ∃ triples', x'.propertyIndex.Describes triples' ∧
      (∀ t ∈ triples, t.1 ≠ id → t ∈ triples') ∧
      (x.propertyIndex.definitions.lookup d.key = some d → ∀ n value, getNode x.graph id = some n →
        (f n).labels.head? = some d.label → (f n).getProperty d.property = some value →
        (n.labels.head? = some d.label → n.getProperty d.property = some value →
          (id, d.property, value) ∈ triples) → (id, d.property, value) ∈ triples')) : KeepsFollowed d x x' := by
  intro h
  obtain ⟨triples, hdescribes, hcovers⟩ := h.entries
  obtain ⟨triples', hdescribes', hothers, hown⟩ := hentries triples hdescribes
  refine ⟨fun m n hn => ?_, triples', hdescribes', fun hd m n value hn hlabel hvalue => ?_⟩
  · rw [hnodes] at hn
    by_cases hm : m = id
    · subst hm
      obtain ⟨n', hn', rfl⟩ := Constraint.changed_eq_some hn
      exact (hid n').trans (h.keyed m n' hn')
    · rw [Constraint.changed_of_ne hm] at hn
      exact h.keyed m n hn
  · rw [hdefinitions] at hd
    rw [hnodes] at hn
    by_cases hm : m = id
    · subst hm
      obtain ⟨n', hn', rfl⟩ := Constraint.changed_eq_some hn
      exact hown hd n' value hn' hlabel hvalue (hcovers hd m n' value hn')
    · rw [Constraint.changed_of_ne hm] at hn
      exact hothers _ (hcovers hd m n value hn hlabel hvalue) hm

/-! ### Reindexing a property -/

/-- Reindexing takes at most the old value out, and enters the new one where there is an index. -/
lemma describes_reindex (id : NodeId) (property : String) (old new : Option PropertyValue) (x : Executor σ)
    {triples : Set Triple} (h : x.propertyIndex.Describes triples) :
    ∃ triples', (reindexNodeProperty id property old new x).propertyIndex.Describes triples' ∧
      (∀ t ∈ triples, t.1 ≠ id ∨ t.2.1 ≠ property → t ∈ triples') ∧
      ∀ n value, getNode x.graph id = some n → x.propertyIndex.hasIndex n.primaryLabel property = true →
        new = some value → (id, property, value) ∈ triples' := by
  unfold reindexNodeProperty
  rcases hn : getNode x.graph id with _ | n
  · exact ⟨triples, h, fun t ht _ => ht, by simp⟩
  · dsimp only
    by_cases hindex : x.propertyIndex.hasIndex n.primaryLabel property = true
    · rw [if_pos hindex]
      obtain ⟨removed, hdescribes, hkept⟩ : ∃ removed,
          (old.elim x.propertyIndex (x.propertyIndex.unindexProperty id property)).Describes removed ∧
            ∀ t ∈ triples, t.1 ≠ id ∨ t.2.1 ≠ property → t ∈ removed := by
        rcases old with _ | value
        · exact ⟨triples, h, fun t ht _ => ht⟩
        · refine ⟨_, h.unindexProperty id property value, fun t ht hne => ⟨ht, ?_⟩⟩
          rintro rfl
          rcases hne with hne | hne <;> exact hne rfl
      rcases new with _ | value
      · refine ⟨removed, ?_, hkept, by simp⟩
        rcases old with _ | old <;> exact hdescribes
      · refine ⟨insert (id, property, value) removed, ?_,
          fun t ht hne => Set.mem_insert_of_mem _ (hkept t ht hne), fun _ value' _ _ hvalue => ?_⟩
        · rcases old with _ | old <;> exact hdescribes.indexProperty id property value
        obtain rfl := Option.some.inj hvalue
        exact Set.mem_insert _ _
    · rw [if_neg hindex]
      refine ⟨triples, h, fun t ht _ => ht, fun n' value hn' hindex' _ => ?_⟩
      obtain rfl := Option.some.inj hn'
      exact absurd hindex' hindex

lemma reindexNodeProperty_frame (id : NodeId) (property : String) (old new : Option PropertyValue)
    (x : Executor σ) : (reindexNodeProperty id property old new x).graph = x.graph ∧
      (reindexNodeProperty id property old new x).propertyIndex.definitions = x.propertyIndex.definitions := by
  unfold reindexNodeProperty
  split
  · exact ⟨rfl, rfl⟩
  · split
    · refine ⟨rfl, ?_⟩
      rcases old with _ | old <;> rcases new with _ | new <;> simp
    · exact ⟨rfl, rfl⟩

lemma primaryLabel_of_head {n : Node} {label : String} (h : n.labels.head? = some label) :
    n.primaryLabel = label := by
  rw [Node.primaryLabel, List.headD_eq_head?_getD, h]
  rfl

variable (hσ : NodeLaws σ) {M : Semantics σ}

include hσ

/-! ### `SET` and `REMOVE` -/

lemma keepsFollowed_assign (id : NodeId) (property : String × PropertyValue) (x : Executor σ) :
    KeepsFollowed d x (assignNodeProperty id property x).1 := by
  let x₁ : Executor σ := { x with graph := setNodeProperty x.graph id property.1 property.2 }
  have hnodes₁ : getNode x₁.graph = Constraint.changed (getNode x.graph) id
      fun n => n.setProperty property.1 property.2 :=
    funext fun m => hσ.setProperty x.graph id property.1 property.2 m
  obtain ⟨hgraph, hdefinitions⟩ := reindexNodeProperty_frame id property.1
    (getNodeProperty x.graph id property.1) (some property.2) x₁
  refine .of_changed (f := fun n => n.setProperty property.1 property.2) ((congrArg getNode hgraph).trans hnodes₁)
    (fun n => rfl) hdefinitions fun triples h => ?_
  obtain ⟨triples', hdescribes, hkept, hentered⟩ := describes_reindex id property.1
    (getNodeProperty x.graph id property.1) (some property.2) x₁ h
  refine ⟨triples', hdescribes, fun t ht hne => hkept t ht (.inl hne), fun hd n value hn hlabel hvalue hold => ?_⟩
  by_cases hproperty : d.property = property.1
  · have hn₁ : getNode x₁.graph id = some (n.setProperty property.1 property.2) := by
      rw [hnodes₁, Constraint.changed, if_pos rfl, hn]
      rfl
    have hindex : x₁.propertyIndex.hasIndex (n.setProperty property.1 property.2).primaryLabel property.1 = true := by
      rw [primaryLabel_of_head hlabel, ← hproperty]
      exact hasIndex_of_lookup hd
    rw [Node.getProperty, Node.setProperty, HashMap.lookup_insert_ite, if_pos hproperty] at hvalue
    rw [hproperty]
    exact hentered _ value hn₁ hindex hvalue
  · rw [Node.getProperty, Node.setProperty, HashMap.lookup_insert_ite, if_neg hproperty] at hvalue
    exact hkept _ (hold hlabel hvalue) (.inr hproperty)

/-- A property is removed, and what was under it possibly taken out of the index. -/
lemma keepsFollowed_remove (id : NodeId) (property : String)
    (hgraph : x'.graph = (removeNodeProperty x.graph id property).1)
    (hdefinitions : x'.propertyIndex.definitions = x.propertyIndex.definitions)
    (hentries : ∀ triples, x.propertyIndex.Describes triples → ∃ triples', x'.propertyIndex.Describes triples' ∧
      ∀ t ∈ triples, t.1 ≠ id ∨ t.2.1 ≠ property → t ∈ triples') : KeepsFollowed d x x' := by
  have hnodes : getNode x'.graph = Constraint.changed (getNode x.graph) id fun n => n.removeProperty property := by
    rw [hgraph]
    exact funext fun m => hσ.removeProperty x.graph id property m
  refine .of_changed (f := fun n => n.removeProperty property) hnodes (fun n => rfl) hdefinitions fun triples h => ?_
  obtain ⟨triples', hdescribes, hkept⟩ := hentries triples h
  refine ⟨triples', hdescribes, fun t ht hne => hkept t ht (.inl hne), fun hd n value hn hlabel hvalue hold => ?_⟩
  rw [Node.getProperty, Node.removeProperty, HashMap.lookup_erase_ite] at hvalue
  split at hvalue
  · cases hvalue
  · rename_i hproperty
    exact hkept _ (hold hlabel hvalue) (.inr hproperty)

omit hσ in
/-- The labels of a node change, but no node comes under the label of the index. -/
lemma keepsFollowed_labels {id : NodeId} {f : Node → Node} (hid : ∀ n, (f n).id = n.id)
    (hproperties : ∀ n, (f n).properties = n.properties)
    (hlabels : ∀ n, (f n).labels.head? = some d.label → n.labels.head? = some d.label)
    (hnodes : getNode x'.graph = Constraint.changed (getNode x.graph) id f)
    (hindex : x'.propertyIndex = x.propertyIndex) : KeepsFollowed d x x' := by
  refine .of_changed hnodes hid (congrArg definitions hindex) fun triples h => ?_
  refine ⟨triples, hindex ▸ h, fun t ht _ => ht, fun hd n value hn hlabel hvalue hold => hold (hlabels n hlabel) ?_⟩
  rw [Node.getProperty, hproperties] at hvalue
  exact hvalue

lemma keepsFollowed_applySetItem (b : Bindings) (item : SetItem) (hitem : Update.MovesNoneTo d.label (.set item)) :
    Within (KeepsFollowed d) (applySetItem M b item) := by
  have hedge : ∀ id property, Within (KeepsFollowed (σ := σ) d) (assignEdgeProperty id property) :=
    fun id property x => .of_same (hσ.setEdgeProperty x.graph id property.1 property.2) rfl
  rcases item with ⟨name, property, e⟩ | ⟨name, properties⟩ | ⟨name, label⟩
  · refine (within_boundTo b name).bind fun bound => (Within.read _).bind fun value => ?_
    rcases bound with id | id | _ | _
    · exact Within.bind (m := validateSet id (property, value)) (Within.read _)
        fun _ => keepsFollowed_assign hσ id (property, value)
    · exact hedge id _
    all_goals exact Within.fail _
  · refine (within_boundTo b name).bind fun bound => (within_evaluateProperties M properties b).bind fun values => ?_
    rcases bound with id | id | _ | _
    · refine Within.bind (Within.forM (fun property => ?_) values) fun _ =>
        Within.forM (keepsFollowed_assign hσ id) values
      exact Within.read _
    · exact Within.forM (hedge id) values
    all_goals exact Within.fail _
  · refine (within_boundTo b name).bind fun bound => ?_
    rcases bound with id | id | _ | _
    · intro x
      change KeepsFollowed d x { x with graph := addNodeLabel x.graph id label }
      refine keepsFollowed_labels (f := fun n => n.addLabel label) (fun n => ?_) (fun n => ?_) (fun n hn => ?_)
        (funext fun m => hσ.addLabel x.graph id label m) rfl
      · unfold Node.addLabel
        split <;> rfl
      · unfold Node.addLabel
        split <;> rfl
      · unfold Node.addLabel at hn
        split at hn
        · rcases hlabels : n.labels with _ | ⟨l, ls⟩
          · rw [hlabels] at hn
            exact absurd (Option.some.inj hn) hitem
          · rw [hlabels] at hn
            exact hn
        · exact hn
    all_goals exact Within.fail _

lemma keepsFollowed_applyRemoveItem (b : Bindings) (item : RemoveItem) (hitem : Update.MovesNoneTo d.label (.remove item)) :
    Within (KeepsFollowed d) (applyRemoveItem b item : Exec σ Unit) := by
  rcases item with ⟨name, property⟩ | ⟨name, label⟩
  · refine (within_boundTo b name).bind fun bound => ?_
    rcases bound with id | id | _ | _
    · refine Within.bind (m := Exec.validate _) (Within.read _) fun _ => fun x => ?_
      rw [bind_apply]
      simp only [Exec.onGraph]
      let x₁ : Executor σ := { x with graph := (removeNodeProperty x.graph id property).1 }
      rcases (removeNodeProperty x.graph id property).2 with _ | old
      · exact keepsFollowed_remove hσ id property rfl rfl fun triples h =>
          ⟨triples, h, fun t ht _ => ht⟩
      · obtain ⟨hgraph, hdefinitions⟩ := reindexNodeProperty_frame id property (some old) none x₁
        refine keepsFollowed_remove hσ id property hgraph hdefinitions fun triples h => ?_
        obtain ⟨triples', hdescribes, hkept, -⟩ := describes_reindex id property (some old) none x₁ h
        exact ⟨triples', hdescribes, hkept⟩
    · refine Within.bind (m := Exec.onGraph fun g => removeEdgeProperty g id property) (fun x => ?_)
        fun _ => Within.pure ()
      exact .of_same (hσ.removeEdgeProperty x.graph id property) rfl
    all_goals exact Within.fail _
  · obtain rfl : label = d.label := hitem
    simp only [applyRemoveItem]
    split
    · next id _ =>
      intro x
      change KeepsFollowed d x { x with graph := removeNodeLabel x.graph id d.label }
      refine keepsFollowed_labels (f := fun n => n.removeLabel d.label) (fun n => rfl) (fun n => rfl)
        (fun n hn => ?_) (funext fun m => hσ.removeLabel x.graph id d.label m) rfl
      have hmem := List.mem_of_mem_head? hn
      simp [Node.removeLabel] at hmem
    · exact Within.fail _

/-! ### New and deleted nodes -/

omit [GraphBackend σ] hσ in
lemma describes_indexNewNode (A : TextAnalysis) (id : NodeId) (label : String)
    (properties : List (String × PropertyValue)) (x : Executor σ) {triples : Set Triple}
    (h : x.propertyIndex.Describes triples) :
    ∃ triples', (indexNewNode A id label properties x).1.propertyIndex.Describes triples' ∧
      (indexNewNode A id label properties x).1.propertyIndex.definitions = x.propertyIndex.definitions ∧
      triples ⊆ triples' ∧
      ∀ e ∈ properties, x.propertyIndex.hasIndex label e.1 = true → (id, e.1, e.2) ∈ triples' := by
  let entry : String × PropertyValue → Option Triple := fun e =>
    if x.propertyIndex.hasIndex label e.1 then some (id, e.1, e.2) else none
  have hstep : ∀ (ix : PropertyIndex) (e : String × PropertyValue),
      ix.definitions = x.propertyIndex.definitions →
      (entry e = none → (if ix.hasIndex label e.1 then ix.indexProperty id e.1 e.2 else ix) = ix) ∧
        ∀ t, entry e = some t → (if ix.hasIndex label e.1 then ix.indexProperty id e.1 e.2 else ix) =
          ix.indexProperty t.1 t.2.1 t.2.2 := by
    intro ix e hix
    have hsame : ix.hasIndex label e.1 = x.propertyIndex.hasIndex label e.1 := by
      unfold hasIndex
      rw [hix]
    rw [hsame]
    by_cases hindex : x.propertyIndex.hasIndex label e.1 = true
    · simp [entry, hindex]
    · simp [entry, hindex]
  obtain ⟨triples', hdescribes, hdefinitions, hsub, hmem⟩ := h.foldl_index entry hstep properties rfl
  exact ⟨triples', hdescribes, hdefinitions, hsub, fun e he hindex => hmem e he _ (if_pos hindex)⟩

omit hσ in
/-- The properties of a new node are among those written down. -/
lemma mem_of_lookup_propertiesOf {properties : List (String × PropertyValue)} {property : String}
    {value : PropertyValue} (h : (propertiesOf properties).lookup property = some value) :
    (property, value) ∈ properties := by
  induction properties using List.reverseRecOn with
  | nil => cases h
  | append_singleton properties e ih =>
    rw [propertiesOf, List.foldl_append, List.foldl_cons, List.foldl_nil, HashMap.lookup_insert_ite] at h
    split at h
    · rename_i hproperty
      subst hproperty
      obtain rfl := Option.some.inj h
      simp
    · exact List.mem_append_left _ (ih h)

lemma keepsFollowed_createNode (A : TextAnalysis) (p : NodePattern Expression) (b : Bindings) :
    Within (KeepsFollowed d) (createNode A M p b) := by
  refine (within_evaluateProperties M p.properties b).bind fun properties => ?_
  refine Within.bind (m := Exec.validate _) (Within.read _) fun _ => fun x => ?_
  rw [bind_apply]
  simp only [Exec.onGraph]
  rw [bind_apply, forM_modify, foldl_setNodeProperty]
  let id := (createNodeWithLabels x.graph p.labels).2
  let x₁ : Executor σ := { x with
    graph := properties.foldl (fun g e => setNodeProperty g id e.1 e.2) (createNodeWithLabels x.graph p.labels).1 }
  change KeepsFollowed d x (indexNewNode A id (p.labels.headD "") properties x₁).1
  have hnodes : ∀ m, getNode x₁.graph m =
      if m = id then some ⟨id, p.labels, propertiesOf properties⟩ else getNode x.graph m := by
    intro m
    rw [getNode_foldl_setNodeProperty hσ, hσ.create, hσ.create, if_pos rfl]
    split <;> rfl
  intro h
  obtain ⟨triples, hdescribes, hcovers⟩ := h.entries
  obtain ⟨triples', hdescribes', hdefinitions, hsub, hentered⟩ :=
    describes_indexNewNode A id (p.labels.headD "") properties x₁ hdescribes
  refine ⟨fun m n hn => ?_, triples', hdescribes', fun hd m n value hn hlabel hvalue => ?_⟩
  · have hn₁ : getNode x₁.graph m = some n := hn
    rw [hnodes] at hn₁
    split at hn₁
    · rename_i hm
      obtain rfl := Option.some.inj hn₁
      exact hm.symm
    · exact h.keyed m n hn₁
  · have hn₁ : getNode x₁.graph m = some n := hn
    rw [hdefinitions] at hd
    rw [hnodes] at hn₁
    split at hn₁
    · rename_i hm
      subst hm
      obtain rfl := Option.some.inj hn₁
      have hindex : x.propertyIndex.hasIndex (p.labels.headD "") d.property = true := by
        rw [List.headD_eq_head?_getD, show p.labels.head? = some d.label from hlabel]
        exact hasIndex_of_lookup hd
      exact hentered _ (mem_of_lookup_propertiesOf hvalue) hindex
    · exact hsub (hcovers hd m n value hn₁ hlabel hvalue)

/-- Nodes disappear, with entries of theirs. -/
lemma keepsFollowed_delete {id : NodeId} (hgraph : x'.graph = (deleteNode x.graph id).1)
    (hdefinitions : x'.propertyIndex.definitions = x.propertyIndex.definitions)
    (hentries : ∀ triples, x.propertyIndex.Describes triples → ∃ triples', x'.propertyIndex.Describes triples' ∧
      ∀ t ∈ triples, t.1 ≠ id → t ∈ triples') : KeepsFollowed d x x' := by
  have hnodes : ∀ m n, getNode x'.graph m = some n → m ≠ id ∧ getNode x.graph m = some n := by
    intro m n hn
    rw [hgraph, hσ.delete] at hn
    split at hn
    · cases hn
    · rename_i hm
      exact ⟨hm, hn⟩
  intro h
  obtain ⟨triples, hdescribes, hcovers⟩ := h.entries
  obtain ⟨triples', hdescribes', hkept⟩ := hentries triples hdescribes
  refine ⟨fun m n hn => h.keyed m n (hnodes m n hn).2, triples', hdescribes', fun hd m n value hn hlabel hvalue => ?_⟩
  obtain ⟨hm, hn⟩ := hnodes m n hn
  exact hkept _ (hcovers (hdefinitions ▸ hd) m n value hn hlabel hvalue) hm

lemma keepsFollowed_deleteNodeOf (detach : Bool) (id : NodeId) :
    Within (KeepsFollowed d) (deleteNodeOf detach id : Exec σ Bool) := by
  intro x
  unfold deleteNodeOf
  split
  · exact refl_of (KeepsFollowed d) x
  · exact keepsFollowed_delete hσ rfl rfl fun triples h => ⟨triples, h, fun t ht _ => ht⟩

lemma keepsFollowed_deleteIndexedNode (detach : Bool) (n : ℕ) (id : NodeId) :
    Within (KeepsFollowed d) (deleteIndexedNode detach n id : Exec σ ℕ) := by
  intro x
  unfold deleteIndexedNode
  rw [bind_apply]
  by_cases hedges : (!detach && hasIncidentEdges x.graph id) = true
  · have hrun : (deleteNodeOf detach id : Exec σ Bool) x = (x, .ok false) := if_pos hedges
    rw [hrun]
    exact refl_of (KeepsFollowed d) x
  · have hrun : (deleteNodeOf detach id : Exec σ Bool) x =
        ({ x with graph := (deleteNode x.graph id).1 }, .ok (deleteNode x.graph id).2.isSome) := if_neg hedges
    rw [hrun]
    rcases (deleteNode x.graph id).2.isSome with _ | _
    · exact keepsFollowed_delete hσ rfl rfl fun triples h => ⟨triples, h, fun t ht _ => ht⟩
    · exact keepsFollowed_delete hσ rfl (definitions_removeNode ..) fun triples h =>
        ⟨_, h.removeNode id, fun t ht hne => ⟨ht, hne⟩⟩

/-! ### Indexes -/

omit hσ in
/-- What a new index lists under its label. -/
lemma describes_createIndex (label property : String) (x : Executor σ) {triples : Set Triple}
    (h : x.propertyIndex.Describes triples) :
    ∃ triples', (executeCreateIndex label property x).1.propertyIndex.Describes triples' ∧
      (executeCreateIndex label property x).1.propertyIndex.definitions =
        x.propertyIndex.definitions.insert (IndexDefinition.key ⟨label, property⟩) ⟨label, property⟩ ∧
      triples ⊆ triples' ∧
      ∀ id ∈ labelledNodes x label, ∀ t, (((getNode x.graph id).bind (·.getProperty property)).map fun value =>
        ((id, property, value) : Triple)) = some t → t ∈ triples' := by
  have hnew : (x.propertyIndex.createIndex ⟨label, property⟩).Describes triples := h
  unfold executeCreateIndex
  refine hnew.foldl_index _ (fun ix id _ => ?_) (labelledNodes x label) rfl
  rcases (getNode x.graph id).bind (·.getProperty property) with _ | value
  · simp
  · simp

/-- A new index lists what the nodes under its label have; the values of this index, too, when it is the new one. -/
lemma keepsFollowed_createIndex (label property : String) :
    Within (KeepsFollowed d) (executeCreateIndex label property : Exec σ ResultSet) := by
  intro x h
  obtain ⟨triples, hdescribes, hcovers⟩ := h.entries
  obtain ⟨triples', hdescribes', hdefinitions, hsub, hmem⟩ := describes_createIndex label property x hdescribes
  refine ⟨h.keyed, triples', hdescribes', fun hd id n value hn hlabel hvalue => ?_⟩
  have hn : getNode x.graph id = some n := hn
  rw [hdefinitions, HashMap.lookup_insert_ite] at hd
  split at hd
  · obtain rfl := Option.some.inj hd
    have hlisted : id ∈ labelledNodes x label := by
      refine List.mem_map.mpr ⟨n, List.mem_filter.mpr ⟨(hσ.mem_allNodes x.graph n).mpr ⟨id, hn⟩, ?_⟩, h.keyed id n hn⟩
      exact (Node.hasLabel_iff n label).mpr (List.mem_of_mem_head? hlabel)
    refine hmem id hlisted _ ?_
    rw [hn, Option.bind_some]
    exact congrArg (Option.map fun value => (id, property, value)) hvalue
  · exact hsub (hcovers hd id n value hn hlabel hvalue)

omit hσ in
lemma keepsFollowed_dropIndex (label property : String) :
    Within (KeepsFollowed d) (executeDropIndex label property : Exec σ ResultSet) := by
  intro x h
  obtain ⟨triples, hdescribes, hcovers⟩ := h.entries
  refine ⟨h.keyed, triples, hdescribes, fun hd => hcovers ?_⟩
  have hlookup : (x.propertyIndex.definitions.erase (IndexDefinition.key ⟨label, property⟩)).lookup d.key = some d := hd
  rw [HashMap.lookup_erase_ite] at hlookup
  split at hlookup
  · cases hlookup
  · exact hlookup

/-! ### The steps of a statement -/

lemma keepsFollowed_createHopEdge (p : EdgePattern Expression) (prev next : NodeId) (b : Bindings) :
    Within (KeepsFollowed d) (createHopEdge M p prev next b) := by
  unfold createHopEdge
  rcases p.direction with _ | _ | _
  all_goals
    refine Within.bind (m := Exec.validate _) (Within.read _) fun _ => ?_
    refine Within.bind (m := Exec.onGraph fun g => createEdge g _ _ _) (fun x => ?_) fun _ => ?_
    · exact .of_same (hσ.createEdge x.graph _ _ _) rfl
    · refine (Within.read _).bind fun id => (within_evaluateProperties M p.properties b).bind fun properties => ?_
      refine (Within.forM (fun property => ?_) properties).bind fun _ => Within.pure _
      exact fun x => .of_same (hσ.setEdgeProperty x.graph id property.1 property.2) rfl

/-- The steps of a statement keep the index up to date. -/
lemma stepRules_keepsFollowed (A : TextAnalysis) : StepRules A M (KeepsFollowed d) (Update.MovesNoneTo d.label) where
  hints _ _ := .of_same rfl rfl
  fulltext _ _ := .of_same rfl rfl
  createNode := keepsFollowed_createNode hσ A
  createHopEdge := keepsFollowed_createHopEdge hσ
  applySetItem := keepsFollowed_applySetItem hσ
  applyRemoveItem := keepsFollowed_applyRemoveItem hσ
  deleteEdge id x := .of_same (hσ.deleteEdge x.graph id) rfl
  deleteNodeOf := keepsFollowed_deleteNodeOf hσ
  deleteIndexedNode := keepsFollowed_deleteIndexedNode hσ
  createConstraint cc _ x := by
    unfold executeCreateConstraint
    split <;> exact .of_same rfl rfl
  dropConstraint name x := by
    unfold executeDropConstraint
    split <;> exact .of_same rfl rfl
  createIndex := keepsFollowed_createIndex hσ
  dropIndex := keepsFollowed_dropIndex

end Executor

end Maharit
