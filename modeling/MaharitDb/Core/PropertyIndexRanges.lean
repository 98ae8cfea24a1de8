import MaharitDb.Core.PropertyIndexEntries

/-!
# Range queries on the property index

`find_by_int_range`, `find_greater_than` and `find_less_than` of `maharit-core/src/property_index.rs` with the two
ways in which they go wrong: `BTreeMap::range` panics when the lower bound is above the upper one, and the
successor of the greatest integer overflows, which is a panic with overflow checks and the least integer without
them.  Both need a tree for the property, and a property keeps its tree from the first integer on, also when the
tree is empty again.
-/

namespace Maharit.PropertyIndex

/-! ## The queries -/

/-- The nodes of a tree with a key in a range. -/
def nodesIn (tree : HashMap Int64 (HashSet NodeId)) (p : Int64 → Bool) : List NodeId :=
  ((tree.entries.filter fun e => p e.1).flatMap fun e => HashSet.toList e.2).dedup

/-- `find_by_int_range`; nothing when the tree panics. -/
def tryFindByIntRange (ix : PropertyIndex) (property : String) (min max : Int64) : Option (List NodeId) :=
  match ix.intRangeIndex.lookup property with
  | none => some []
  | some _ => if max < min then none else some (ix.findByIntRange property min max)

/-- `n + 1`, with or without overflow checks. -/
def successor (checks : Bool) (n : Int64) : Option Int64 :=
  if checks && n == Int64.maxValue then none else some (n + 1)

/-- `find_greater_than`; nothing when it panics. -/
def findGreaterThan (checks : Bool) (ix : PropertyIndex) (property : String) (value : PropertyValue) :
    Option (List NodeId) :=
  match value with
  | .int n =>
      match ix.intRangeIndex.lookup property with
      | none => some []
      | some tree => (successor checks n).map fun m => nodesIn tree fun k => m ≤ k
  | .float x => some (((HashMap.getDefault ix.floatRangeIndex property).filter fun e =>
      x.partialCmp e.1 == some .lt).map (·.2))
  | _ => some []

/-- `find_less_than`. -/
def findLessThan (ix : PropertyIndex) (property : String) (value : PropertyValue) : List NodeId :=
  match value with
  | .int n =>
      match ix.intRangeIndex.lookup property with
      | none => []
      | some tree => nodesIn tree fun k => k < n
  | .float x => ((HashMap.getDefault ix.floatRangeIndex property).filter fun e =>
      e.1.partialCmp x == some .lt).map (·.2)
  | _ => []

/-! ## What they answer -/

/-- The result is a list of exactly these nodes, each once. -/
def Answers (result : Option (List NodeId)) (nodes : Set NodeId) : Prop :=
  ∃ l, result = some l ∧ l.Nodup ∧ ∀ id, id ∈ l ↔ id ∈ nodes

/-- The nodes with an integer that satisfies a condition. -/
def intNodes (triples : Set Triple) (property : String) (p : Int64 → Prop) : Set NodeId :=
  {id | ∃ n, p n ∧ (id, property, PropertyValue.int n) ∈ triples}

lemma not_answers_none (nodes : Set NodeId) : ¬ Answers none nodes := by
  rintro ⟨l, hl, -⟩
  cases hl

lemma answers_some {l : List NodeId} {nodes : Set NodeId} (hl : l.Nodup) :
    Answers (some l) nodes ↔ ∀ id, id ∈ l ↔ id ∈ nodes := by
  constructor
  · rintro ⟨l', hl', -, hmem⟩
    cases hl'
    exact hmem
  · exact fun hmem => ⟨l, rfl, hl, hmem⟩

variable {ix : PropertyIndex} {triples : Set Triple}

lemma mem_nodesIn {tree : HashMap Int64 (HashSet NodeId)} {p : Int64 → Bool} {id : NodeId} :
    id ∈ nodesIn tree p ↔ ∃ n, p n = true ∧ id ∈ HashMap.getDefault tree n := by
  rw [nodesIn, List.mem_dedup, List.mem_flatMap]
  constructor
  · rintro ⟨⟨n, nodes⟩, hentry, hid⟩
    obtain ⟨hentry, hn⟩ := List.mem_filter.mp hentry
    have hlookup : tree.lookup n = some nodes := (List.mem_dlookup_iff tree.nodupKeys).mpr hentry
    refine ⟨n, hn, ?_⟩
    rw [HashMap.getDefault, hlookup]
    exact hid
  · rintro ⟨n, hn, hid⟩
    cases hlookup : tree.lookup n with
    | none => simp [HashMap.getDefault, hlookup] at hid
    | some nodes =>
      rw [HashMap.getDefault, hlookup] at hid
      exact ⟨⟨n, nodes⟩, List.mem_filter.mpr ⟨AList.mem_lookup_iff.mp hlookup, hn⟩, hid⟩

lemma nodup_nodesIn (tree : HashMap Int64 (HashSet NodeId)) (p : Int64 → Bool) : (nodesIn tree p).Nodup :=
  List.nodup_dedup _

/-- A tree that describes the set answers with the nodes whose integers it covers. -/
lemma Describes.mem_nodesIn (h : ix.Describes triples) {property : String}
    {tree : HashMap Int64 (HashSet NodeId)} (htree : ix.intRangeIndex.lookup property = some tree)
    (p : Int64 → Bool) (id : NodeId) :
    id ∈ nodesIn tree p ↔ id ∈ intNodes triples property fun n => p n = true := by
  have hget : HashMap.getDefault ix.intRangeIndex property = tree := by simp [HashMap.getDefault, htree]
  have hslot : ∀ n, id ∈ HashMap.getDefault tree n ↔ (id, property, PropertyValue.int n) ∈ triples := by
    intro n
    rw [← hget]
    exact h id (.int property n)
  rw [PropertyIndex.mem_nodesIn, intNodes, Set.mem_ofPred_eq]
  exact exists_congr fun n => and_congr_right fun _ => hslot n

/-- Without a tree there are no integers of the property. -/
lemma Describes.intNodes_eq_empty (h : ix.Describes triples) {property : String}
    (hnone : ix.intRangeIndex.lookup property = none) (p : Int64 → Prop) :
    intNodes triples property p = ∅ := by
  rw [Set.eq_empty_iff_forall_notMem]
  rintro id ⟨n, -, htriple⟩
  have hslot := (h id (.int property n)).mpr htriple
  simp [Has, HashMap.getDefault, hnone] at hslot

/-! ## When they answer -/

/-- `find_by_int_range` is right unless the range is upside down and there is a tree. -/
lemma Describes.answers_tryFindByIntRange (h : ix.Describes triples) (property : String) (min max : Int64) :
    Answers (ix.tryFindByIntRange property min max)
        (intNodes triples property fun n => min ≤ n ∧ n ≤ max) ↔
      min ≤ max ∨ property ∉ ix.intRangeIndex := by
  unfold tryFindByIntRange
  cases hlookup : ix.intRangeIndex.lookup property with
  | none =>
    have hmem : property ∉ ix.intRangeIndex := AList.lookup_eq_none.mp hlookup
    rw [h.intNodes_eq_empty hlookup]
    refine iff_of_true ?_ (Or.inr hmem)
    exact (answers_some List.nodup_nil).mpr fun id => by simp
  | some tree =>
    have hmem : property ∈ ix.intRangeIndex := (HashMap.mem_iff_exists _ _).mpr ⟨tree, hlookup⟩
    simp only [hmem, not_true_eq_false, or_false]
    split
    · rename_i hlt
      exact iff_of_false (not_answers_none _) (Int64.not_le.mpr hlt)
    · rename_i hle
      refine iff_of_true ?_ (Int64.not_lt.mp hle)
      have hget : HashMap.getDefault ix.intRangeIndex property = tree := by simp [HashMap.getDefault, hlookup]
      have heq : ix.findByIntRange property min max =
          nodesIn tree fun k => decide (min ≤ k) && decide (k ≤ max) := by
        rw [findByIntRange, hget]
        rfl
      rw [heq]
      refine (answers_some (nodup_nodesIn _ _)).mpr fun id => ?_
      rw [h.mem_nodesIn hlookup]
      simp only [Bool.and_eq_true, decide_eq_true_eq]

lemma le_successor {n m : Int64} (hn : n ≠ Int64.maxValue) : n + 1 ≤ m ↔ n < m := by
  have hmax : n.toInt ≠ Int64.maxValue.toInt := fun heq => hn (Int64.toInt_inj.mp heq)
  have hmaxValue : Int64.maxValue.toInt = 2 ^ 63 - 1 := by decide
  have hlow := n.le_toInt
  have hhigh := n.toInt_lt
  have hsucc : (n + 1).toInt = n.toInt + 1 := by
    rw [Int64.toInt_add, show (1 : Int64).toInt = 1 from rfl]
    exact Int.bmod_eq_of_le (by omega) (by omega)
  rw [Int64.le_iff_toInt_le, Int64.lt_iff_toInt_lt, hsucc]
  omega

/-- `find_greater_than` is right unless it starts from the greatest integer and there is a tree; without overflow
checks it is right also then when the tree is empty. -/
lemma Describes.answers_findGreaterThan (h : ix.Describes triples) (checks : Bool) (property : String)
    (n : Int64) :
    Answers (ix.findGreaterThan checks property (.int n)) (intNodes triples property fun m => n < m) ↔
      n ≠ Int64.maxValue ∨ property ∉ ix.intRangeIndex ∨
        checks = false ∧ intNodes triples property (fun _ => True) = ∅ := by
  unfold findGreaterThan
  cases hlookup : ix.intRangeIndex.lookup property with
  | none =>
    have hmem : property ∉ ix.intRangeIndex := AList.lookup_eq_none.mp hlookup
    rw [h.intNodes_eq_empty hlookup]
    refine iff_of_true ?_ (Or.inr (Or.inl hmem))
    exact (answers_some List.nodup_nil).mpr fun id => by simp
  | some tree =>
    have hmem : property ∈ ix.intRangeIndex := (HashMap.mem_iff_exists _ _).mpr ⟨tree, hlookup⟩
    simp only [hmem, not_true_eq_false, false_or]
    by_cases hmax : n = Int64.maxValue
    · subst hmax
      simp only [ne_eq, not_true_eq_false, false_or]
      cases checks with
      | true =>
        have hnone : successor true Int64.maxValue = none := rfl
        rw [hnone, Option.map_none]
        exact iff_of_false (not_answers_none _) (by simp)
      | false =>
        have hsome : successor false Int64.maxValue = some Int64.minValue := rfl
        have hleast : ∀ m : Int64, Int64.minValue ≤ m := Int64.minValue_le
        have hnone : intNodes triples property (fun m => Int64.maxValue < m) = ∅ := by
          rw [Set.eq_empty_iff_forall_notMem]
          rintro id ⟨m, hlt, -⟩
          exact absurd (Int64.le_maxValue m) (Int64.not_le.mpr hlt)
        rw [hsome, Option.map_some, hnone, answers_some (nodup_nodesIn _ _)]
        simp only [true_and, h.mem_nodesIn hlookup, hleast, decide_true, Set.mem_empty_iff_false, iff_false]
        rw [Set.eq_empty_iff_forall_notMem]
    · have hsome : successor checks n = some (n + 1) := by
        simp [successor, hmax]
      rw [hsome, Option.map_some]
      refine iff_of_true ?_ (Or.inl hmax)
      refine (answers_some (nodup_nodesIn _ _)).mpr fun id => ?_
      rw [h.mem_nodesIn hlookup]
      simp only [decide_eq_true_eq, le_successor hmax]

/-- `find_less_than` is always right. -/
lemma Describes.answers_findLessThan (h : ix.Describes triples) (property : String) (n : Int64) :
    Answers (some (ix.findLessThan property (.int n))) (intNodes triples property fun m => m < n) := by
  unfold findLessThan
  cases hlookup : ix.intRangeIndex.lookup property with
  | none =>
    rw [h.intNodes_eq_empty hlookup]
    exact (answers_some List.nodup_nil).mpr fun id => by simp
  | some tree =>
    refine (answers_some (nodup_nodesIn _ _)).mpr fun id => ?_
    rw [h.mem_nodesIn hlookup]
    simp only [decide_eq_true_eq]

/-! ## After every sequence of calls -/

namespace EntryCall

/-- The call enters an integer of the property. -/
def entersInt (property : String) : EntryCall → Bool
  | .indexProperty _ property' (.int _) => property' == property
  | _ => false

lemma mem_intRangeIndex_removeEntry (ix : PropertyIndex) (id : NodeId) (property property' : String)
    (value : PropertyValue) :
    property' ∈ (ix.removeEntry id property value).intRangeIndex ↔ property' ∈ ix.intRangeIndex := by
  cases value with
  | int n => exact HashMap.mem_modify _ _ _ _
  | _ => exact Iff.rfl

/-- A property has a tree from the first integer on. -/
lemma mem_intRangeIndex_apply (ix : PropertyIndex) (call : EntryCall) (property : String) :
    property ∈ (call.apply ix).intRangeIndex ↔
      property ∈ ix.intRangeIndex ∨ call.entersInt property = true := by
  cases call with
  | indexProperty id property' value =>
    cases value with
    | int n =>
      simp only [apply, PropertyIndex.indexProperty, HashMap.mem_modifyDefault, entersInt, beq_iff_eq]
      tauto
    | _ => simp [apply, PropertyIndex.indexProperty, entersInt]
  | unindexProperty id property' value =>
    simp only [apply, entersInt, Bool.false_eq_true, or_false]
    exact mem_intRangeIndex_removeEntry ix id property' property value
  | removeNode id =>
    simp only [apply, entersInt, Bool.false_eq_true, or_false, PropertyIndex.removeNode]
    cases ix.nodeToKeys.lookup id with
    | none => exact Iff.rfl
    | some keys =>
      have hloop : ∀ (keys : List PropertyKey) (ix : PropertyIndex),
          property ∈ (keys.foldl (fun ix key => ix.removeEntry id key.1 key.2) ix).intRangeIndex ↔
            property ∈ ix.intRangeIndex := by
        intro keys
        induction keys with
        | nil => exact fun ix => Iff.rfl
        | cons key keys ih =>
          intro ix
          rw [List.foldl_cons, ih, mem_intRangeIndex_removeEntry]
      exact hloop keys.toList _

lemma mem_intRangeIndex_run (calls : List EntryCall) (property : String) :
    property ∈ (run calls).intRangeIndex ↔ ∃ call ∈ calls, call.entersInt property = true := by
  have hfold : ∀ (calls : List EntryCall) (ix : PropertyIndex),
      property ∈ (calls.foldl apply ix).intRangeIndex ↔
        property ∈ ix.intRangeIndex ∨ ∃ call ∈ calls, call.entersInt property = true := by
    intro calls
    induction calls with
    | nil => simp
    | cons call calls ih =>
      intro ix
      rw [List.foldl_cons, ih, mem_intRangeIndex_apply, List.exists_mem_cons_iff]
      tauto
  have hnew : property ∉ (PropertyIndex.new).intRangeIndex := AList.notMem_empty _
  rw [run, hfold calls .new]
  simp [hnew]

end EntryCall

/-- After these calls the indexes agree, and the range queries on a property answer with exactly the nodes whose
integer lies in the range. -/
structure RangesExact (checks : Bool) (calls : List EntryCall) (property : String) (min max n : Int64) :
    Prop where
  describes : (EntryCall.run calls).Describes (EntryCall.indexed calls)
  intRange : Answers ((EntryCall.run calls).tryFindByIntRange property min max)
    (intNodes (EntryCall.indexed calls) property fun m => min ≤ m ∧ m ≤ max)
  greaterThan : Answers ((EntryCall.run calls).findGreaterThan checks property (.int n))
    (intNodes (EntryCall.indexed calls) property fun m => n < m)
  lessThan : Answers (some ((EntryCall.run calls).findLessThan property (.int n)))
    (intNodes (EntryCall.indexed calls) property fun m => m < n)

/-- The property index is right if and only if the range is not upside down and the lower bound is not the greatest
integer, or no integer of the property was ever entered; without overflow checks the greatest integer does no
harm either when no integer of the property is left. -/
theorem rangesExact_iff (checks : Bool) (calls : List EntryCall) (property : String) (min max n : Int64) :
    RangesExact checks calls property min max n ↔
      (∀ call ∈ calls, call.entersInt property = false) ∨
        min ≤ max ∧ (n ≠ Int64.maxValue ∨
          checks = false ∧ intNodes (EntryCall.indexed calls) property (fun _ => True) = ∅) := by
  have hdescribes := describes_run calls
  have hrange := hdescribes.answers_tryFindByIntRange property min max
  have hgreater := hdescribes.answers_findGreaterThan checks property n
  have hless := hdescribes.answers_findLessThan property n
  have htree : property ∉ (EntryCall.run calls).intRangeIndex ↔
      ∀ call ∈ calls, call.entersInt property = false := by
    rw [EntryCall.mem_intRangeIndex_run]
    simp
  rw [htree] at hrange hgreater
  constructor
  · intro h
    have hmin := hrange.mp h.intRange
    have hn := hgreater.mp h.greaterThan
    tauto
  · intro h
    refine ⟨hdescribes, hrange.mpr ?_, hgreater.mpr ?_, hless⟩
    · tauto
    · tauto

/-- One node with an age: a range whose bounds are exchanged panics. -/
theorem not_rangesExact_exchanged :
    ¬ ∀ (checks : Bool) (calls : List EntryCall) (property : String) (min max n : Int64),
      RangesExact checks calls property min max n := by
  intro h
  have hage := h false [.indexProperty 0 "age" (.int 30)] "age" 40 20 0
  obtain ⟨l, hl, -⟩ := hage.intRange
  have hnone : (EntryCall.run [.indexProperty 0 "age" (.int 30)]).tryFindByIntRange "age" 40 20 = none := by
    decide
  rw [hnone] at hl
  cases hl

end Maharit.PropertyIndex
