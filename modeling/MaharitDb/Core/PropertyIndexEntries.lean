import MaharitDb.Core.PropertyIndex
import MaharitDb.Lib.SetMap

/-!
# The entries of the property index

The index keeps the value of a property of a node in the exact index, in the list of the node's own entries and,
for an integer, in the range index (`maharit-core/src/property_index.rs`).  A place in one of them is a `Slot`, and
`Has` says which slots of a node are filled.  `Describes` says that all three hold the same set of triples.  Every
call on the index changes the set as its name says, and so the three agree after every sequence of calls.

Floats have a range index of their own, which is not looked at here.
-/

namespace Maharit.PropertyIndex

/-! ## Triples -/

/-- A node with one of its properties and the value. -/
abbrev Triple := NodeId × PropertyKey

/-- A place where a value of a node can be entered. -/
inductive Slot where
  | exact (key : PropertyKey)
  /-- In the entries of the node itself. -/
  | listed (key : PropertyKey)
  | int (property : String) (n : Int64)

/-- The property and the value that a slot is for. -/
def Slot.key : Slot → PropertyKey
  | exact key | listed key => key
  | int property n => (property, .int n)

/-- A slot of a node is filled. -/
def Has (ix : PropertyIndex) (id : NodeId) : Slot → Prop
  | .exact key => id ∈ HashMap.getDefault ix.exactIndex key
  | .listed key => key ∈ HashMap.getDefault ix.nodeToKeys id
  | .int property n => id ∈ HashMap.getDefault (HashMap.getDefault ix.intRangeIndex property) n

/-- The exact index, the entries of the nodes and the range index of the integers all describe this set. -/
def Describes (ix : PropertyIndex) (triples : Set Triple) : Prop :=
  ∀ id slot, ix.Has id slot ↔ (id, slot.key) ∈ triples

variable {ix : PropertyIndex} {triples : Set Triple}

lemma describes_new : Describes .new ∅ := by
  intro id slot
  cases slot <;> simp [Has, new]

/-! ## Entering a value -/

/-- Entering a value fills the slots of this value for this node. -/
lemma has_indexProperty (ix : PropertyIndex) (id id' : NodeId) (property : String)
    (value : PropertyValue) (slot : Slot) :
    (ix.indexProperty id property value).Has id' slot ↔
      ix.Has id' slot ∨ id' = id ∧ slot.key = (property, value) := by
  cases slot with
  | exact key =>
    have hexact : (ix.indexProperty id property value).exactIndex =
        HashMap.modifyDefault ix.exactIndex (property, value) (HashSet.add · id) := by
      cases value <;> rfl
    simp only [Has, hexact, HashMap.getDefault_modifyDefault, Slot.key]
    by_cases hkey : key = (property, value)
    · simp [hkey]
      tauto
    · simp [hkey]
  | listed key =>
    have hlisted : (ix.indexProperty id property value).nodeToKeys =
        HashMap.modifyDefault ix.nodeToKeys id (HashSet.add · (property, value)) := by
      cases value <;> rfl
    simp only [Has, hlisted, HashMap.getDefault_modifyDefault, Slot.key]
    by_cases hid : id' = id
    · simp [hid]
      tauto
    · simp [hid]
  | int property' n =>
    cases value with
    | int m =>
      simp only [Has, indexProperty, HashMap.getDefault_modifyDefault, Slot.key]
      by_cases hproperty : property' = property
      · subst hproperty
        by_cases hn : n = m
        · simp [hn, HashMap.getDefault_modifyDefault]
          tauto
        · simp [hn, HashMap.getDefault_modifyDefault]
      · simp [hproperty]
    | _ => simp [Has, indexProperty, Slot.key]

lemma Describes.indexProperty (h : ix.Describes triples) (id : NodeId) (property : String)
    (value : PropertyValue) :
    (ix.indexProperty id property value).Describes (insert (id, property, value) triples) := by
  intro id' slot
  have hpair : (id', slot.key) = (id, property, value) ↔ id' = id ∧ slot.key = (property, value) :=
    Prod.mk_inj
  rw [has_indexProperty, h id' slot, Set.mem_insert_iff, hpair]
  tauto

/-! ## Taking a value out -/

lemma mem_removeFrom {K : Type} [DecidableEq K] (m : HashMap K (HashSet NodeId)) (k k' : K)
    (id id' : NodeId) :
    id' ∈ HashMap.getDefault (removeFrom m k id) k' ↔
      id' ∈ HashMap.getDefault m k' ∧ ¬(k' = k ∧ id' = id) := by
  have hsame : removeFrom m k id = HashMap.removeMember m k id := by
    unfold removeFrom HashMap.removeMember
    cases m.lookup k <;> rfl
  rw [hsame, HashMap.mem_removeMember]

/-- Taking a value out of the exact and the range entries empties its slots for this node, but for the list of
the node. -/
lemma has_removeEntry (ix : PropertyIndex) (id id' : NodeId) (property : String)
    (value : PropertyValue) (slot : Slot) :
    (ix.removeEntry id property value).Has id' slot ↔
      ix.Has id' slot ∧ (slot = .listed slot.key ∨ ¬(id' = id ∧ slot.key = (property, value))) := by
  cases slot with
  | exact key =>
    have hexact : (ix.removeEntry id property value).exactIndex =
        removeFrom ix.exactIndex (property, value) id := by
      cases value <;> rfl
    simp only [Has, hexact, mem_removeFrom, Slot.key, reduceCtorEq, false_or]
    tauto
  | listed key =>
    have hlisted : (ix.removeEntry id property value).nodeToKeys = ix.nodeToKeys := by
      cases value <;> rfl
    simp only [Has, hlisted, Slot.key, true_or, and_true]
  | int property' n =>
    cases value with
    | int m =>
      simp only [Has, removeEntry, Slot.key, reduceCtorEq, false_or]
      rw [HashMap.getDefault_modify _ _ _ _ rfl]
      by_cases hproperty : property' = property
      · subst hproperty
        rw [if_pos rfl, mem_removeFrom]
        simp only [Prod.mk.injEq, PropertyValue.int.injEq, true_and]
        tauto
      · rw [if_neg hproperty]
        simp [hproperty]
    | _ => simp [Has, removeEntry, Slot.key]

lemma nodeToKeys_removeEntry (ix : PropertyIndex) (id : NodeId) (property : String)
    (value : PropertyValue) : (ix.removeEntry id property value).nodeToKeys = ix.nodeToKeys := by
  cases value <;> rfl

/-- `unindex_property` empties the slots of a value of a node. -/
lemma has_unindexProperty (ix : PropertyIndex) (id id' : NodeId) (property : String)
    (value : PropertyValue) (slot : Slot) :
    (ix.unindexProperty id property value).Has id' slot ↔
      ix.Has id' slot ∧ ¬(id' = id ∧ slot.key = (property, value)) := by
  cases slot with
  | listed key =>
    simp only [Has, unindexProperty, nodeToKeys_removeEntry, Slot.key]
    rw [HashMap.getDefault_modify _ _ _ _ rfl]
    by_cases hid : id' = id
    · subst hid
      rw [if_pos rfl, HashSet.mem_remove]
      simp only [true_and]
      tauto
    · rw [if_neg hid]
      simp [hid]
  | exact key =>
    have hentry := has_removeEntry ix id id' property value (.exact key)
    simp only [reduceCtorEq, false_or] at hentry
    exact hentry
  | int property' n =>
    have hentry := has_removeEntry ix id id' property value (.int property' n)
    simp only [reduceCtorEq, false_or] at hentry
    exact hentry

lemma Describes.unindexProperty (h : ix.Describes triples) (id : NodeId) (property : String)
    (value : PropertyValue) :
    (ix.unindexProperty id property value).Describes (triples \ {(id, property, value)}) := by
  intro id' slot
  have hpair : (id', slot.key) = (id, property, value) ↔ id' = id ∧ slot.key = (property, value) :=
    Prod.mk_inj
  rw [has_unindexProperty, h id' slot, Set.mem_sdiff, Set.mem_singleton_iff, hpair]

/-! ## `remove_node` -/

/-- Taking several values of a node out. -/
lemma has_foldl_removeEntry (ix : PropertyIndex) (id id' : NodeId) (keys : List PropertyKey) (slot : Slot) :
    (keys.foldl (fun ix key => removeEntry ix id key.1 key.2) ix).Has id' slot ↔
      ix.Has id' slot ∧ (slot = .listed slot.key ∨ ¬(id' = id ∧ slot.key ∈ keys)) := by
  induction keys generalizing ix with
  | nil => simp
  | cons key keys ih =>
    have hkey : slot.key = (key.1, key.2) ↔ slot.key = key := Iff.rfl
    rw [List.foldl_cons, ih, has_removeEntry, hkey, List.mem_cons]
    tauto

/-- Nothing is left of a node, and all of the others, when the node's own entries are complete. -/
lemma Describes.removeNode (h : ix.Describes triples) (id : NodeId) :
    (ix.removeNode id).Describes {t ∈ triples | t.1 ≠ id} := by
  have hlisted : ∀ key, key ∈ HashMap.getDefault ix.nodeToKeys id ↔ (id, key) ∈ triples :=
    fun key => h id (.listed key)
  intro id' slot
  simp only [Set.mem_ofPred_eq]
  unfold PropertyIndex.removeNode
  cases hlookup : ix.nodeToKeys.lookup id with
  | none =>
    rw [h id' slot]
    refine ⟨fun hmem => ⟨hmem, ?_⟩, fun hmem => hmem.1⟩
    rintro rfl
    have hkeys := (hlisted slot.key).mpr hmem
    simp [HashMap.getDefault, hlookup] at hkeys
  | some keys =>
    have hget : HashMap.getDefault ix.nodeToKeys id = keys := by simp [HashMap.getDefault, hlookup]
    rw [has_foldl_removeEntry]
    have hkeys : slot.key ∈ keys.toList ↔ (id, slot.key) ∈ triples := by
      rw [HashSet.mem_toList, ← hget, hlisted]
    by_cases hid : id' = id
    · subst hid
      simp only [ne_eq, not_true_eq_false, and_false, iff_false, true_and, hkeys, not_and, not_or, not_not]
      intro hhas
      cases slot with
      | listed key =>
        simp only [Has] at hhas
        rw [HashMap.getDefault_erase, if_pos rfl] at hhas
        cases hhas
      | exact key => exact ⟨by simp, (h id' (.exact key)).mp hhas⟩
      | int property n => exact ⟨by simp, (h id' (.int property n)).mp hhas⟩
    · have hsame : Has { ix with nodeToKeys := ix.nodeToKeys.erase id } id' slot ↔ ix.Has id' slot := by
        cases slot with
        | listed key =>
          simp only [Has]
          rw [HashMap.getDefault_erase, if_neg hid]
        | _ => exact Iff.rfl
      rw [hsame, h id' slot]
      simp [hid]

/-! ## Sequences of calls -/

/-- A call that changes the entries. -/
inductive EntryCall where
  | indexProperty (id : NodeId) (property : String) (value : PropertyValue)
  | unindexProperty (id : NodeId) (property : String) (value : PropertyValue)
  | removeNode (id : NodeId)
  deriving DecidableEq, Repr

namespace EntryCall

/-- The index after a call. -/
def apply (ix : PropertyIndex) : EntryCall → PropertyIndex
  | .indexProperty id property value => ix.indexProperty id property value
  | .unindexProperty id property value => ix.unindexProperty id property value
  | .removeNode id => ix.removeNode id

/-- The index after a sequence of calls on an empty one. -/
def run (calls : List EntryCall) : PropertyIndex := calls.foldl apply .new

/-- What a call does to the set of triples. -/
def applyTriples (triples : Set Triple) : EntryCall → Set Triple
  | .indexProperty id property value => insert (id, property, value) triples
  | .unindexProperty id property value => triples \ {(id, property, value)}
  | .removeNode id => {t ∈ triples | t.1 ≠ id}

/-- The triples that were indexed and not removed since. -/
def indexed (calls : List EntryCall) : Set Triple := calls.foldl applyTriples ∅

end EntryCall

lemma Describes.apply (h : ix.Describes triples) (call : EntryCall) :
    (call.apply ix).Describes (call.applyTriples triples) := by
  cases call with
  | indexProperty id property value => exact h.indexProperty id property value
  | unindexProperty id property value => exact h.unindexProperty id property value
  | removeNode id => exact h.removeNode id

lemma Describes.foldl (h : ix.Describes triples) (calls : List EntryCall) :
    (calls.foldl EntryCall.apply ix).Describes (calls.foldl EntryCall.applyTriples triples) := by
  induction calls generalizing ix triples with
  | nil => exact h
  | cons call calls ih => exact ih (h.apply call)

/-- After every sequence of calls the three indexes describe what was indexed and not removed since. -/
theorem describes_run (calls : List EntryCall) :
    (EntryCall.run calls).Describes (EntryCall.indexed calls) :=
  describes_new.foldl calls

end Maharit.PropertyIndex
