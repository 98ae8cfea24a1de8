import MaharitDb.Io.GraphMl
import MaharitDb.Lib.MapEntries

/-!
# The columns of a GraphML document

All properties with one name share one type, that of the first of their values.  A value that is written and read as
another type is not the value that it was.
-/

namespace Maharit

namespace Io

open TrimmedText

namespace GraphMl

/-! ## Values -/

/-- A value after it was written and read as a type. -/
def readAs (txt : FloatText) (type : AttrType) (v : PropertyValue) : PropertyValue :=
  parseAs (trimText (propertyToString txt v)) type

/-- The values that are read from a column of a type. -/
def Fits : AttrType → PropertyValue → Prop
  | .string, .string s => trimText s = s
  | .long, .int _ => True
  | .long, .string s => trimText s = s ∧ parseI64 s = none
  | .boolean, .bool _ => True
  | _, _ => False

instance (type : AttrType) (v : PropertyValue) : Decidable (Fits type v) := by
  unfold Fits
  split <;> infer_instance

/-- The types of the columns of truth values, integers and strings. -/
def PlainColumn (type : AttrType) : Prop := type = .string ∨ type = .long ∨ type = .boolean

lemma fits_readAs {type : AttrType} (htype : PlainColumn type) (txt : FloatText) (v : PropertyValue) :
    Fits type (readAs txt type v) := by
  rcases htype with rfl | rfl | rfl
  · exact trimText_trimText _
  · rw [readAs, parseAs]
    split
    · trivial
    · next hnone => exact ⟨trimText_trimText _, hnone⟩
  · trivial

/-- A value that fits its column is read as it was. -/
lemma readAs_of_fits {type : AttrType} {v : PropertyValue} (h : Fits type v) (txt : FloatText) :
    readAs txt type v = v := by
  unfold Fits at h
  split at h
  · rw [readAs, propertyToString, h, parseAs]
  · rw [readAs, propertyToString, trimText_toString_int, parseAs, parseI64_toString]
  · obtain ⟨htrim, hnone⟩ := h
    rw [readAs, propertyToString, htrim, parseAs, hnone]
  · next b =>
    have hword : parseAs (trimText (toString b)) .boolean = .bool b := by
      rcases b with - | -
      · decide
      · decide
    exact hword
  · exact h.elim

/-! ## Types -/

/-- The type of the first of the values with a name. -/
def firstType (elements : List Properties) (name : String) : Option String :=
  elements.findSome? fun properties => (properties.lookup name).map propertyType

/-- The type of a column; a name without values has none, and `string` stands for it. -/
def columnType (elements : List Properties) (name : String) : AttrType :=
  .fromStr ((firstType elements name).getD "string")

lemma lookup_collectTypes (types : HashMap String String) (properties : Properties) (name : String) :
    (collectTypes types properties).lookup name = (types.lookup name).or ((properties.lookup name).map propertyType) := by
  have hfold : ∀ (entries : Entries) (types : HashMap String String), entries.NodupKeys →
      (entries.foldl (fun types p => if p.1 ∈ types then types else types.insert p.1 (propertyType p.2)) types).lookup
        name = (types.lookup name).or ((entries.dlookup name).map propertyType) := by
    intro entries
    induction entries with
    | nil => exact fun types _ => Option.or_none.symm
    | cons p entries ih =>
      intro types hnodup
      obtain ⟨key, v⟩ := p
      rw [List.nodupKeys_cons] at hnodup
      rw [List.foldl_cons, ih _ hnodup.2]
      by_cases hname : name = key
      · subst hname
        have hnone : entries.dlookup name = none := List.dlookup_eq_none.mpr hnodup.1
        rw [hnone, List.dlookup_cons_eq]
        by_cases hmem : name ∈ types
        · obtain ⟨type, htype⟩ := Option.isSome_iff_exists.mp (AList.lookup_isSome.mpr hmem)
          simp [hmem, htype]
        · have htypes : types.lookup name = none := AList.lookup_eq_none.mpr hmem
          simp [hmem, htypes]
      · rw [List.dlookup_cons_ne entries ⟨key, v⟩ hname]
        congr 1
        split
        · rfl
        · exact AList.lookup_insert_ne hname
  exact hfold _ _ properties.nodupKeys

/-- The collected types are those of the first values. -/
lemma lookup_foldl_collectTypes (elements : List Properties) (types : HashMap String String) (name : String) :
    (elements.foldl collectTypes types).lookup name = (types.lookup name).or (firstType elements name) := by
  induction elements generalizing types with
  | nil => exact Option.or_none.symm
  | cons properties elements ih =>
    rw [List.foldl_cons, ih, lookup_collectTypes, firstType, firstType, List.findSome?_cons]
    rcases types.lookup name with - | type
    · rcases (properties.lookup name).map propertyType with - | type
      · rfl
      · rfl
    · rfl

/-- The properties of the nodes in the order of the nodes. -/
def nodeProperties (g : Graph) : List Properties := (g.nodes.filterMap id).map Node.properties

def edgeProperties (g : Graph) : List Properties := (g.edges.filterMap id).map Edge.properties

lemma lookup_nodeTypes (g : Graph) (name : String) : (nodeTypes g).lookup name = firstType (nodeProperties g) name := by
  have hfold := lookup_foldl_collectTypes (nodeProperties g) ∅ name
  rw [nodeProperties, List.foldl_map, AList.lookup_empty, Option.none_or] at hfold
  exact hfold

lemma lookup_edgeTypes (g : Graph) (name : String) : (edgeTypes g).lookup name = firstType (edgeProperties g) name := by
  have hfold := lookup_foldl_collectTypes (edgeProperties g) ∅ name
  rw [edgeProperties, List.foldl_map, AList.lookup_empty, Option.none_or] at hfold
  exact hfold

/-- A truth value, an integer or a string. -/
def PlainValue : PropertyValue → Prop
  | .bool _ | .int _ | .string _ => True
  | _ => False

instance : DecidablePred PlainValue
  | .bool _ | .int _ | .string _ => isTrue trivial
  | .null | .float _ | .date _ | .dateTime _ | .duration _ _ _ => isFalse not_false

/-- The columns of plain values have plain types. -/
lemma plainColumn {elements : List Properties}
    (h : ∀ properties ∈ elements, ∀ k v, properties.lookup k = some v → PlainValue v) (name : String) :
    PlainColumn (columnType elements name) := by
  rw [columnType]
  rcases hfirst : firstType elements name with - | type
  · exact Or.inl rfl
  · obtain ⟨properties, hmem, htype⟩ := List.exists_of_findSome?_eq_some hfirst
    obtain ⟨v, hv, rfl⟩ := Option.map_eq_some_iff.mp htype
    have hplain := h properties hmem name v hv
    rcases v with _ | _ | _ | _ | _ | _ | _ | _
    · exact hplain.elim
    · exact Or.inr (Or.inr rfl)
    · exact Or.inr (Or.inl rfl)
    · exact hplain.elim
    · exact Or.inl rfl
    · exact hplain.elim
    · exact hplain.elim
    · exact hplain.elim

/-- Every name with a value has a type. -/
lemma exists_firstType {elements : List Properties} {properties : Properties} (hmem : properties ∈ elements)
    {name : String} {v : PropertyValue} (hv : properties.lookup name = some v) :
    ∃ type, firstType elements name = some type := by
  rw [← Option.isSome_iff_exists, firstType, List.findSome?_isSome_iff]
  exact ⟨properties, hmem, by rw [hv]; rfl⟩

end GraphMl

end Io

end Maharit
