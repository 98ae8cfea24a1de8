import Mathlib
import MaharitDb.Core.GraphBackend

/-!
# Replicated log entries

The entries a leader ships to its followers (`maharit-server/src/replication.rs`) and the text that
carries a property value: `property_value_to_wal_string` on the leader
(`maharit-server/src/mutation_log.rs`) and its reading on the follower.

JSON reading and writing is `serde_json`, a third-party package.  It enters as the parameter
`JsonText`; what the encoding relies on is the hypothesis `JsonText.Faithful`.
-/

namespace Maharit

/-- A replicated log entry. -/
inductive WalEntryData where
  | createNode (nodeId : NodeId) (labels : List String)
  | deleteNode (nodeId : NodeId)
  | createEdge (edgeId : EdgeId) (fromNode toNode : NodeId) (label : String)
  | deleteEdge (edgeId : EdgeId)
  | setProperty (targetId : UInt64) (isNode : Bool) (key value : String)
  | removeProperty (targetId : UInt64) (isNode : Bool) (key : String)
  | addLabel (nodeId : NodeId) (label : String)
  | removeLabel (nodeId : NodeId) (label : String)
  deriving DecidableEq, Repr

/-! ## JSON -/

/-- A JSON number as the reader keeps it. -/
inductive JsonNumber where
  | posInt (n : UInt64)
  | negInt (n : Int64)
  | float (x : F64)
  deriving DecidableEq, Repr

/-- `Number::as_i64`. -/
def JsonNumber.asI64 : JsonNumber → Option Int64
  | posInt n => if n.toNat < 2 ^ 63 then some n.toInt64 else none
  | negInt n => some n
  | float _ => none

/-- `Number::as_f64`. -/
def JsonNumber.asF64 : JsonNumber → Option F64
  | posInt n => some (.ofUInt64 n)
  | negInt n => some (.ofInt64 n)
  | float x => some x

/-- A JSON value.  Arrays and objects are told apart from the other values and not looked into. -/
inductive JsonValue where
  | null
  | bool (b : Bool)
  | number (n : JsonNumber)
  | string (s : String)
  | array
  | object
  deriving DecidableEq, Repr

/-- The text functions taken from outside the repository. -/
structure JsonText where
  /-- The decimal text of a float. -/
  floatText : FloatText
  /-- `serde_json::to_string` of a string. -/
  writeString : String → String
  /-- `serde_json::from_str::<Value>`; `none` is a syntax error. -/
  read : String → Option JsonValue

/-- The documented behaviour of the JSON package on the texts the log uses: the literals read as
what they denote, the decimal text of a 64-bit integer reads as that integer, and a written string
reads back. -/
structure JsonText.Faithful (J : JsonText) : Prop where
  read_null : J.read "null" = some .null
  read_bool : ∀ b : Bool, J.read (toString b) = some (.bool b)
  read_int : ∀ n : Int64, ∃ m, J.read (toString n.toInt) = some (.number m) ∧ m.asI64 = some n
  read_string : ∀ s, J.read (J.writeString s) = some (.string s)

/-! ## The text of a value -/

/-- Encode a property value for `WalEntryData.setProperty`. -/
def propertyValueToWalString (J : JsonText) : PropertyValue → String
  | .null => "null"
  | .bool b => toString b
  | .int n => toString n.toInt
  | .float x =>
      if x.isFinite then J.floatText.debug x
      else J.writeString ((PropertyValue.float x).toDisplay J.floatText)
  | .string s => J.writeString s
  | .date days => J.writeString ((PropertyValue.date days).toDisplay J.floatText)
  | .dateTime ms => J.writeString ((PropertyValue.dateTime ms).toDisplay J.floatText)
  | .duration months days millis =>
      J.writeString ((PropertyValue.duration months days millis).toDisplay J.floatText)

/-- The value a follower stores for a text, as `apply_wal_entry` decodes it. -/
def walStringToPropertyValue (J : JsonText) (text : String) : PropertyValue :=
  match J.read text with
  | some .null => .null
  | some (.bool b) => .bool b
  | some (.number n) =>
      match n.asI64 with
      | some i => .int i
      | none => .float (n.asF64.getD ⟨0⟩)
  | some (.string s) => .string s
  | some .array | some .object | none => .string text

/-- A value whose text reads back as itself, as far as the kinds of values decide it: no date, time
or duration, and a float only when the reader returns it from its decimal text. -/
def SurvivesWal (J : JsonText) : PropertyValue → Prop
  | .null | .bool _ | .int _ | .string _ => True
  | .float x => x.isFinite ∧
      ∃ n, J.read (J.floatText.debug x) = some (.number n) ∧ n.asI64 = none ∧ n.asF64 = some x
  | .date _ | .dateTime _ | .duration _ _ _ => False

/-- A value is decoded as itself exactly when it survives the log. -/
theorem walStringToPropertyValue_eq_iff {J : JsonText} (hJ : J.Faithful) (v : PropertyValue) :
    walStringToPropertyValue J (propertyValueToWalString J v) = v ↔ SurvivesWal J v := by
  cases v with
  | null => simp [propertyValueToWalString, walStringToPropertyValue, SurvivesWal, hJ.read_null]
  | bool b => simp [propertyValueToWalString, walStringToPropertyValue, SurvivesWal, hJ.read_bool]
  | int n =>
    obtain ⟨m, hm, hi⟩ := hJ.read_int n
    simp only [propertyValueToWalString, walStringToPropertyValue, SurvivesWal, hm, hi]
  | float x =>
    by_cases hx : x.isFinite
    · simp only [propertyValueToWalString, walStringToPropertyValue, SurvivesWal, hx, if_true]
      rcases J.read (J.floatText.debug x) with _ | (_ | _ | n | _ | _ | _)
      case some.number =>
        cases n <;> simp [JsonNumber.asI64, JsonNumber.asF64]
        split <;> simp_all
      all_goals simp
    · simp [propertyValueToWalString, walStringToPropertyValue, SurvivesWal, hx, hJ.read_string]
  | string s =>
    simp [propertyValueToWalString, walStringToPropertyValue, SurvivesWal, hJ.read_string]
  | date days =>
    simp [propertyValueToWalString, walStringToPropertyValue, SurvivesWal, hJ.read_string]
  | dateTime ms =>
    simp [propertyValueToWalString, walStringToPropertyValue, SurvivesWal, hJ.read_string]
  | duration months days millis =>
    simp [propertyValueToWalString, walStringToPropertyValue, SurvivesWal, hJ.read_string]

/-! ## A reader and writer

An instance of the parameter that agrees with the package on the literals, the decimal integers and
the strings without control characters. -/

namespace LogJson

/-- The escape of one character inside a JSON string; control characters are left alone. -/
def escapeChar (c : Char) : List Char :=
  if c = '"' ∨ c = '\\' then ['\\', c] else [c]

/-- Read the rest of a string literal up to its closing quote, which must end the text. -/
def unquote : List Char → Option (List Char)
  | [] => none
  | [c] => if c = '"' then some [] else none
  | c :: d :: rest =>
      if c = '\\' then (unquote rest).map (d :: ·)
      else if c = '"' then none
      else (unquote (d :: rest)).map (c :: ·)

lemma unquote_escapeChar (c : Char) {rest : List Char} (hrest : rest ≠ []) :
    unquote (escapeChar c ++ rest) = (unquote rest).map (c :: ·) := by
  obtain ⟨d, rest, rfl⟩ := List.exists_cons_of_ne_nil hrest
  unfold escapeChar
  split
  · simp [unquote]
  · rename_i hc
    rw [not_or] at hc
    simp [unquote, hc.1, hc.2]

lemma unquote_flatMap_escapeChar (cs : List Char) :
    unquote (cs.flatMap escapeChar ++ ['"']) = some cs := by
  induction cs with
  | nil => rfl
  | cons c cs ih =>
    rw [List.flatMap_cons, List.append_assoc, unquote_escapeChar c (by simp), ih]
    rfl

/-- `to_string` of a string. -/
def writeString (s : String) : String :=
  String.ofList ('"' :: (s.toList.flatMap escapeChar ++ ['"']))

/-- `from_str`, for the literals, the integers and the strings. -/
def read (text : String) : Option JsonValue :=
  match text.toList with
  | '"' :: rest => (unquote rest).map fun cs => .string (String.ofList cs)
  | ['n', 'u', 'l', 'l'] => some .null
  | ['t', 'r', 'u', 'e'] => some (.bool true)
  | ['f', 'a', 'l', 's', 'e'] => some (.bool false)
  | _ => text.toInt?.map fun n =>
      .number (if 0 ≤ n then .posInt (UInt64.ofNat n.toNat) else .negInt (Int64.ofInt n))

/-- The text of an integer starts with a digit or a minus sign. -/
lemma head_repr {n : ℤ} {c : Char} {rest : List Char} (h : n.repr.toList = c :: rest) :
    c.isDigit ∨ c = '-' := by
  rw [Int.repr_eq_if] at h
  split at h
  · left
    have hmem : c ∈ (Nat.repr n.toNat).toList := by simp [h]
    exact Nat.isDigit_of_mem_toDigits (b := 10) (by decide) (by decide) (by simpa using hmem)
  · right
    rw [String.toList_append] at h
    exact (List.cons.inj h).1.symm

/-- A 64-bit integer is kept exactly. -/
lemma asI64_ofInt (n : Int64) :
    (if 0 ≤ n.toInt then JsonNumber.posInt (UInt64.ofNat n.toInt.toNat)
      else JsonNumber.negInt (Int64.ofInt n.toInt)).asI64 = some n := by
  split
  · rename_i hn
    have hlt : n.toInt < 2 ^ 63 := n.toInt_lt
    have hnat : ((n.toInt.toNat : ℕ) : ℤ) = n.toInt := Int.toNat_of_nonneg hn
    have hsmall : (UInt64.ofNat n.toInt.toNat).toNat < 2 ^ 63 := by
      rw [UInt64.toNat_ofNat']
      omega
    have hback : (UInt64.ofNat n.toInt.toNat).toInt64 = n := by
      rw [UInt64.toInt64_ofNat', ← Int64.ofInt_eq_ofNat, hnat, Int64.ofInt_toInt]
    simp only [JsonNumber.asI64, hsmall, if_true, hback]
  · simp [JsonNumber.asI64]

lemma read_int (n : Int64) :
    ∃ m, read (toString n.toInt) = some (.number m) ∧ m.asI64 = some n := by
  have h : (toString n.toInt).toInt? = some n.toInt := Int.toInt?_repr _
  refine ⟨_, ?_, asI64_ofInt n⟩
  unfold read
  split
  case h_5 => rw [h]; rfl
  all_goals
    rename_i hrest
    exact absurd (head_repr hrest) (by decide)

end LogJson

/-- The text functions, with the decimal text of floats left open. -/
def logJson (floatText : FloatText) : JsonText := ⟨floatText, LogJson.writeString, LogJson.read⟩

theorem logJson_faithful (floatText : FloatText) : (logJson floatText).Faithful where
  read_null := rfl
  read_bool b := by cases b <;> rfl
  read_int := LogJson.read_int
  read_string s := by
    simp [logJson, LogJson.read, LogJson.writeString, LogJson.unquote_flatMap_escapeChar]

end Maharit
