import MaharitDb.Core.CalendarText
import MaharitDb.Query.ValueText

/-!
# Reading values back from their texts

Strings are not escaped, so whether a value can be told from its text depends on the characters that strings
may have.  `Universe` says which values there are; `text_append_inj` reads a value of a readable universe
back from its text and from what can follow it in a list or in a row.
-/

namespace Maharit

open Temporal DecimalText

/-- The character between the values of a row. -/
def nul : Char := Char.ofNat 0

/-- The character around a string. -/
def quote : Char := Char.ofNat 34

/-- Values without floats: which characters strings have, whether there are lists, which times there are,
and the data of the nodes of a graph. -/
structure Universe where
  chars : Set Char
  lists : Prop
  dateTimes : Set Int64
  nodeData : NodeId → List String × List (String × PropertyValue)

namespace Universe

/-- The values of the universe. -/
inductive Has (U : Universe) : Value → Prop where
  | null : U.Has .null
  | bool (b : Bool) : U.Has (.bool b)
  | int (n : Int64) : U.Has (.int n)
  | string (s : String) (hs : ∀ c ∈ s.toList, c ∈ U.chars) : U.Has (.string s)
  | node (id : NodeId) : U.Has (.node id)
  | nodeData (id : NodeId) : U.Has (.nodeData id (U.nodeData id).1 (U.nodeData id).2)
  | list (items : List Value) (hlists : U.lists) (hitems : ∀ v ∈ items, U.Has v) : U.Has (.list items)
  | date (days : Int32) : U.Has (.date days)
  | dateTime (ms : Int64) (hms : ms ∈ U.dateTimes) : U.Has (.dateTime ms)

/-- No string can be mistaken for the end of a string, and no two times are written alike. -/
structure Readable (U : Universe) : Prop where
  quotes : quote ∉ U.chars ∨ (nul ∉ U.chars ∧ (U.lists → ',' ∉ U.chars ∨ ' ' ∉ U.chars))
  dateTimes : ∀ ms ∈ U.dateTimes, ∀ ms' ∈ U.dateTimes, wrapMillis ∣ ms.toInt - ms'.toInt → ms = ms'

end Universe

variable (txt : FloatText)

/-- The characters of the text of a value. -/
def text (v : Value) : List Char := (v.toDisplay txt).toList

/-- The items after the first one. -/
def tailText (items : List Value) : List Char := items.flatMap fun v => ',' :: ' ' :: text txt v

/-! ## The texts by kind -/

lemma text_bool (b : Bool) : text txt (.bool b) = (toString b).toList := by
  rw [text, Value.toDisplay]

lemma text_int (n : Int64) : text txt (.int n) = intText 0 n.toInt := by
  rw [text, Value.toDisplay, toList_toString_int]

lemma text_string (s : String) : text txt (.string s) = quote :: (s.toList ++ [quote]) := by
  rw [text, Value.toDisplay, String.toList_append, String.toList_append, List.append_assoc]
  rfl

lemma text_node (id : NodeId) :
    text txt (.node id) = 'N' :: 'o' :: 'd' :: 'e' :: '(' :: (paddedDigits 0 id.toNat ++ [')']) := by
  rw [text, Value.toDisplay, String.toList_append, String.toList_append, toList_toString_nat,
    List.append_assoc]
  rfl

lemma text_nodeData (id : NodeId) (labels : List String) (properties : List (String × PropertyValue)) :
    text txt (.nodeData id labels properties) =
      '(' :: (paddedDigits 0 id.toNat ++ (labels.flatMap (fun l => ':' :: l.toList) ++ [')'])) := by
  have hlabels : (String.join (labels.map (":" ++ ·))).toList = labels.flatMap fun l => ':' :: l.toList := by
    rw [String.toList_join, List.flatMap_map]
    congr 1
    funext l
    rw [String.toList_append]
    rfl
  rw [text, Value.toDisplay, String.toList_append, String.toList_append, String.toList_append,
    toList_toString_nat, hlabels, List.append_assoc, List.append_assoc]
  rfl

lemma text_date (days : Int32) (r : List Char) :
    text txt (.date days) ++ r = ymdText (daysToYmd days) r := by
  rw [text, Value.toDisplay, toList_dateToString]

lemma text_dateTime (ms : Int64) (r : List Char) : text txt (.dateTime ms) ++ r =
    ymdText (daysToYmd (Int32.ofInt (dayNumber ms))) (timeText (timeOfDay ms) r) := by
  rw [text, Value.toDisplay, toList_dateTimeToString]

/-- A separated list is its first part and the others, each after a separator. -/
lemma intercalate_cons (sep a : List Char) (l : List (List Char)) :
    sep.intercalate (a :: l) = a ++ l.flatMap (sep ++ ·) := by
  induction l generalizing a with
  | nil => simp
  | cons b l ih =>
    rw [List.intercalate_cons_cons, ih b, List.flatMap_cons, List.append_assoc, List.append_assoc]

lemma displayItems_eq_map (items : List Value) :
    Value.displayItems txt items = items.map (Value.toDisplay txt) := by
  induction items with
  | nil => rw [Value.displayItems, List.map_nil]
  | cons v items ih => rw [Value.displayItems, ih, List.map_cons]

/-- The text of a list. -/
def listText : List Value → List Char
  | [] => []
  | v :: items => text txt v ++ tailText txt items

lemma text_list (items : List Value) : text txt (.list items) = '[' :: (listText txt items ++ [']']) := by
  have hitems : (", ".intercalate (Value.displayItems txt items)).toList = listText txt items := by
    rw [String.toList_intercalate, displayItems_eq_map, List.map_map]
    cases items with
    | nil => rfl
    | cons v items =>
      rw [List.map_cons, intercalate_cons, listText, tailText, List.flatMap_map]
      rfl
  rw [text, Value.toDisplay, String.toList_append, String.toList_append, hitems, List.append_assoc]
  rfl

/-! ## What follows a value -/

/-- What can follow a value inside `d` lists of a row. -/
inductive Follows : ℕ → List Char → Prop where
  | done : Follows 0 []
  | nextColumn (r : List Char) : Follows 0 (nul :: r)
  | nextItem (d : ℕ) (r : List Char) : Follows (d + 1) (',' :: ' ' :: r)
  | close {d : ℕ} {r : List Char} (h : Follows d r) : Follows (d + 1) (']' :: r)

lemma Follows.head {d : ℕ} {r : List Char} (h : Follows d r) :
    ∀ c ∈ r.head?, c = nul ∨ c = ',' ∨ c = ']' := by
  intro c hc
  cases h with
  | done => simp at hc
  | nextColumn r => exact Or.inl (Option.some.inj hc).symm
  | nextItem d r => exact Or.inr (Or.inl (Option.some.inj hc).symm)
  | close h => exact Or.inr (Or.inr (Option.some.inj hc).symm)

lemma Follows.endsDigits {d : ℕ} {r : List Char} (h : Follows d r) : EndsDigits r := by
  intro c hc
  rcases h.head c hc with rfl | rfl | rfl <;> decide

lemma Follows.ne_cons {d : ℕ} {c : Char} {r : List Char} (h : Follows d (c :: r)) (hnul : c ≠ nul)
    (hcomma : c ≠ ',') (hclose : c ≠ ']') : False := by
  rcases h.head c rfl with hc | hc | hc
  exacts [hnul hc, hcomma hc, hclose hc]

lemma follows_tailText (items : List Value) {d : ℕ} {r : List Char} (h : Follows d r) :
    Follows (d + 1) (tailText txt items ++ ']' :: r) := by
  cases items with
  | nil => exact Follows.close h
  | cons v items => exact Follows.nextItem d _

/-- A quote in a string is not followed by what can follow the string. -/
lemma Universe.Readable.not_follows {U : Universe} (hU : U.Readable) {d : ℕ} (hd : d = 0 ∨ U.lists)
    {t r : List Char} (ht : ∀ c ∈ quote :: t, c ∈ U.chars) : ¬ Follows d (t ++ quote :: r) := by
  have hquote : quote ∈ U.chars := ht quote List.mem_cons_self
  obtain ⟨hnul, hlist⟩ := hU.quotes.resolve_left (not_not.mpr hquote)
  intro h
  induction d generalizing t with
  | zero =>
    -- What follows a value of a row starts with the character between the columns.
    cases t with
    | nil => exact h.ne_cons (by decide) (by decide) (by decide)
    | cons c t =>
      have hc : c ∈ U.chars := ht c (by simp)
      cases h
      exact hnul hc
  | succ d ih =>
    have hlists : U.lists := hd.resolve_left (Nat.succ_ne_zero d)
    cases t with
    | nil => exact h.ne_cons (by decide) (by decide) (by decide)
    | cons c t =>
      generalize hl : c :: t ++ quote :: r = l at h
      cases h with
      | nextItem d r' =>
        rw [List.cons_append, List.cons.injEq] at hl
        obtain ⟨rfl, hl⟩ := hl
        have hcomma : ',' ∈ U.chars := ht ',' (by simp)
        cases t with
        | nil =>
          rw [List.nil_append, List.cons.injEq] at hl
          exact absurd hl.1 (by decide)
        | cons c t =>
          rw [List.cons_append, List.cons.injEq] at hl
          obtain ⟨rfl, -⟩ := hl
          have hblank : ' ' ∈ U.chars := ht ' ' (by simp)
          exact (hlist hlists).elim (absurd hcomma) (absurd hblank)
      | close h =>
        rw [List.cons_append, List.cons.injEq] at hl
        obtain ⟨rfl, rfl⟩ := hl
        refine ih (t := t) (Or.inr hlists) (fun c hc => ht c ?_) h
        rcases List.mem_cons.mp hc with rfl | hc
        · exact List.mem_cons_self
        · exact List.mem_cons_of_mem _ (List.mem_cons_of_mem _ hc)

/-! ## Kinds -/

/-- The kinds of values that the first character of a text tells apart. -/
inductive TextKind where
  | null | bool | number | string | node | nodeData | list | other
  deriving DecidableEq

/-- The kind of the values whose text starts with the character. -/
def textKindOf (c : Char) : TextKind :=
  if c = 'n' then .null else if c = 't' ∨ c = 'f' then .bool else if c = quote then .string
  else if c = 'N' then .node else if c = '(' then .nodeData else if c = '[' then .list
  else if c = '-' ∨ c.isDigit = true then .number else .other

/-- The kind of a value. -/
def Value.textKind : Value → TextKind
  | .null => .null
  | .bool _ => .bool
  | .int _ | .date _ | .dateTime _ => .number
  | .string _ => .string
  | .node _ => .node
  | .nodeData _ _ _ => .nodeData
  | .list _ => .list
  | _ => .other

lemma textKind_number {c : Char} (hc : c = '-' ∨ c.isDigit = true) : textKindOf c = .number := by
  have hne : ∀ c' : Char, c' ≠ '-' → c'.isDigit = false → c ≠ c' := by
    rintro c' hminus hdigit rfl
    rcases hc with hc | hc
    · exact hminus hc
    · rw [hdigit] at hc
      exact absurd hc (by decide)
  rw [textKindOf, if_neg (hne _ (by decide) (by decide)),
    if_neg (not_or.mpr ⟨hne _ (by decide) (by decide), hne _ (by decide) (by decide)⟩),
    if_neg (hne _ (by decide) (by decide)), if_neg (hne _ (by decide) (by decide)),
    if_neg (hne _ (by decide) (by decide)), if_neg (hne _ (by decide) (by decide)), if_pos hc]

/-- The first character of a text shows the kind of the value. -/
lemma text_eq_cons {U : Universe} {v : Value} (hv : U.Has v) :
    ∃ c t, text txt v = c :: t ∧ textKindOf c = v.textKind ∧ v.textKind ≠ .other := by
  have hnumber : ∀ {zeros : ℕ} {n : ℤ} {t t' : List Char}, t' = intText zeros n ++ t →
      ∃ c t'', t' = c :: t'' ∧ textKindOf c = .number ∧ TextKind.number ≠ .other := by
    intro zeros n t t' ht
    obtain ⟨c, t'', hcons, hc⟩ := intText_eq_cons zeros n
    exact ⟨c, t'' ++ t, by rw [ht, hcons, List.cons_append], textKind_number hc, by decide⟩
  cases hv with
  | null => exact ⟨'n', _, by rw [text, Value.toDisplay]; rfl, by decide, by decide⟩
  | bool b =>
    cases b
    · exact ⟨'f', _, by rw [text_bool]; rfl, by decide, by decide⟩
    · exact ⟨'t', _, by rw [text_bool]; rfl, by decide, by decide⟩
  | int n => exact hnumber (by rw [text_int, List.append_nil])
  | string s hs => exact ⟨quote, _, text_string txt s,
      by rw [Value.textKind]; decide, by rw [Value.textKind]; decide⟩
  | node id => exact ⟨'N', _, text_node txt id,
      by rw [Value.textKind]; decide, by rw [Value.textKind]; decide⟩
  | nodeData id => exact ⟨'(', _, text_nodeData txt id _ _,
      by rw [Value.textKind]; decide, by rw [Value.textKind]; decide⟩
  | list items hlists hitems => exact ⟨'[', _, text_list txt items,
      by rw [Value.textKind]; decide, by rw [Value.textKind]; decide⟩
  | date days =>
    have h := text_date txt days []
    rw [List.append_nil, ymdText, toList_padInt] at h
    exact hnumber h
  | dateTime ms hms =>
    have h := text_dateTime txt ms []
    rw [List.append_nil, ymdText, toList_padInt] at h
    exact hnumber h

/-- Values with the same text have the same kind, whatever follows the texts. -/
lemma textKind_eq {U : Universe} {v w : Value} (hv : U.Has v) (hw : U.Has w) {r r' : List Char}
    (h : text txt v ++ r = text txt w ++ r') : v.textKind = w.textKind := by
  obtain ⟨c, t, hcons, hkind, -⟩ := text_eq_cons txt hv
  obtain ⟨c', t', hcons', hkind', -⟩ := text_eq_cons txt hw
  rw [hcons, hcons', List.cons_append, List.cons_append, List.cons.injEq] at h
  rw [← hkind, ← hkind', h.1]

/-- No text starts with the end of a list. -/
lemma text_append_ne_close {U : Universe} {v : Value} (hv : U.Has v) {r r' : List Char} :
    text txt v ++ r ≠ ']' :: r' := by
  obtain ⟨c, t, hcons, hkind, hother⟩ := text_eq_cons txt hv
  intro h
  rw [hcons, List.cons_append, List.cons.injEq] at h
  rw [← hkind, h.1] at hother
  exact hother (by decide)

/-! ## Reading a value back -/

/-- Two strings with their quotes are told apart when the universe is readable. -/
lemma string_append_inj {U : Universe} (hU : U.Readable) {d : ℕ} (hd : d = 0 ∨ U.lists)
    {s s' r r' : List Char} (hs : ∀ c ∈ s, c ∈ U.chars) (hs' : ∀ c ∈ s', c ∈ U.chars) (hr : Follows d r)
    (hr' : Follows d r') (h : s ++ quote :: r = s' ++ quote :: r') : s = s' ∧ r = r' := by
  rcases List.append_eq_append_iff.mp h with ⟨t, hs't, hrt⟩ | ⟨t, hst, hrt⟩
  · cases t with
    | nil =>
      rw [List.append_nil] at hs't
      exact ⟨hs't.symm, List.tail_eq_of_cons_eq hrt⟩
    | cons c t =>
      rw [List.cons_append, List.cons.injEq] at hrt
      obtain ⟨rfl, rfl⟩ := hrt
      refine absurd hr (hU.not_follows hd fun c hc => hs' c ?_)
      rw [hs't]
      exact List.mem_append_right s hc
  · cases t with
    | nil =>
      rw [List.append_nil] at hst
      exact ⟨hst, (List.tail_eq_of_cons_eq hrt).symm⟩
    | cons c t =>
      rw [List.cons_append, List.cons.injEq] at hrt
      obtain ⟨rfl, rfl⟩ := hrt
      refine absurd hr' (hU.not_follows hd fun c hc => hs c ?_)
      rw [hst]
      exact List.mem_append_right s' hc

/-- The items after the first one are read back when every item is. -/
lemma tailText_append_inj {U : Universe} {d : ℕ} {items : List Value}
    (ih : ∀ v ∈ items, ∀ w, U.Has w → ∀ r r', Follows (d + 1) r → Follows (d + 1) r' →
      text txt v ++ r = text txt w ++ r' → v = w ∧ r = r')
    {items' : List Value} (hitems' : ∀ w ∈ items', U.Has w) {r r' : List Char} (hr : Follows d r)
    (hr' : Follows d r') (h : tailText txt items ++ ']' :: r = tailText txt items' ++ ']' :: r') :
    items = items' ∧ r = r' := by
  induction items generalizing items' with
  | nil =>
    cases items' with
    | nil => exact ⟨rfl, List.tail_eq_of_cons_eq h⟩
    | cons w items' =>
      rw [tailText, tailText, List.flatMap_cons, List.cons_append, List.cons_append, List.cons_append,
        List.flatMap_nil, List.nil_append, List.cons.injEq] at h
      exact absurd h.1 (by decide)
  | cons v items ihl =>
    cases items' with
    | nil =>
      rw [tailText, tailText, List.flatMap_cons, List.cons_append, List.cons_append, List.cons_append,
        List.flatMap_nil, List.nil_append, List.cons.injEq] at h
      exact absurd h.1 (by decide)
    | cons w items' =>
      rw [tailText, tailText, List.flatMap_cons, List.flatMap_cons, ← tailText, ← tailText,
        List.append_assoc, List.append_assoc, List.cons_append, List.cons_append, List.cons_append,
        List.cons_append, List.cons.injEq, List.cons.injEq] at h
      obtain ⟨hvw, hrest⟩ := ih v List.mem_cons_self w (hitems' w List.mem_cons_self) _ _
        (follows_tailText txt items hr) (follows_tailText txt items' hr') h.2.2
      obtain ⟨hitems, hrr⟩ := ihl (fun v hv => ih v (List.mem_cons_of_mem _ hv))
        (fun w hw => hitems' w (List.mem_cons_of_mem _ hw)) hrest
      exact ⟨by rw [hvw, hitems], hrr⟩

/-- The items of a list are read back when every item is. -/
lemma listText_append_inj {U : Universe} {d : ℕ} {items : List Value} (hitems : ∀ v ∈ items, U.Has v)
    (ih : ∀ v ∈ items, ∀ w, U.Has w → ∀ r r', Follows (d + 1) r → Follows (d + 1) r' →
      text txt v ++ r = text txt w ++ r' → v = w ∧ r = r')
    {items' : List Value} (hitems' : ∀ w ∈ items', U.Has w) {r r' : List Char} (hr : Follows d r)
    (hr' : Follows d r') (h : listText txt items ++ ']' :: r = listText txt items' ++ ']' :: r') :
    items = items' ∧ r = r' := by
  cases items with
  | nil =>
    cases items' with
    | nil => exact ⟨rfl, List.tail_eq_of_cons_eq h⟩
    | cons w items' =>
      rw [listText, listText, List.nil_append, List.append_assoc] at h
      exact absurd h.symm (text_append_ne_close txt (hitems' w List.mem_cons_self))
  | cons v items =>
    cases items' with
    | nil =>
      rw [listText, listText, List.nil_append, List.append_assoc] at h
      exact absurd h (text_append_ne_close txt (hitems v List.mem_cons_self))
    | cons w items' =>
      rw [listText, listText, List.append_assoc, List.append_assoc] at h
      obtain ⟨hvw, hrest⟩ := ih v List.mem_cons_self w (hitems' w List.mem_cons_self) _ _
        (follows_tailText txt items hr) (follows_tailText txt items' hr') h
      obtain ⟨htail, hrr⟩ := tailText_append_inj txt (fun v hv => ih v (List.mem_cons_of_mem _ hv))
        (fun w hw => hitems' w (List.mem_cons_of_mem _ hw)) hr hr' hrest
      exact ⟨by rw [hvw, htail], hrr⟩

/-- A number is not the first part of a date. -/
lemma intText_append_ne_ymdText {n : ℤ} {d : ℕ} {r r' : List Char} (hr : Follows d r)
    {p : Int32 × Int32 × Int32} : intText 0 n ++ r ≠ ymdText p r' := by
  intro h
  rw [ymdText, toList_padInt] at h
  obtain ⟨-, rfl⟩ := intText_append_inj hr.endsDigits (endsDigits_cons (by decide) _) h
  exact hr.ne_cons (by decide) (by decide) (by decide)

/-- A date is not the first part of a time. -/
lemma ymdText_ne_timeText {d : ℕ} {r r' : List Char} (hr : Follows d r) {p p' : Int32 × Int32 × Int32}
    {t : ℤ × ℤ × ℤ × ℤ} : ymdText p r ≠ ymdText p' (timeText t r') := by
  intro h
  obtain ⟨-, rfl⟩ := ymdText_inj hr.endsDigits (endsDigits_cons (by decide) _) h
  exact hr.ne_cons (by decide) (by decide) (by decide)

/-- A value of a readable universe and what follows it can be read back. -/
theorem text_append_inj {U : Universe} (hU : U.Readable) {v : Value} (hv : U.Has v) :
    ∀ {w : Value}, U.Has w → ∀ {d : ℕ}, (d = 0 ∨ U.lists) → ∀ {r r' : List Char}, Follows d r →
      Follows d r' → text txt v ++ r = text txt w ++ r' → v = w ∧ r = r' := by
  induction hv with
  | null =>
    intro w hw d hd r r' hr hr' h
    have hkind := textKind_eq txt Universe.Has.null hw h
    cases hw with
    | null => exact ⟨rfl, List.append_cancel_left h⟩
    | _ => simp [Value.textKind] at hkind
  | bool b =>
    intro w hw d hd r r' hr hr' h
    have hkind := textKind_eq txt (Universe.Has.bool b) hw h
    cases hw with
    | bool b' =>
      rw [text_bool, text_bool] at h
      have hb : b = b' := by
        cases b <;> cases b' <;> first | rfl | (exact absurd (List.cons.inj h).1 (by decide))
      subst hb
      exact ⟨rfl, List.append_cancel_left h⟩
    | _ => simp [Value.textKind] at hkind
  | int n =>
    intro w hw d hd r r' hr hr' h
    have hkind := textKind_eq txt (Universe.Has.int n) hw h
    rw [text_int] at h
    cases hw with
    | int n' =>
      rw [text_int] at h
      obtain ⟨hn, hrr⟩ := intText_append_inj hr.endsDigits hr'.endsDigits h
      exact ⟨by rw [Int64.toInt_inj.mp hn], hrr⟩
    | date days =>
      rw [text_date] at h
      exact absurd h (intText_append_ne_ymdText hr)
    | dateTime ms hms =>
      rw [text_dateTime] at h
      exact absurd h (intText_append_ne_ymdText hr)
    | _ => simp [Value.textKind] at hkind
  | string s hs =>
    intro w hw d hd r r' hr hr' h
    have hkind := textKind_eq txt (Universe.Has.string s hs) hw h
    cases hw with
    | string s' hs' =>
      rw [text_string, text_string, List.cons_append, List.cons_append, List.append_assoc,
        List.append_assoc, List.cons.injEq] at h
      obtain ⟨hss, hrr⟩ := string_append_inj hU hd hs hs' hr hr' h.2
      exact ⟨by rw [String.toList_inj.mp hss], hrr⟩
    | _ => simp [Value.textKind] at hkind
  | node id =>
    intro w hw d hd r r' hr hr' h
    have hkind := textKind_eq txt (Universe.Has.node id) hw h
    cases hw with
    | node id' =>
      simp only [text_node, List.cons_append, List.append_assoc, List.cons.injEq, true_and,
        List.nil_append] at h
      obtain ⟨hid, hrr⟩ := paddedDigits_append_inj (endsDigits_cons (by decide) _)
        (endsDigits_cons (by decide) _) h
      exact ⟨by rw [UInt64.toNat_inj.mp hid], List.tail_eq_of_cons_eq hrr⟩
    | _ => simp [Value.textKind] at hkind
  | nodeData id =>
    intro w hw d hd r r' hr hr' h
    have hkind := textKind_eq txt (Universe.Has.nodeData id) hw h
    have hend : ∀ (labels : List String) (r : List Char),
        EndsDigits (labels.flatMap (fun l => ':' :: l.toList) ++ ')' :: r) := by
      intro labels r
      cases labels with
      | nil => exact endsDigits_cons (by decide) _
      | cons l labels => exact endsDigits_cons (by decide) _
    cases hw with
    | nodeData id' =>
      have h' := h
      simp only [text_nodeData, List.cons_append, List.append_assoc, List.cons.injEq, true_and,
        List.nil_append] at h'
      obtain ⟨hid, -⟩ := paddedDigits_append_inj (hend _ _) (hend _ _) h'
      obtain rfl := UInt64.toNat_inj.mp hid
      exact ⟨rfl, List.append_cancel_left h⟩
    | _ => simp [Value.textKind] at hkind
  | list items hlists hitems ih =>
    intro w hw d hd r r' hr hr' h
    have hkind := textKind_eq txt (Universe.Has.list items hlists hitems) hw h
    cases hw with
    | list items' hlists' hitems' =>
      simp only [text_list, List.cons_append, List.append_assoc, List.cons.injEq, true_and,
        List.nil_append] at h
      obtain ⟨hii, hrr⟩ := listText_append_inj txt hitems
        (fun v hv w hw r r' hr hr' h => ih v hv hw (Or.inr hlists) hr hr' h) hitems' hr hr' h
      exact ⟨by rw [hii], hrr⟩
    | _ => simp [Value.textKind] at hkind
  | date days =>
    intro w hw d hd r r' hr hr' h
    have hkind := textKind_eq txt (Universe.Has.date days) hw h
    rw [text_date] at h
    cases hw with
    | int n =>
      rw [text_int] at h
      exact absurd h.symm (intText_append_ne_ymdText hr')
    | date days' =>
      rw [text_date] at h
      obtain ⟨hdays, hrr⟩ := ymdText_inj hr.endsDigits hr'.endsDigits h
      exact ⟨by rw [daysToYmd_injective hdays], hrr⟩
    | dateTime ms hms =>
      rw [text_dateTime] at h
      exact absurd h (ymdText_ne_timeText hr)
    | _ => simp [Value.textKind] at hkind
  | dateTime ms hms =>
    intro w hw d hd r r' hr hr' h
    have hkind := textKind_eq txt (Universe.Has.dateTime ms hms) hw h
    rw [text_dateTime] at h
    cases hw with
    | int n =>
      rw [text_int] at h
      exact absurd h.symm (intText_append_ne_ymdText hr')
    | date days =>
      rw [text_date] at h
      exact absurd h.symm (ymdText_ne_timeText hr')
    | dateTime ms' hms' =>
      rw [text_dateTime] at h
      obtain ⟨hdate, htime⟩ := ymdText_inj (endsDigits_cons (by decide) _)
        (endsDigits_cons (by decide) _) h
      obtain ⟨htime, hrr⟩ := timeText_inj htime
      have hms := hU.dateTimes ms hms ms' hms'
        ((dayNumber_timeOfDay_iff ms ms').mp ⟨daysToYmd_injective hdate, htime⟩)
      exact ⟨by rw [hms], hrr⟩
    | _ => simp [Value.textKind] at hkind

/-- Values of a readable universe are equal if and only if their texts are. -/
theorem toDisplay_inj {U : Universe} (hU : U.Readable) {v w : Value} (hv : U.Has v) (hw : U.Has w) :
    v.toDisplay txt = w.toDisplay txt ↔ v = w := by
  constructor
  · intro h
    have hlist : text txt v ++ [] = text txt w ++ [] := by rw [text, text, h]
    exact (text_append_inj txt hU hv hw (Or.inl rfl) Follows.done Follows.done hlist).1
  · intro h
    rw [h]

end Maharit
