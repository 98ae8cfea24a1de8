import Mathlib.Tactic

/-!
# Loops that may fail

The loops `for a in l` whose body may return early with an error: collecting what the body yields for
each element, keeping the elements that pass a fallible test, and testing all elements.  Each loop
has one characterisation of its success.
-/

namespace Except

variable {ε α β : Type*}

/-- Collect the lists that `f` yields. -/
def collect (f : α → Except ε (List β)) : List α → Except ε (List β)
  | [] => .ok []
  | a :: l => (f a).bind fun bs => (collect f l).map (bs ++ ·)

/-- Test all elements; a failed test ends the loop. -/
def allM (f : α → Except ε Bool) : List α → Except ε Bool
  | [] => .ok true
  | a :: l => (f a).bind fun ok => if ok then allM f l else .ok false

/-- Keep the elements that pass the test. -/
def keep (f : α → Except ε Bool) : List α → Except ε (List α)
  | [] => .ok []
  | a :: l => (f a).bind fun ok => (keep f l).map fun as => if ok then a :: as else as

/-- A computation followed by another one succeeds when both do. -/
theorem bind_eq_ok {x : Except ε α} {f : α → Except ε β} {b : β} :
    x.bind f = .ok b ↔ ∃ a, x = .ok a ∧ f a = .ok b := by
  cases x with
  | error e => simp [Except.bind]
  | ok a => simp [Except.bind]

theorem map_eq_ok {x : Except ε α} {f : α → β} {b : β} :
    x.map f = .ok b ↔ ∃ a, x = .ok a ∧ f a = b := by
  cases x with
  | error e => simp [Except.map]
  | ok a => simp [Except.map]

/-- Collecting succeeds when the body does for every element, and gives what the body yields. -/
theorem collect_eq_ok {f : α → Except ε (List β)} {l : List α} {r : List β} :
    collect f l = .ok r ↔ ∃ g : α → List β, (∀ a ∈ l, f a = .ok (g a)) ∧ r = l.flatMap g := by
  classical
  induction l generalizing r with
  | nil =>
    simp [collect, eq_comm]
  | cons a l ih =>
    rw [collect, bind_eq_ok]
    constructor
    · rintro ⟨bs, ha, hrest⟩
      obtain ⟨rest, hl, rfl⟩ := map_eq_ok.mp hrest
      obtain ⟨g, hg, rfl⟩ := ih.mp hl
      refine ⟨fun a' => ((f a').toOption).getD [], ?_, ?_⟩
      · intro a' ha'
        rcases List.mem_cons.mp ha' with rfl | ha'
        · simp [ha, Except.toOption]
        · simp [hg a' ha', Except.toOption]
      · rw [List.flatMap_cons]
        congr 1
        · simp [ha, Except.toOption]
        · refine List.flatMap_congr fun a' ha' => ?_
          simp [hg a' ha', Except.toOption]
    · rintro ⟨g, hg, rfl⟩
      refine ⟨g a, hg a List.mem_cons_self, ?_⟩
      rw [ih.mpr ⟨g, fun a' ha' => hg a' (List.mem_cons_of_mem _ ha'), rfl⟩]
      rfl

@[simp] theorem collect_singleton (f : α → Except ε (List β)) (a : α) : collect f [a] = f a := by
  cases h : f a <;> simp [collect, h, Except.bind, Except.map]

theorem collect_map {γ : Type*} (f : α → Except ε (List β)) (g : γ → α) (l : List γ) :
    collect f (l.map g) = collect (fun c => f (g c)) l := by
  induction l with
  | nil => rfl
  | cons c l ih => rw [List.map_cons, collect, collect, ih]

/-- All tests pass. -/
theorem allM_eq_true {f : α → Except ε Bool} {l : List α} :
    allM f l = .ok true ↔ ∀ a ∈ l, f a = .ok true := by
  induction l with
  | nil => simp [allM]
  | cons a l ih =>
    rw [allM, bind_eq_ok]
    constructor
    · rintro ⟨ok, ha, hrest⟩
      cases ok with
      | false => cases hrest
      | true => simpa [ha] using ih.mp hrest
    · intro h
      exact ⟨true, h a List.mem_cons_self, ih.mpr fun a' ha' => h a' (List.mem_cons_of_mem _ ha')⟩

/-- Testing two lists, one after the other. -/
theorem allM_append (f : α → Except ε Bool) (l l' : List α) :
    allM f (l ++ l') = (allM f l).bind fun ok => if ok then allM f l' else .ok false := by
  induction l with
  | nil => rfl
  | cons a l ih =>
    rw [List.cons_append, allM, allM, ih]
    cases h : f a with
    | error e => rfl
    | ok ok => cases ok <;> rfl

/-- When no test fails to run, either all tests pass or one of them says no. -/
theorem allM_of_total {f : α → Except ε Bool} {l : List α} (hf : ∀ a ∈ l, ∃ ok, f a = .ok ok) :
    allM f l = .ok true ∨ allM f l = .ok false ∧ ∃ a ∈ l, f a = .ok false := by
  induction l with
  | nil => exact Or.inl rfl
  | cons a l ih =>
    rw [List.forall_mem_cons] at hf
    obtain ⟨⟨ok, hok⟩, hrest⟩ := hf
    have hcons : allM f (a :: l) = if ok then allM f l else .ok false := by
      rw [allM, hok]
      rfl
    rw [hcons]
    cases ok with
    | false => exact Or.inr ⟨rfl, a, List.mem_cons_self, hok⟩
    | true =>
      rcases ih hrest with htrue | ⟨hfalse, a', ha', hno⟩
      · exact Or.inl htrue
      · exact Or.inr ⟨hfalse, a', List.mem_cons_of_mem _ ha', hno⟩

/-- Keeping succeeds when the test does for every element, and filters. -/
theorem keep_eq_ok {f : α → Except ε Bool} {l r : List α} :
    keep f l = .ok r ↔ ∃ p : α → Bool, (∀ a ∈ l, f a = .ok (p a)) ∧ r = l.filter p := by
  classical
  induction l generalizing r with
  | nil => simp [keep, eq_comm]
  | cons a l ih =>
    rw [keep, bind_eq_ok]
    constructor
    · rintro ⟨ok, ha, hrest⟩
      obtain ⟨rest, hl, rfl⟩ := map_eq_ok.mp hrest
      obtain ⟨p, hp, rfl⟩ := ih.mp hl
      refine ⟨fun a' => ((f a').toOption).getD false, ?_, ?_⟩
      · intro a' ha'
        rcases List.mem_cons.mp ha' with rfl | ha'
        · simp [ha, Except.toOption]
        · simp [hp a' ha', Except.toOption]
      · have hrest : l.filter (fun a' => ((f a').toOption).getD false) = l.filter p := by
          refine List.filter_congr fun a' ha' => ?_
          simp [hp a' ha', Except.toOption]
        rw [List.filter_cons, hrest]
        simp [ha, Except.toOption]
    · rintro ⟨p, hp, rfl⟩
      refine ⟨p a, hp a List.mem_cons_self, ?_⟩
      rw [ih.mpr ⟨p, fun a' ha' => hp a' (List.mem_cons_of_mem _ ha'), rfl⟩, List.filter_cons]
      rfl

/-! ## Loops one after the other -/

/-- Keeping from two lists, one after the other. -/
theorem keep_append (f : α → Except ε Bool) (l l' : List α) :
    keep f (l ++ l') = (keep f l).bind fun r => (keep f l').map (r ++ ·) := by
  induction l with
  | nil =>
    cases h : keep f l' <;> simp [keep, Except.bind, Except.map, h]
  | cons a l ih =>
    rw [List.cons_append, keep, keep, ih]
    cases f a with
    | error e => rfl
    | ok ok =>
      cases keep f l with
      | error e => rfl
      | ok r => cases keep f l' <;> cases ok <;> simp [Except.bind, Except.map]

/-- Collecting over two lists is collecting over the first and then over the second. -/
theorem collect_append_eq (f : α → Except ε (List β)) (l l' : List α) :
    collect f (l ++ l') = (collect f l).bind fun r => (collect f l').map (r ++ ·) := by
  induction l with
  | nil =>
    cases h : collect f l' <;> simp [collect, Except.bind, Except.map, h]
  | cons a l ih =>
    rw [List.cons_append, collect, collect, ih]
    cases f a with
    | error e => rfl
    | ok bs =>
      cases collect f l with
      | error e => rfl
      | ok r => cases collect f l' <;> simp [Except.bind, Except.map]

/-- A loop in a loop is one loop. -/
theorem collect_flatMap {γ : Type*} (f : α → Except ε (List β)) (g : γ → List α) (l : List γ) :
    collect f (l.flatMap g) = collect (fun c => collect f (g c)) l := by
  induction l with
  | nil => rfl
  | cons c l ih => rw [List.flatMap_cons, collect_append_eq, ih, collect]

theorem collect_congr {f g : α → Except ε (List β)} {l : List α} (h : ∀ a ∈ l, f a = g a) :
    collect f l = collect g l := by
  induction l with
  | nil => rfl
  | cons a l ih =>
    rw [collect, collect, h a List.mem_cons_self, ih fun a ha => h a (List.mem_cons_of_mem _ ha)]

/-- Collecting over two lists, one after the other. -/
theorem collect_append {f : α → Except ε (List β)} {l l' : List α} {r : List β} :
    collect f (l ++ l') = .ok r ↔
      ∃ r₁ r₂, collect f l = .ok r₁ ∧ collect f l' = .ok r₂ ∧ r = r₁ ++ r₂ := by
  induction l generalizing r with
  | nil => simp [collect]
  | cons a l ih =>
    simp only [List.cons_append, collect, bind_eq_ok, map_eq_ok, ih]
    constructor
    · rintro ⟨bs, ha, rest, ⟨r₁, r₂, h₁, h₂, rfl⟩, rfl⟩
      exact ⟨bs ++ r₁, r₂, ⟨bs, ha, r₁, h₁, rfl⟩, h₂, (List.append_assoc _ _ _).symm⟩
    · rintro ⟨_, r₂, ⟨bs, ha, r₁, h₁, rfl⟩, h₂, rfl⟩
      exact ⟨bs, ha, r₁ ++ r₂, ⟨r₁, r₂, h₁, h₂, rfl⟩, (List.append_assoc _ _ _).symm⟩

/-- A fallible function on lists that treats the elements one by one. -/
structure Rowwise {γ : Type*} (F : List α → Except ε (List γ)) : Prop where
  nil : F [] = .ok []
  append : ∀ l l' r, F (l ++ l') = .ok r ↔
    ∃ r₁ r₂, F l = .ok r₁ ∧ F l' = .ok r₂ ∧ r = r₁ ++ r₂

theorem Rowwise.collect (f : α → Except ε (List β)) : Rowwise (collect f) where
  nil := rfl
  append _ _ _ := collect_append

theorem Rowwise.ok : Rowwise (fun l : List α => (.ok l : Except ε (List α))) where
  nil := rfl
  append l l' r := by
    simp [eq_comm]

/-- One after the other, two such functions are again one. -/
theorem Rowwise.bind {γ : Type*} {F : List α → Except ε (List β)} {G : List β → Except ε (List γ)}
    (hF : Rowwise F) (hG : Rowwise G) : Rowwise fun l => (F l).bind G where
  nil := by
    rw [hF.nil]
    exact hG.nil
  append l l' r := by
    simp only [bind_eq_ok, hF.append]
    constructor
    · rintro ⟨_, ⟨m₁, m₂, h₁, h₂, rfl⟩, hr⟩
      obtain ⟨r₁, r₂, g₁, g₂, rfl⟩ := (hG.append _ _ _).mp hr
      exact ⟨r₁, r₂, ⟨m₁, h₁, g₁⟩, ⟨m₂, h₂, g₂⟩, rfl⟩
    · rintro ⟨r₁, r₂, ⟨m₁, h₁, g₁⟩, ⟨m₂, h₂, g₂⟩, rfl⟩
      exact ⟨m₁ ++ m₂, ⟨m₁, m₂, h₁, h₂, rfl⟩, (hG.append _ _ _).mpr ⟨r₁, r₂, g₁, g₂, rfl⟩⟩

theorem Rowwise.map {γ : Type*} {F : List α → Except ε (List β)} (hF : Rowwise F) (f : β → γ) :
    Rowwise fun l => (F l).map (List.map f) where
  nil := by
    rw [hF.nil]
    rfl
  append l l' r := by
    simp only [map_eq_ok, hF.append]
    constructor
    · rintro ⟨_, ⟨m₁, m₂, h₁, h₂, rfl⟩, rfl⟩
      exact ⟨m₁.map f, m₂.map f, ⟨m₁, h₁, rfl⟩, ⟨m₂, h₂, rfl⟩, List.map_append⟩
    · rintro ⟨_, _, ⟨m₁, h₁, rfl⟩, ⟨m₂, h₂, rfl⟩, rfl⟩
      exact ⟨m₁ ++ m₂, ⟨m₁, m₂, h₁, h₂, rfl⟩, List.map_append⟩

/-- Such a function collects what it makes of the single elements. -/
theorem Rowwise.eq_ok_iff {F : List α → Except ε (List β)} (hF : Rowwise F) {l : List α}
    {r : List β} : F l = .ok r ↔ Except.collect (fun a => F [a]) l = .ok r := by
  induction l generalizing r with
  | nil => rw [hF.nil, Except.collect]
  | cons a l ih =>
    rw [← List.singleton_append, hF.append]
    simp only [List.singleton_append, Except.collect, bind_eq_ok, map_eq_ok, ← ih]
    constructor
    · rintro ⟨r₁, r₂, h₁, h₂, rfl⟩
      exact ⟨r₁, h₁, r₂, h₂, rfl⟩
    · rintro ⟨r₁, h₁, r₂, h₂, rfl⟩
      exact ⟨r₁, r₂, h₁, h₂, rfl⟩

end Except
