import MaharitDb.Lib.ExceptList

/-!
# Pruned lists

`Pruned D l l'` says that `l'` is `l` without some elements that are doomed: they satisfy `D`, and a
later test will drop them and everything made from them.  A loop that prunes early agrees with one
that does not, up to pruned results; when the test comes, the results are equal.
-/

/-- The list without some of the elements that satisfy `D`. -/
inductive Pruned {α : Type*} (D : α → Prop) : List α → List α → Prop
  | nil : Pruned D [] []
  | keep (a : α) {l l' : List α} : Pruned D l l' → Pruned D (a :: l) (a :: l')
  | drop {a : α} {l l' : List α} : D a → Pruned D l l' → Pruned D (a :: l) l'

namespace Pruned

variable {α β ε : Type*} {D : α → Prop} {E : β → Prop}

theorem refl (l : List α) : Pruned D l l := by
  induction l with
  | nil => exact .nil
  | cons a l ih => exact ih.keep a

theorem dropAll {l : List α} (hl : ∀ a ∈ l, D a) : Pruned D l [] := by
  induction l with
  | nil => exact .nil
  | cons a l ih =>
    rw [List.forall_mem_cons] at hl
    exact (ih hl.2).drop hl.1

theorem append {l l' m m' : List α} (hl : Pruned D l l') (hm : Pruned D m m') :
    Pruned D (l ++ m) (l' ++ m') := by
  induction hl with
  | nil => exact hm
  | keep a _ ih => exact ih.keep a
  | drop ha _ ih => exact ih.drop ha

theorem map {l l' : List α} (hl : Pruned D l l') {f : α → β} (hf : ∀ a, D a → E (f a)) :
    Pruned E (l.map f) (l'.map f) := by
  induction hl with
  | nil => exact .nil
  | keep a _ ih => exact ih.keep (f a)
  | drop ha _ ih => exact ih.drop (hf _ ha)

theorem flatMap {l l' : List α} (hl : Pruned D l l') {f : α → List β}
    (hf : ∀ a, D a → ∀ b ∈ f a, E b) : Pruned E (l.flatMap f) (l'.flatMap f) := by
  induction hl with
  | nil => exact .nil
  | keep a _ ih => exact (refl (f a)).append ih
  | drop ha _ ih =>
    rw [List.flatMap_cons]
    exact (dropAll (hf _ ha)).append ih

/-- When nothing is left, everything was doomed. -/
theorem forall_of_nil {l : List α} (hl : Pruned D l []) : ∀ a ∈ l, D a := by
  generalize hnil : ([] : List α) = l' at hl
  induction hl with
  | nil => simp
  | keep a _ _ => cases hnil
  | drop ha _ ih => exact List.forall_mem_cons.mpr ⟨ha, ih hnil⟩

/-- A test that no doomed element passes leaves the same elements. -/
theorem filter_eq {l l' : List α} (hl : Pruned D l l') {p : α → Bool} (hp : ∀ a, D a → p a = false) :
    l.filter p = l'.filter p := by
  induction hl with
  | nil => rfl
  | keep a _ ih => rw [List.filter_cons, List.filter_cons, ih]
  | drop ha _ ih => rw [List.filter_cons, if_neg (by simp [hp _ ha]), ih]

/-! ## Loops that may fail -/

/-- Two runs of a fallible loop: when the first succeeds, so does the second, with a pruned result. -/
def Agree (E : β → Prop) (m m' : Except ε (List β)) : Prop :=
  ∀ r, m = .ok r → ∃ r', m' = .ok r' ∧ Pruned E r r'

theorem Agree.refl (m : Except ε (List β)) : Agree E m m := fun r hr => ⟨r, hr, Pruned.refl r⟩

theorem Agree.map {m m' : Except ε (List α)} (h : Agree D m m') {f : α → β}
    (hf : ∀ a, D a → E (f a)) : Agree E (m.map (List.map f)) (m'.map (List.map f)) := by
  intro r hr
  obtain ⟨l, hl, rfl⟩ := Except.map_eq_ok.mp hr
  obtain ⟨l', hl', hpruned⟩ := h l hl
  exact ⟨l'.map f, Except.map_eq_ok.mpr ⟨l', hl', rfl⟩, hpruned.map hf⟩

theorem Agree.append {m m' : Except ε (List β)} (h : Agree E m m') {k k' : Except ε (List β)}
    (hk : Agree E k k') :
    Agree E (m.bind fun bs => k.map (bs ++ ·)) (m'.bind fun bs => k'.map (bs ++ ·)) := by
  intro r hr
  obtain ⟨l, hl, hrest⟩ := Except.bind_eq_ok.mp hr
  obtain ⟨n, hn, rfl⟩ := Except.map_eq_ok.mp hrest
  obtain ⟨l', hl', hpruned⟩ := h l hl
  obtain ⟨n', hn', hpruned'⟩ := hk n hn
  refine ⟨l' ++ n', Except.bind_eq_ok.mpr ⟨l', hl', ?_⟩, hpruned.append hpruned'⟩
  exact Except.map_eq_ok.mpr ⟨n', hn', rfl⟩

/-- Collecting over the same list. -/
theorem Agree.collect {f f' : α → Except ε (List β)} (hf : ∀ a, Agree E (f a) (f' a))
    (l : List α) : Agree E (Except.collect f l) (Except.collect f' l) := by
  induction l with
  | nil => exact Agree.refl _
  | cons a l ih => exact (hf a).append ih

/-- Two fallible functions on lists agree also from pruned inputs. -/
def AgreeFrom (D : α → Prop) (E : β → Prop) (F F' : List α → Except ε (List β)) : Prop :=
  ∀ l l', Pruned D l l' → Agree E (F l) (F' l')

/-- Collecting over a pruned list, when doomed elements only make doomed ones. -/
theorem AgreeFrom.collect {f f' : α → Except ε (List β)} (hf : ∀ a, Agree E (f a) (f' a))
    (hdoom : ∀ a r, D a → f a = .ok r → ∀ b ∈ r, E b) :
    AgreeFrom D E (Except.collect f) (Except.collect f') := by
  intro l l' hl
  induction hl with
  | nil => exact Agree.refl _
  | keep a _ ih => exact (hf a).append ih
  | drop ha _ ih =>
    intro r hr
    obtain ⟨bs, hbs, hrest⟩ := Except.bind_eq_ok.mp hr
    obtain ⟨n, hn, rfl⟩ := Except.map_eq_ok.mp hrest
    obtain ⟨n', hn', hpruned⟩ := ih n hn
    exact ⟨n', hn', (dropAll (hdoom _ bs ha hbs)).append hpruned⟩

/-- One after the other. -/
theorem AgreeFrom.bind {γ : Type*} {C : γ → Prop} {F F' : List γ → Except ε (List α)}
    {G G' : List α → Except ε (List β)} (hF : AgreeFrom C D F F') (hG : AgreeFrom D E G G') :
    AgreeFrom C E (fun l => (F l).bind G) (fun l => (F' l).bind G') := by
  intro l l' hl r hr
  obtain ⟨m, hm, hr⟩ := Except.bind_eq_ok.mp hr
  obtain ⟨m', hm', hpruned⟩ := hF l l' hl m hm
  obtain ⟨r', hr', hpruned'⟩ := hG m m' hpruned r hr
  exact ⟨r', Except.bind_eq_ok.mpr ⟨m', hm', hr'⟩, hpruned'⟩

/-- Keeping the elements that pass a test; the second test may fail more, on doomed elements. -/
theorem Agree.keep {f f' : α → Except ε Bool}
    (hf : ∀ a ok, f a = .ok ok → ∃ ok', f' a = .ok ok' ∧ (ok' = true → ok = true) ∧
      (ok = true → ok' = false → D a)) (l : List α) :
    Agree D (Except.keep f l) (Except.keep f' l) := by
  induction l with
  | nil => exact Agree.refl _
  | cons a l ih =>
    intro r hr
    obtain ⟨ok, hok, hrest⟩ := Except.bind_eq_ok.mp hr
    obtain ⟨n, hn, rfl⟩ := Except.map_eq_ok.mp hrest
    obtain ⟨n', hn', hpruned⟩ := ih n hn
    obtain ⟨ok', hok', himp, hdoom⟩ := hf a ok hok
    refine ⟨if ok' then a :: n' else n', ?_, ?_⟩
    · exact Except.bind_eq_ok.mpr ⟨ok', hok', Except.map_eq_ok.mpr ⟨n', hn', rfl⟩⟩
    · cases ok' with
      | true =>
        rw [himp rfl]
        exact hpruned.keep a
      | false =>
        cases ok with
        | true => exact hpruned.drop (hdoom rfl rfl)
        | false => exact hpruned

end Pruned
