import Mathlib.Tactic

/-!
# Computations on a state that may fail

`Stateful ε S α` is the type of methods that take `&mut self` and return a `Result`: a failure keeps
what was changed before it.  `Within R m` says that the state after `m`, failed or not, is related by
`R` to the state before; for a preorder `R` it is proved along the structure of the computation.
-/

/-- A computation on a state that may fail; what it changed before it failed stays. -/
def Stateful (ε S α : Type) := S → S × Except ε α

namespace Stateful

variable {ε S α β : Type}

instance : Monad (Stateful ε S) where
  pure a := fun x => (x, .ok a)
  bind m f := fun x =>
    match m x with
    | (x, .ok a) => f a x
    | (x, .error e) => (x, .error e)

/-- Fail. -/
def fail (e : ε) : Stateful ε S α := fun x => (x, .error e)

/-- A method that takes the state by shared reference. -/
def read (f : S → Except ε α) : Stateful ε S α := fun x => (x, f x)

/-- Change the state. -/
def modify (f : S → S) : Stateful ε S Unit := fun x => (f x, .ok ())

/-- A loop that yields one value for each element. -/
def mapList (f : α → Stateful ε S β) : List α → Stateful ε S (List β)
  | [] => pure []
  | a :: l => do
      let b ← f a
      let bs ← mapList f l
      return b :: bs

/-! ## Frames -/

variable {R : S → S → Prop}

/-- The state after the computation is related to the state before. -/
def Within (R : S → S → Prop) (m : Stateful ε S α) : Prop := ∀ x, R x (m x).1

theorem Within.pure [Std.Refl R] (a : α) : Within R (Pure.pure a : Stateful ε S α) :=
  fun x => refl_of R x

theorem Within.fail [Std.Refl R] (e : ε) : Within R (Stateful.fail e : Stateful ε S α) :=
  fun x => refl_of R x

theorem Within.read [Std.Refl R] (f : S → Except ε α) : Within R (Stateful.read f) :=
  fun x => refl_of R x

theorem Within.bind [IsTrans S R] {m : Stateful ε S α} {f : α → Stateful ε S β}
    (hm : Within R m) (hf : ∀ a, Within R (f a)) : Within R (m >>= f) := by
  intro x
  have hfirst : R x (m x).1 := hm x
  have hrun : (m >>= f) x =
      match m x with
      | (x, .ok a) => f a x
      | (x, .error e) => (x, .error e) := rfl
  rw [hrun]
  rcases hstep : m x with ⟨x₁, e | a⟩
  · rw [hstep] at hfirst
    exact hfirst
  · rw [hstep] at hfirst
    exact trans_of R hfirst (hf a x₁)

theorem bind_apply (m : Stateful ε S α) (f : α → Stateful ε S β) (x : S) :
    (m >>= f) x =
      match m x with
      | (x, .ok a) => f a x
      | (x, .error e) => (x, .error e) := rfl

/-- The same, when the second computation relies on the result of the first one. -/
theorem Within.bind_of [IsTrans S R] {m : Stateful ε S α} {f : α → Stateful ε S β} (hm : Within R m)
    (hf : ∀ x a, (m x).2 = .ok a → Within R (f a)) : Within R (m >>= f) := by
  intro x
  have hfirst : R x (m x).1 := hm x
  have hnext := hf x
  rw [bind_apply]
  rcases hstep : m x with ⟨x₁, e | a⟩
  · rw [hstep] at hfirst
    exact hfirst
  · rw [hstep] at hfirst hnext
    exact trans_of R hfirst (hnext a rfl x₁)

/-- What is done after something was read. -/
theorem Within.read_bind [Std.Refl R] {f : S → Except ε α} {m : α → Stateful ε S β}
    (hm : ∀ x a, f x = .ok a → R x (m a x).1) : Within R (Stateful.read f >>= m) := by
  intro x
  have hrun : (Stateful.read f >>= m) x =
      match f x with
      | .ok a => m a x
      | .error e => (x, .error e) := by
    simp only [Stateful.read, Bind.bind]
    rcases f x with e | a <;> rfl
  rw [hrun]
  rcases hread : f x with e | a
  · exact refl_of R x
  · exact hm x a hread

/-- A loop that succeeds yields one value for each element. -/
theorem length_of_mapList {f : α → Stateful ε S β} {l : List α} {bs : List β} {x : S}
    (h : (Stateful.mapList f l x).2 = .ok bs) : bs.length = l.length := by
  induction l generalizing bs x with
  | nil =>
    obtain rfl := Except.ok.inj h
    rfl
  | cons a l ih =>
    have hrun : Stateful.mapList f (a :: l) x =
        (f a >>= fun b => Stateful.mapList f l >>= fun bs => Pure.pure (b :: bs)) x := rfl
    rw [hrun, bind_apply] at h
    rcases hfirst : f a x with ⟨x₁, e | b⟩ <;> rw [hfirst] at h
    · cases h
    · dsimp only at h
      rw [bind_apply] at h
      rcases hloop : Stateful.mapList f l x₁ with ⟨x₂, e | bs'⟩ <;> rw [hloop] at h
      · cases h
      · obtain rfl := Except.ok.inj h
        have hlength := @ih bs' x₁ (by rw [hloop])
        rw [List.length_cons, List.length_cons, hlength]

theorem Within.mapList [Std.Refl R] [IsTrans S R] {f : α → Stateful ε S β}
    (hf : ∀ a, Within R (f a)) (l : List α) : Within R (Stateful.mapList f l) := by
  induction l with
  | nil => exact Within.pure []
  | cons a l ih => exact (hf a).bind fun b => ih.bind fun bs => Within.pure (b :: bs)

theorem Within.foldlM [Std.Refl R] [IsTrans S R] {f : β → α → Stateful ε S β}
    (hf : ∀ b a, Within R (f b a)) (l : List α) (b : β) : Within R (l.foldlM f b) := by
  induction l generalizing b with
  | nil => exact Within.pure b
  | cons a l ih => exact (hf b a).bind fun b => ih b

theorem Within.forM [Std.Refl R] [IsTrans S R] {f : α → Stateful ε S Unit}
    (hf : ∀ a, Within R (f a)) (l : List α) : Within R (l.forM f) := by
  induction l with
  | nil => exact Within.pure ()
  | cons a l ih => exact (hf a).bind fun _ => ih

/-- The same, when the elements of the list are known. -/
theorem Within.forM_mem [Std.Refl R] [IsTrans S R] {f : α → Stateful ε S Unit} {l : List α}
    (hf : ∀ a ∈ l, Within R (f a)) : Within R (l.forM f) := by
  induction l with
  | nil => exact Within.pure ()
  | cons a l ih =>
    refine (hf a List.mem_cons_self).bind fun _ => ih fun b hb => ?_
    exact hf b (List.mem_cons_of_mem a hb)

theorem Within.mono {R' : S → S → Prop} (h : ∀ x x', R x x' → R' x x') {m : Stateful ε S α}
    (hm : Within R m) : Within R' m := fun x => h x (m x).1 (hm x)

/-- A loop of changes that cannot fail. -/
theorem forM_modify (f : α → S → S) (l : List α) (x : S) :
    (l.forM fun a => (Stateful.modify (f a) : Stateful ε S Unit)) x =
      (l.foldl (fun x a => f a x) x, .ok ()) := by
  induction l generalizing x with
  | nil => rfl
  | cons a l ih => exact ih (f a x)

end Stateful
