import Mathlib.Order.Filter.AtTopBot.Basic
import Mathlib.Tactic

/-!
# Enough fuel

A computation that takes a bound on its recursion, for all bounds from some point on.  `WithFuel p Q` says that
the result of `p` meets `Q` for every large enough bound; a computation is followed through its calls with the
rules below, which never name a bound.
-/

/-- With enough fuel the result is one of `Q`. -/
def WithFuel {α : Type*} (p : ℕ → α) (Q : α → Prop) : Prop := ∀ᶠ n in Filter.atTop, Q (p n)

namespace WithFuel

variable {α β ε : Type} {p q : ℕ → α} {Q R : α → Prop}

/-- What holds of the result whatever the bound. -/
lemma of_forall (h : ∀ n, Q (p n)) : WithFuel p Q := Filter.Eventually.of_forall h

/-- A function that spends one unit of fuel on its body. -/
lemma of_succ (h : ∀ n, p (n + 1) = q n) (hq : WithFuel q Q) : WithFuel p Q := by
  obtain ⟨n₀, hn₀⟩ := Filter.eventually_atTop.mp hq
  refine Filter.eventually_atTop.mpr ⟨n₀ + 1, fun n hn => ?_⟩
  obtain ⟨k, rfl⟩ : ∃ k, n = k + 1 := ⟨n - 1, by omega⟩
  rw [h k]
  exact hn₀ k (by omega)

/-- One call more than another function takes. -/
lemma succ_of {q : ℕ → β} {R : β → Prop} (hp : WithFuel p Q) (h : ∀ n, Q (p n) → R (q (n + 1))) : WithFuel q R := by
  obtain ⟨n₀, hn₀⟩ := Filter.eventually_atTop.mp hp
  refine Filter.eventually_atTop.mpr ⟨n₀ + 1, fun n hn => ?_⟩
  obtain ⟨k, rfl⟩ : ∃ k, n = k + 1 := ⟨n - 1, by omega⟩
  exact h k (hn₀ k (by omega))

/-- Weaker facts about the result. -/
lemma mono (h : WithFuel p Q) (himp : ∀ a, Q a → R a) : WithFuel p R :=
  Filter.Eventually.mono h fun n hn => himp (p n) hn

/-- What is made of the result. -/
lemma map {f : α → β} {R : β → Prop} (h : WithFuel p Q) (himp : ∀ a, Q a → R (f a)) :
    WithFuel (fun n => f (p n)) R :=
  Filter.Eventually.mono h fun n hn => himp (p n) hn

/-- Two facts about one result. -/
lemma and (h : WithFuel p Q) (h' : WithFuel p R) : WithFuel p fun a => Q a ∧ R a :=
  Filter.Eventually.and h h'

/-- Some bound is large enough. -/
lemma exists_bound (h : WithFuel p Q) : ∃ n, Q (p n) := h.exists

/-- A call that returns, and then the rest of the computation on what it returns. -/
lemma bind_ok {p : ℕ → Except ε α} {f : ℕ → α → Except ε β} {a : α} {Q : Except ε β → Prop}
    (hp : WithFuel p (· = .ok a)) (hf : WithFuel (fun n => f n a) Q) :
    WithFuel (fun n => p n >>= f n) Q := by
  refine Filter.Eventually.mp (Filter.Eventually.and hp hf) (Filter.Eventually.of_forall fun n hn => ?_)
  obtain ⟨hpn, hfn⟩ := hn
  show Q (p n >>= f n)
  rw [hpn]
  exact hfn

/-- A call that fails is the end of the computation. -/
lemma bind_error {p : ℕ → Except ε α} {f : ℕ → α → Except ε β} {Q : Except ε β → Prop}
    (hp : WithFuel p fun r => ∃ e, r = .error e) (hQ : ∀ e, Q (.error e)) :
    WithFuel (fun n => p n >>= f n) Q := by
  refine Filter.Eventually.mono hp fun n hn => ?_
  obtain ⟨e, he⟩ := hn
  show Q (p n >>= f n)
  rw [he]
  exact hQ e

end WithFuel
