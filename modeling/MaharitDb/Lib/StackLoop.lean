import MaharitDb.Lib.EnoughFuel
import MaharitDb.Lib.ExceptList

/-!
# Loops that pop a stack

The loop that pops an element, deals with it, and pushes its children one after the other.  When the children have
a lower rank it comes to an end, and it has dealt with the elements below those it began with in preorder, the last
child first.  In a forest it deals with each of them once.
-/

namespace StackLoop

variable {A R ε : Type}

/-- The loop; the top of the stack stands first, and what dealing with the elements yields is collected. -/
def run (visit : A → Except ε (List R)) (children : A → List A) : ℕ → List A → Option (Except ε (List R))
  | _, [] => some (.ok [])
  | 0, _ :: _ => none
  | fuel + 1, a :: stack =>
      match visit a with
      | .error err => some (.error err)
      | .ok here => (run visit children fuel ((children a).reverse ++ stack)).map (Except.map (here ++ ·))

/-- An element and what is below it, for some generations. -/
def preorder (children : A → List A) : ℕ → A → List A
  | 0, a => [a]
  | generations + 1, a => a :: (children a).reverse.flatMap (preorder children generations)

/-- From an element to one below it, so many generations on. -/
def Descends (children : A → List A) : ℕ → A → A → Prop
  | 0, a, d => d = a
  | generations + 1, a, d => ∃ c ∈ children a, Descends children generations c d

variable {visit : A → Except ε (List R)} {children : A → List A} {rank : A → ℕ}

/-! ## What the loop deals with -/

/-- Beyond its rank an element has nothing below it. -/
lemma preorder_eq (hrank : ∀ a, ∀ c ∈ children a, rank c < rank a) {a : A} {m n : ℕ} (hm : rank a ≤ m)
    (hn : rank a ≤ n) : preorder children m a = preorder children n a := by
  have hnone : rank a ≤ 0 → children a = [] := by
    intro hzero
    refine List.eq_nil_iff_forall_not_mem.mpr fun c hc => ?_
    have hlt := hrank a c hc
    omega
  induction m generalizing a n with
  | zero =>
    cases n with
    | zero => rfl
    | succ n => simp [preorder, hnone hm]
  | succ m ih =>
    cases n with
    | zero => simp [preorder, hnone hn]
    | succ n =>
      have hchild : ∀ c ∈ (children a).reverse, preorder children m c = preorder children n c := by
        intro c hc
        have hlt := hrank a c (List.mem_reverse.mp hc)
        refine ih (by omega) (by omega) fun hzero => ?_
        refine List.eq_nil_iff_forall_not_mem.mpr fun d hd => ?_
        have hlt' := hrank c d hd
        omega
      rw [preorder, preorder, List.flatMap_congr hchild]

/-- Everything below an element. -/
def below (children : A → List A) (rank : A → ℕ) (a : A) : List A := preorder children (rank a) a

lemma below_eq (hrank : ∀ a, ∀ c ∈ children a, rank c < rank a) (a : A) :
    below children rank a = a :: (children a).reverse.flatMap (below children rank) := by
  have hstep : preorder children (rank a) a = preorder children (rank a + 1) a :=
    preorder_eq hrank le_rfl (Nat.le_succ _)
  have hchild : ∀ c ∈ (children a).reverse, preorder children (rank a) c = below children rank c := by
    intro c hc
    exact preorder_eq hrank (hrank a c (List.mem_reverse.mp hc)).le le_rfl
  rw [below, hstep, preorder, List.flatMap_congr hchild]

lemma collect_cons_ok {a : A} {l : List A} {here : List R} (h : visit a = .ok here) :
    Except.collect visit (a :: l) = (Except.collect visit l).map (here ++ ·) := by
  rw [Except.collect, h]
  rfl

/-- The loop deals with everything below the stack, in preorder. -/
theorem run_eq (hrank : ∀ a, ∀ c ∈ children a, rank c < rank a) {fuel : ℕ} {stack : List A}
    (hfuel : (stack.flatMap (below children rank)).length ≤ fuel) :
    run visit children fuel stack = some (Except.collect visit (stack.flatMap (below children rank))) := by
  induction fuel generalizing stack with
  | zero =>
    cases stack with
    | nil => rfl
    | cons a stack =>
      rw [List.flatMap_cons, below_eq hrank] at hfuel
      simp at hfuel
  | succ fuel ih =>
    cases stack with
    | nil => rfl
    | cons a stack =>
      have hunfold : (a :: stack).flatMap (below children rank) =
          a :: ((children a).reverse ++ stack).flatMap (below children rank) := by
        rw [List.flatMap_cons, below_eq hrank, List.flatMap_append, List.cons_append]
      rw [hunfold] at hfuel ⊢
      rw [run]
      cases hvisit : visit a with
      | error err => rw [Except.collect, hvisit]; rfl
      | ok here =>
        rw [collect_cons_ok hvisit]
        simp only [List.length_cons, Nat.add_le_add_iff_right] at hfuel
        simp only [ih hfuel, Option.map_some]

/-- The loop comes to an end. -/
theorem run_withFuel (hrank : ∀ a, ∀ c ∈ children a, rank c < rank a) (stack : List A) :
    WithFuel (fun fuel => run visit children fuel stack)
      (· = some (Except.collect visit (stack.flatMap (below children rank)))) :=
  Filter.eventually_atTop.mpr ⟨_, fun _ hfuel => run_eq hrank hfuel⟩

/-! ## Forests -/

lemma mem_preorder {generations : ℕ} {a d : A} :
    d ∈ preorder children generations a ↔ ∃ n ≤ generations, Descends children n a d := by
  induction generations generalizing a with
  | zero => simp [preorder, Descends]
  | succ generations ih =>
    simp only [preorder, List.mem_cons, List.mem_flatMap, List.mem_reverse, ih]
    constructor
    · rintro (rfl | ⟨c, hc, n, hn, hdescends⟩)
      · exact ⟨0, Nat.zero_le _, rfl⟩
      · exact ⟨n + 1, Nat.succ_le_succ hn, c, hc, hdescends⟩
    · rintro ⟨n, hn, hdescends⟩
      cases n with
      | zero => exact .inl hdescends
      | succ n =>
        obtain ⟨c, hc, hdescends⟩ := hdescends
        exact .inr ⟨c, hc, n, Nat.le_of_succ_le_succ hn, hdescends⟩

/-- The last generation on the way down. -/
lemma descends_succ {n : ℕ} {a d : A} :
    Descends children (n + 1) a d ↔ ∃ p, Descends children n a p ∧ d ∈ children p := by
  induction n generalizing a with
  | zero => simp [Descends]
  | succ n ih =>
    constructor
    · rintro ⟨c, hc, hdescends⟩
      obtain ⟨p, hp, hd⟩ := ih.mp hdescends
      exact ⟨p, ⟨c, hc, hp⟩, hd⟩
    · rintro ⟨p, ⟨c, hc, hp⟩, hd⟩
      exact ⟨c, hc, ih.mpr ⟨p, hp, hd⟩⟩

/-- What the children keep is kept on the way down. -/
lemma Descends.keeps {P : A → Prop} (hkeep : ∀ a, P a → ∀ c ∈ children a, P c) {n : ℕ} {a d : A}
    (h : Descends children n a d) (ha : P a) : P d := by
  induction n generalizing a with
  | zero => rwa [h]
  | succ n ih =>
    obtain ⟨c, hc, h⟩ := h
    exact ih h (hkeep a ha c hc)

variable {level : A → ℕ}

lemma Descends.level_eq (hlevel : ∀ a, ∀ c ∈ children a, level c = level a + 1) {n : ℕ} {a d : A}
    (h : Descends children n a d) : level d = level a + n := by
  induction n generalizing a with
  | zero => rw [h, Nat.add_zero]
  | succ n ih =>
    obtain ⟨c, hc, h⟩ := h
    rw [ih h, hlevel a c hc]
    omega

/-- The elements form a forest: a child is one level lower, has one parent, and is listed there once. -/
structure Forest (children : A → List A) (level : A → ℕ) (P : A → Prop) : Prop where
  keeps : ∀ a, P a → ∀ c ∈ children a, P c
  level : ∀ a, ∀ c ∈ children a, level c = level a + 1
  parent : ∀ a b, P a → P b → ∀ c ∈ children a, c ∈ children b → a = b
  nodup : ∀ a, P a → (children a).Nodup

variable {P : A → Prop}

/-- In a forest an element is below one root only. -/
lemma Forest.root_unique (hforest : Forest children level P) {n : ℕ} {a b d : A} (ha : P a) (hb : P b)
    (had : Descends children n a d) (hbd : Descends children n b d) : a = b := by
  induction n generalizing d with
  | zero => exact had.symm.trans hbd
  | succ n ih =>
    obtain ⟨p, hp, hd⟩ := descends_succ.mp had
    obtain ⟨q, hq, hd'⟩ := descends_succ.mp hbd
    obtain rfl := hforest.parent p q (hp.keeps hforest.keeps ha) (hq.keeps hforest.keeps hb) d hd hd'
    exact ih hp hq

/-- In a forest the elements below one are listed once. -/
theorem Forest.nodup_preorder (hforest : Forest children level P) (generations : ℕ) {a : A} (ha : P a) :
    (preorder children generations a).Nodup := by
  induction generations generalizing a with
  | zero => exact List.nodup_singleton a
  | succ generations ih =>
    have hchild : ∀ c ∈ (children a).reverse, P c ∧ level c = level a + 1 := fun c hc =>
      ⟨hforest.keeps a ha c (List.mem_reverse.mp hc), hforest.level a c (List.mem_reverse.mp hc)⟩
    refine List.nodup_cons.mpr ⟨?_, List.nodup_flatMap.mpr ⟨fun c hc => ih (hchild c hc).1, ?_⟩⟩
    · intro hmem
      obtain ⟨c, hc, hbelow⟩ := List.mem_flatMap.mp hmem
      obtain ⟨n, -, hdescends⟩ := mem_preorder.mp hbelow
      have hlow := hdescends.level_eq hforest.level
      have hc_level := (hchild c hc).2
      omega
    · refine ((List.nodup_reverse.mpr (hforest.nodup a ha)).imp_of_mem fun {c c'} hc hc' hne => ?_)
      intro d hd hd'
      obtain ⟨n, -, hn⟩ := mem_preorder.mp hd
      obtain ⟨n', -, hn'⟩ := mem_preorder.mp hd'
      have hlow := hn.level_eq hforest.level
      have hlow' := hn'.level_eq hforest.level
      have hc_level := (hchild c hc).2
      have hc'_level := (hchild c' hc').2
      obtain rfl : n = n' := by omega
      exact hne (hforest.root_unique (hchild c hc).1 (hchild c' hc').1 hn hn')

end StackLoop
