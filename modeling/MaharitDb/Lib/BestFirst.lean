import Mathlib.Algebra.Order.BigOperators.Group.List
import Mathlib.Data.List.MinMax
import MaharitDb.Lib.Loop
import MaharitDb.Lib.Walks

/-!
# Best-first search

The searches for a walk of least weight that take nodes from a heap.  Each node carries the least weight that has been
found for a walk to it and the edge over which that walk comes in; a cheaper walk puts the node into the heap once more,
and older entries stay there.  A node that is taken out with its current weight is closed, and its edges are examined.

The order in which nodes are taken is that of the weight so far plus an estimate of what remains.  When the estimate is
consistent a closed node has its final weight; without that, a closed node may be found over a cheaper walk later.
-/

namespace BestFirst

/-! ## Heaps -/

/-- A heap hands out an entry whose key is least; which one of several it hands out is its own affair. -/
structure MinHeap (A W : Type) [LE W] (key : A → W) where
  pop : List A → Option (A × List A)
  pop_eq_none : ∀ heap, pop heap = none → heap = []
  perm : ∀ heap a rest, pop heap = some (a, rest) → heap.Perm (a :: rest)
  least : ∀ heap a rest, pop heap = some (a, rest) → ∀ b ∈ heap, key a ≤ key b

/-- The heap that hands out the first of the least entries. -/
def MinHeap.first {A W : Type} [DecidableEq A] [LinearOrder W] (key : A → W) : MinHeap A W key where
  pop heap := (heap.argmin key).map fun a => (a, heap.erase a)
  pop_eq_none heap h := List.argmin_eq_none.mp (Option.map_eq_none_iff.mp h)
  perm heap a rest h := by
    obtain ⟨b, hb, heq⟩ := Option.map_eq_some_iff.mp h
    obtain ⟨rfl, rfl⟩ := Prod.mk.inj heq
    exact List.perm_cons_erase (List.argmin_mem hb)
  least heap a rest h b hb := by
    obtain ⟨c, hc, heq⟩ := Option.map_eq_some_iff.mp h
    obtain ⟨rfl, -⟩ := Prod.mk.inj heq
    exact List.le_of_mem_argmin hb hc

/-! ## Weighted walks -/

/-- A graph as the search sees it: the edges that leave a node, and of each edge its target, name and weight. -/
structure Arcs (V E I W : Type) where
  out : V → List E
  target : E → V
  name : E → I
  weight : E → W

variable {V E I W : Type} {A : Arcs V E I W}

namespace Arcs

/-- The edges lead from one node to the other. -/
def Walk (A : Arcs V E I W) : V → List E → V → Prop
  | u, [], v => u = v
  | u, e :: es, v => e ∈ A.out u ∧ A.Walk (A.target e) es v

lemma walk_concat {u v : V} {es : List E} {e : E} :
    A.Walk u (es ++ [e]) v ↔ ∃ x, A.Walk u es x ∧ e ∈ A.out x ∧ A.target e = v := by
  induction es generalizing u with
  | nil => simp [Walk]
  | cons d es ih =>
    rw [List.cons_append, Walk, ih]
    simp only [Walk, and_assoc, exists_and_left]

lemma Walk.append {u v x : V} {es es' : List E} (h : A.Walk u es v) (h' : A.Walk v es' x) : A.Walk u (es ++ es') x := by
  induction es generalizing u with
  | nil =>
    obtain rfl : u = v := h
    exact h'
  | cons e es ih => exact ⟨h.1, ih h.2⟩

/-- Walks in the terms of nodes and edges. -/
lemma walksTo_iff {link : V → E → V → Prop} (hlink : ∀ u e v, link u e v ↔ e ∈ A.out u ∧ A.target e = v) {u v : V}
    {nodes : List V} {es : List E} :
    Walks.WalksTo link u v nodes es ↔ nodes = u :: es.map A.target ∧ A.Walk u es v := by
  induction es generalizing u nodes with
  | nil =>
    constructor
    · rintro ⟨hwalk, hhead, hlast⟩
      obtain ⟨x, rfl⟩ := List.length_eq_one_iff.mp hwalk.length
      obtain rfl : x = u := Option.some.inj hhead
      obtain rfl : x = v := Option.some.inj hlast
      exact ⟨rfl, rfl⟩
    · rintro ⟨rfl, rfl⟩
      exact ⟨trivial, rfl, rfl⟩
  | cons e es ih =>
    constructor
    · rintro ⟨hwalk, hhead, hlast⟩
      obtain ⟨x, y, nodes, rfl⟩ : ∃ x y rest, nodes = x :: y :: rest := by
        have hlength := hwalk.length
        rcases nodes with _ | ⟨x, _ | ⟨y, rest⟩⟩
        · simp at hlength
        · simp at hlength
        · exact ⟨x, y, rest, rfl⟩
      obtain rfl : x = u := Option.some.inj hhead
      obtain ⟨hstep, hwalk⟩ := hwalk
      obtain ⟨he, rfl⟩ := (hlink ..).mp hstep
      obtain ⟨hnodes, hrest⟩ := ih.mp ⟨hwalk, rfl, by simpa using hlast⟩
      exact ⟨by rw [hnodes, List.map_cons], he, hrest⟩
    · rintro ⟨rfl, he, hrest⟩
      obtain ⟨hwalk, -, hlast⟩ := ih.mpr ⟨rfl, hrest⟩
      exact ⟨⟨(hlink ..).mpr ⟨he, rfl⟩, hwalk⟩, rfl, by simpa using hlast⟩

variable [AddCommGroup W]

/-- What the edges of a walk weigh. -/
def cost (A : Arcs V E I W) (es : List E) : W := (es.map A.weight).sum

@[simp] lemma cost_nil : A.cost [] = 0 := rfl

@[simp] lemma cost_cons (e : E) (es : List E) : A.cost (e :: es) = A.weight e + A.cost es := List.sum_cons

@[simp] lemma cost_concat (es : List E) (e : E) : A.cost (es ++ [e]) = A.cost es + A.weight e := by
  simp [cost]

lemma cost_append (es es' : List E) : A.cost (es ++ es') = A.cost es + A.cost es' := by
  simp [cost]

/-- The edges back to the start that are noted at the nodes; on the way each node carries the weight of the walk. -/
inductive Trace (A : Arcs V E I W) (dist : V → Option W) (prev : V → Option (V × I)) (start : V) : V → List E → Prop
  | start : A.Trace dist prev start start []
  | step {u v : V} {e : E} {es : List E} : v ≠ start → e ∈ A.out u → A.target e = v → prev v = some (u, A.name e) →
      dist u = some (A.cost es) → A.Trace dist prev start u es → A.Trace dist prev start v (es ++ [e])

variable {start : V} {closed : V → Prop} {dist dist' : V → Option W} {prev prev' : V → Option (V × I)}

lemma Trace.walk {v : V} {es : List E} (h : A.Trace dist prev start v es) : A.Walk start es v := by
  induction h with
  | start => rfl
  | step _ he hv _ _ _ ih => exact walk_concat.mpr ⟨_, ih, he, hv⟩

/-- What is noted at closed nodes stays. -/
lemma Trace.congr (hlinked : ∀ v u i, prev v = some (u, i) → closed u) (hprev : ∀ v, closed v → prev' v = prev v)
    (hdist : ∀ v, closed v → dist' v = dist v) {v : V} {es : List E} (h : A.Trace dist prev start v es)
    (hv : closed v) : A.Trace dist' prev' start v es := by
  induction h with
  | start => exact .start
  | step hne he htarget hnoted hcarried _ ih =>
    have hu := hlinked _ _ _ hnoted
    exact .step hne he htarget ((hprev _ hv).trans hnoted) ((hdist _ hu).trans hcarried) (ih hu)

/-- The node before an edge on the way back to the start. -/
lemma Trace.carried (hlinked : ∀ v u i, prev v = some (u, i) → closed u) {v : V} {es : List E}
    (h : A.Trace dist prev start v es) {before after : List E} {e : E} (hsplit : es = before ++ e :: after) :
    ∃ x, A.Walk start before x ∧ e ∈ A.out x ∧ closed x ∧ dist x = some (A.cost before) := by
  induction h generalizing after with
  | start => simp at hsplit
  | @step u v e' es' _ he _ hnoted hcarried hrest ih =>
    rcases after.eq_nil_or_concat with rfl | ⟨after, d, rfl⟩
    · obtain ⟨rfl, heq⟩ := List.append_inj' hsplit rfl
      obtain rfl : e' = e := by simpa using heq
      exact ⟨u, hrest.walk, he, hlinked _ _ _ hnoted, hcarried⟩
    · rw [List.concat_eq_append, ← List.cons_append, ← List.append_assoc] at hsplit
      exact ih (List.append_inj' hsplit rfl).1

variable [LinearOrder W]

/-- No edge has a negative weight. -/
def Nonneg (A : Arcs V E I W) : Prop := ∀ u, ∀ e ∈ A.out u, 0 ≤ A.weight e

lemma Walk.cost_nonneg [IsOrderedAddMonoid W] (hA : A.Nonneg) {u v : V} {es : List E} (h : A.Walk u es v) : 0 ≤ A.cost es := by
  induction es generalizing u with
  | nil => exact le_rfl
  | cons e es ih =>
    rw [cost_cons]
    exact add_nonneg (hA u e h.1) (ih h.2)

end Arcs

/-! ## The search -/

variable [AddCommGroup W] [LinearOrder W]

/-- The state of a search from `start`: the weight and the edge that each node carries, and the heap.  The edges of
`pending` leave closed nodes and have not been examined. -/
structure Inv (A : Arcs V E I W) (start : V) (closed : V → Prop) (pending : V → E → Prop) (dist : V → Option W)
    (prev : V → Option (V × I)) (heap : List (V × W)) : Prop where
  source : dist start = some 0
  traced : ∀ v d, dist v = some d → ∃ es, A.Trace dist prev start v es ∧ A.cost es = d
  linked : ∀ v u i, prev v = some (u, i) → closed u
  waiting : ∀ v d, dist v = some d → ¬ closed v → (v, d) ∈ heap
  bound : ∀ v d, (v, d) ∈ heap → ∃ d' ≤ d, dist v = some d'
  known : ∀ u, closed u → ∃ d, dist u = some d
  relaxed : ∀ u d, closed u → dist u = some d → ∀ e ∈ A.out u, ¬ pending u e →
    ∃ d', dist (A.target e) = some d' ∧ (closed (A.target e) ∨ d' ≤ d + A.weight e)

/-- No edge is pending. -/
def NonePending (_ : V) (_ : E) : Prop := False

/-- The edges of a list that leave a node are pending. -/
def Pending (u : V) (rest : List E) (x : V) (e : E) : Prop := x = u ∧ e ∈ rest

variable {start : V} {closed : V → Prop} {dist : V → Option W} {prev : V → Option (V × I)} {heap : List (V × W)}

/-- Before the first node is taken. -/
lemma Inv.init (hdist : ∀ v d, dist v = some d ↔ v = start ∧ d = 0) (hprev : ∀ v, prev v = none) :
    Inv A start (fun _ => False) NonePending dist prev [(start, 0)] where
  source := (hdist _ _).mpr ⟨rfl, rfl⟩
  traced v d hd := by
    obtain ⟨rfl, rfl⟩ := (hdist _ _).mp hd
    exact ⟨[], .start, rfl⟩
  linked v u i h := by
    rw [hprev] at h
    cases h
  waiting v d hd _ := by
    obtain ⟨rfl, rfl⟩ := (hdist _ _).mp hd
    exact List.mem_singleton_self _
  bound v d hmem := by
    obtain ⟨rfl, rfl⟩ := Prod.mk.inj (List.mem_singleton.mp hmem)
    exact ⟨0, le_rfl, (hdist _ _).mpr ⟨rfl, rfl⟩⟩
  known u hu := hu.elim
  relaxed u d hu := hu.elim

/-- Closing the node that is taken out; its edges are pending. -/
lemma Inv.close (h : Inv A start closed NonePending dist prev heap) {v : V} {d : W} {rest : List (V × W)}
    (hperm : heap.Perm ((v, d) :: rest)) (hd : dist v = some d) :
    Inv A start (fun x => x = v ∨ closed x) (Pending v (A.out v)) dist prev rest where
  source := h.source
  traced := h.traced
  linked x u i hx := .inr (h.linked x u i hx)
  waiting x dx hx hopen := by
    have hmem := hperm.mem_iff.mp (h.waiting x dx hx fun hc => hopen (.inr hc))
    rcases List.mem_cons.mp hmem with heq | hmem
    · exact absurd (.inl (Prod.mk.inj heq).1) hopen
    · exact hmem
  bound x dx hx := h.bound x dx (hperm.mem_iff.mpr (List.mem_cons_of_mem _ hx))
  known u hu := by
    rcases hu with rfl | hu
    · exact ⟨d, hd⟩
    · exact h.known u hu
  relaxed u du hu hdu e he hpending := by
    rcases hu with rfl | hu
    · exact absurd ⟨rfl, he⟩ hpending
    · obtain ⟨d', hd', hor⟩ := h.relaxed u du hu hdu e he id
      exact ⟨d', hd', hor.imp_left .inr⟩

/-- Taking out an entry of a closed node. -/
lemma Inv.skip (h : Inv A start closed NonePending dist prev heap) {v : V} {d : W} {rest : List (V × W)}
    (hperm : heap.Perm ((v, d) :: rest)) (hv : closed v) : Inv A start closed NonePending dist prev rest where
  source := h.source
  traced := h.traced
  linked := h.linked
  waiting x dx hx hopen := by
    rcases List.mem_cons.mp (hperm.mem_iff.mp (h.waiting x dx hx hopen)) with heq | hmem
    · exact absurd ((Prod.mk.inj heq).1 ▸ hv) hopen
    · exact hmem
  bound x dx hx := h.bound x dx (hperm.mem_iff.mpr (List.mem_cons_of_mem _ hx))
  known := h.known
  relaxed := h.relaxed

/-- An edge whose target is closed, or carries no greater weight. -/
lemma Inv.keep {v : V} {e : E} {rest : List E} (h : Inv A start closed (Pending v (e :: rest)) dist prev heap) {d d' : W}
    (hd : dist v = some d) (hd' : dist (A.target e) = some d')
    (hor : closed (A.target e) ∨ d' ≤ d + A.weight e) : Inv A start closed (Pending v rest) dist prev heap where
  source := h.source
  traced := h.traced
  linked := h.linked
  waiting := h.waiting
  bound := h.bound
  known := h.known
  relaxed u du hu hdu x hx hpending := by
    by_cases hx' : u = v ∧ x = e
    · obtain ⟨rfl, rfl⟩ := hx'
      obtain rfl := Option.some.inj (hd.symm.trans hdu)
      exact ⟨d', hd', hor⟩
    · refine h.relaxed u du hu hdu x hx fun hmem => ?_
      rcases List.mem_cons.mp hmem.2 with heq | hrest
      · exact hx' ⟨hmem.1, heq⟩
      · exact hpending ⟨hmem.1, hrest⟩

/-- No edge of the node is left. -/
lemma Inv.done {v : V} (h : Inv A start closed (Pending v []) dist prev heap) :
    Inv A start closed NonePending dist prev heap where
  source := h.source
  traced := h.traced
  linked := h.linked
  waiting := h.waiting
  bound := h.bound
  known := h.known
  relaxed u d hu hd e he _ := h.relaxed u d hu hd e he fun hmem => absurd hmem.2 List.not_mem_nil

variable [IsOrderedAddMonoid W]

/-- An entry that is taken out for a node that is not closed has the weight that the node carries. -/
lemma Inv.pop_eq {pending : V → E → Prop} (h : Inv A start closed pending dist prev heap) (estimate : V → W) {v : V}
    {d : W} (hmem : (v, d) ∈ heap) (hleast : ∀ x ∈ heap, d + estimate v ≤ x.2 + estimate x.1) (hopen : ¬ closed v) :
    dist v = some d := by
  obtain ⟨d', hle, hd'⟩ := h.bound v d hmem
  have hge := hleast _ (h.waiting v d' hd' hopen)
  rw [hd', le_antisymm hle (le_of_add_le_add_right hge)]

/-- An edge over which its target is found, for the first time or over a cheaper walk. -/
lemma Inv.improve [DecidableEq V] (hA : A.Nonneg) {v : V} {e : E} {rest : List E}
    (h : Inv A start closed (Pending v (e :: rest)) dist prev heap) (hv : closed v) (he : e ∈ A.out v) {d : W}
    (hd : dist v = some d) (hopen : ¬ closed (A.target e))
    (hless : ∀ d', dist (A.target e) = some d' → d + A.weight e < d') {dist' : V → Option W}
    {prev' : V → Option (V × I)}
    (hdist' : ∀ x, dist' x = if x = A.target e then some (d + A.weight e) else dist x)
    (hprev' : ∀ x, prev' x = if x = A.target e then some (v, A.name e) else prev x) :
    Inv A start closed (Pending v rest) dist' prev' ((A.target e, d + A.weight e) :: heap) := by
  have hnew : dist' (A.target e) = some (d + A.weight e) := by rw [hdist', if_pos rfl]
  have hnewPrev : prev' (A.target e) = some (v, A.name e) := by rw [hprev', if_pos rfl]
  have hold : ∀ x, x ≠ A.target e → dist' x = dist x ∧ prev' x = prev x := fun x hx =>
    ⟨by rw [hdist', if_neg hx], by rw [hprev', if_neg hx]⟩
  have hne : ∀ x, closed x → x ≠ A.target e := fun x hx heq => hopen (heq ▸ hx)
  have hsame : ∀ x, closed x → prev' x = prev x := fun x hx => (hold x (hne x hx)).2
  have hsame' : ∀ x, closed x → dist' x = dist x := fun x hx => (hold x (hne x hx)).1
  obtain ⟨es, htrace, hcost⟩ := h.traced v d hd
  have hnonneg : 0 ≤ d := hcost ▸ htrace.walk.cost_nonneg hA
  have hstart : A.target e ≠ start := by
    intro heq
    have hlt := hless 0 (heq ▸ h.source)
    exact absurd (add_nonneg hnonneg (hA v e he)) (not_le.mpr hlt)
  have htrace' := htrace.congr h.linked hsame hsame' hv
  refine ⟨?_, fun x dx hx => ?_, fun x u i hx => ?_, fun x dx hx hopen' => ?_, fun x dx hx => ?_, fun u hu => ?_,
    fun u du hu hdu x hx hpending => ?_⟩
  · rw [(hold start hstart.symm).1]
    exact h.source
  · by_cases hx' : x = A.target e
    · subst hx'
      obtain rfl := Option.some.inj (hnew.symm.trans hx)
      exact ⟨es ++ [e], .step hstart he rfl hnewPrev (by rw [hsame' v hv, hd, hcost]) htrace', by rw [Arcs.cost_concat, hcost]⟩
    · rw [(hold x hx').1] at hx
      obtain ⟨es', htrace'', hcost'⟩ := h.traced x dx hx
      refine ⟨es', ?_, hcost'⟩
      cases htrace'' with
      | start => exact .start
      | step hne' he' htarget hprev hcarried hrest =>
        have hu := h.linked _ _ _ hprev
        exact .step hne' he' htarget ((hold x hx').2.trans hprev) ((hsame' _ hu).trans hcarried)
          (hrest.congr h.linked hsame hsame' hu)
  · by_cases hx' : x = A.target e
    · subst hx'
      obtain ⟨rfl, -⟩ := Prod.mk.inj (Option.some.inj (hnewPrev.symm.trans hx))
      exact hv
    · rw [(hold x hx').2] at hx
      exact h.linked x u i hx
  · by_cases hx' : x = A.target e
    · subst hx'
      obtain rfl := Option.some.inj (hnew.symm.trans hx)
      exact List.mem_cons_self
    · rw [(hold x hx').1] at hx
      exact List.mem_cons_of_mem _ (h.waiting x dx hx hopen')
  · rcases List.mem_cons.mp hx with heq | hx
    · obtain ⟨rfl, rfl⟩ := Prod.mk.inj heq
      exact ⟨_, le_rfl, hnew⟩
    · obtain ⟨d', hle, hd'⟩ := h.bound x dx hx
      by_cases hx' : x = A.target e
      · subst hx'
        exact ⟨_, (hless d' hd').le.trans hle, hnew⟩
      · exact ⟨d', hle, (hold x hx').1.trans hd'⟩
  · obtain ⟨du, hdu⟩ := h.known u hu
    exact ⟨du, (hold u (hne u hu)).1.trans hdu⟩
  · rw [(hold u (hne u hu)).1] at hdu
    by_cases htarget : A.target x = A.target e
    · refine ⟨_, by rw [htarget]; exact hnew, .inr ?_⟩
      by_cases hx' : u = v ∧ x = e
      · obtain ⟨rfl, rfl⟩ := hx'
        rw [Option.some.inj (hd.symm.trans hdu)]
      · obtain ⟨d', hd', hor⟩ := h.relaxed u du hu hdu x hx fun hmem => by
          rcases List.mem_cons.mp hmem.2 with heq | hrest
          · exact hx' ⟨hmem.1, heq⟩
          · exact hpending ⟨hmem.1, hrest⟩
        rw [htarget] at hd' hor
        exact (hless d' hd').le.trans (hor.resolve_left hopen)
    · obtain ⟨d', hd', hor⟩ := h.relaxed u du hu hdu x hx fun hmem => by
        rcases List.mem_cons.mp hmem.2 with heq | hrest
        · exact htarget (heq ▸ rfl)
        · exact hpending ⟨hmem.1, hrest⟩
      exact ⟨d', (hold _ htarget).1.trans hd', hor⟩

omit [IsOrderedAddMonoid W] in
/-- When the heap is empty, every node to which a walk leads is closed. -/
lemma Inv.closed_of_walk (h : Inv A start closed NonePending dist prev []) {v : V} {es : List E}
    (hwalk : A.Walk start es v) : closed v := by
  have hcarried : ∀ x d, dist x = some d → closed x := fun x d hd => by
    by_contra hopen
    exact absurd (h.waiting x d hd hopen) List.not_mem_nil
  have hall : ∀ es u, closed u → A.Walk u es v → closed v := by
    intro es
    induction es with
    | nil =>
      intro u hu hwalk
      obtain rfl : u = v := hwalk
      exact hu
    | cons e es ih =>
      intro u hu hwalk
      obtain ⟨d, hd⟩ := h.known u hu
      obtain ⟨d', hd', -⟩ := h.relaxed u d hu hd e hwalk.1 id
      exact ih (A.target e) (hcarried _ _ hd') hwalk.2
  exact hall es start (hcarried _ _ h.source) hwalk

/-! ## Consistent estimates -/

/-- Along an edge the estimate falls by no more than the edge weighs. -/
def Consistent (A : Arcs V E I W) (estimate : V → W) : Prop :=
  ∀ u, ∀ e ∈ A.out u, estimate u ≤ A.weight e + estimate (A.target e)

lemma Consistent.le_cost {estimate : V → W} (hA : Consistent A estimate) {u v : V} {es : List E}
    (h : A.Walk u es v) : estimate u ≤ A.cost es + estimate v := by
  induction es generalizing u with
  | nil =>
    obtain rfl : u = v := h
    rw [Arcs.cost_nil, zero_add]
  | cons e es ih =>
    rw [Arcs.cost_cons, add_assoc]
    exact (hA u e h.1).trans (add_le_add_right (ih h.2) _)

/-- The nodes are taken in the order of their estimates, the last one at `level`; no edge between closed nodes offers a
smaller weight. -/
structure Settled (A : Arcs V E I W) (estimate : V → W) (closed : V → Prop) (level : W) (dist : V → Option W)
    (heap : List (V × W)) : Prop where
  below : ∀ v d, closed v → dist v = some d → d + estimate v ≤ level
  above : ∀ x ∈ heap, level ≤ x.2 + estimate x.1
  final : ∀ u d, closed u → dist u = some d → ∀ e ∈ A.out u, closed (A.target e) →
    ∀ d', dist (A.target e) = some d' → d' ≤ d + A.weight e

variable {estimate : V → W} {level : W}

omit [IsOrderedAddMonoid W] in
/-- Taking out an entry of a closed node. -/
lemma Settled.skip (h : Settled A estimate closed level dist heap) {x : V × W} {rest : List (V × W)}
    (hperm : heap.Perm (x :: rest)) : Settled A estimate closed level dist rest where
  below := h.below
  above y hy := h.above y (hperm.mem_iff.mpr (List.mem_cons_of_mem _ hy))
  final := h.final

/-- Closing the node that is taken out. -/
lemma Settled.close (h : Settled A estimate closed level dist heap) (hA : Consistent A estimate)
    (hinv : Inv A start closed NonePending dist prev heap) {v : V} {d : W} {rest : List (V × W)}
    (hperm : heap.Perm ((v, d) :: rest)) (hleast : ∀ x ∈ heap, d + estimate v ≤ x.2 + estimate x.1)
    (hd : dist v = some d) (hopen : ¬ closed v) :
    Settled A estimate (fun x => x = v ∨ closed x) (d + estimate v) dist rest where
  below u du hu hdu := by
    rcases hu with rfl | hu
    · rw [Option.some.inj (hd.symm.trans hdu)]
    · exact (h.below u du hu hdu).trans (h.above (v, d) (hperm.mem_iff.mpr List.mem_cons_self))
  above x hx := hleast x (hperm.mem_iff.mpr (List.mem_cons_of_mem _ hx))
  final u du hu hdu e he htarget d' hd' := by
    rcases hu with rfl | hu
    · obtain rfl := Option.some.inj (hd.symm.trans hdu)
      -- the target was closed at a smaller estimate
      have hbefore : d' + estimate (A.target e) ≤ d + estimate u := by
        rcases htarget with heq | htarget
        · rw [heq] at hd' ⊢
          rw [Option.some.inj (hd.symm.trans hd')]
        · exact (h.below _ d' htarget hd').trans (h.above (u, d) (hperm.mem_iff.mpr List.mem_cons_self))
      have hfall : d + estimate u ≤ d + A.weight e + estimate (A.target e) := by
        rw [add_assoc]
        exact add_le_add_right (hA u e he) d
      exact le_of_add_le_add_right (hbefore.trans hfall)
    · rcases htarget with heq | htarget
      · obtain ⟨d'', hd'', hor⟩ := hinv.relaxed u du hu hdu e he id
        rw [Option.some.inj (hd'.symm.trans hd'')]
        exact hor.resolve_left fun hc => hopen (heq ▸ hc)
      · exact h.final u du hu hdu e he htarget d' hd'

/-- An edge of the node at the level over which its target is found. -/
lemma Settled.improve (h : Settled A estimate closed level dist heap) (hA : Consistent A estimate) {v : V} {e : E}
    (he : e ∈ A.out v) {d : W} (hlevel : level = d + estimate v) (hopen : ¬ closed (A.target e)) {dist' : V → Option W}
    (hdist' : ∀ x, x ≠ A.target e → dist' x = dist x) :
    Settled A estimate closed level dist' ((A.target e, d + A.weight e) :: heap) where
  below u du hu hdu := by
    rw [hdist' u fun heq => hopen (heq ▸ hu)] at hdu
    exact h.below u du hu hdu
  above x hx := by
    rcases List.mem_cons.mp hx with rfl | hx
    · rw [hlevel, add_assoc]
      exact add_le_add_right (hA v e he) d
    · exact h.above x hx
  final u du hu hdu x hx htarget d' hd' := by
    rw [hdist' u fun heq => hopen (heq ▸ hu)] at hdu
    rw [hdist' _ fun heq => hopen (heq ▸ htarget)] at hd'
    exact h.final u du hu hdu x hx htarget d' hd'

/-- On a walk from a node that carries a weight, either some node waits in the heap with no more than the weight of the
walk up to it, or the last node is closed with no more than the weight of the walk. -/
lemma Settled.frontier (h : Settled A estimate closed level dist heap)
    (hinv : Inv A start closed NonePending dist prev heap) {u v : V} {es : List E} {d : W} (hwalk : A.Walk u es v)
    (hd : dist u = some d) :
    (∃ x ∈ heap, ∃ es', A.Walk x.1 es' v ∧ x.2 + A.cost es' ≤ d + A.cost es) ∨
      closed v ∧ ∃ d' ≤ d + A.cost es, dist v = some d' := by
  induction es generalizing u d with
  | nil =>
    obtain rfl : u = v := hwalk
    by_cases hu : closed u
    · exact .inr ⟨hu, d, by rw [Arcs.cost_nil, add_zero], hd⟩
    · exact .inl ⟨(u, d), hinv.waiting u d hd hu, [], rfl, le_rfl⟩
  | cons e es ih =>
    by_cases hu : closed u
    · obtain ⟨d', hd', hor⟩ := hinv.relaxed u d hu hd e hwalk.1 id
      have hle : d' ≤ d + A.weight e := hor.elim (fun hc => h.final u d hu hd e hwalk.1 hc d' hd') id
      have htotal : d' + A.cost es ≤ d + A.cost (e :: es) := by
        rw [Arcs.cost_cons, ← add_assoc]
        exact add_le_add_left hle _
      rcases ih hwalk.2 hd' with ⟨x, hx, es', hwalk', hcost⟩ | ⟨hv, d'', hcost, hd''⟩
      · exact .inl ⟨x, hx, es', hwalk', hcost.trans htotal⟩
      · exact .inr ⟨hv, d'', hcost.trans htotal, hd''⟩
    · exact .inl ⟨(u, d), hinv.waiting u d hd hu, e :: es, hwalk, le_rfl⟩

/-- A node that is taken out for the first time has its least weight. -/
theorem Settled.least_of_pop (h : Settled A estimate closed level dist heap) (hA : Consistent A estimate)
    (hinv : Inv A start closed NonePending dist prev heap) {v : V} {d : W}
    (hleast : ∀ x ∈ heap, d + estimate v ≤ x.2 + estimate x.1) (hopen : ¬ closed v) {es : List E}
    (hwalk : A.Walk start es v) : d ≤ A.cost es := by
  rcases h.frontier hinv hwalk hinv.source with ⟨x, hx, es', hwalk', hcost⟩ | ⟨hv, -⟩
  · rw [zero_add] at hcost
    have hestimate : d + estimate v ≤ x.2 + A.cost es' + estimate v := by
      rw [add_assoc]
      exact (hleast x hx).trans (add_le_add_right (hA.le_cost hwalk') _)
    exact (le_of_add_le_add_right hestimate).trans hcost
  · exact absurd hv hopen

/-- When the heap is empty, every node carries its least weight. -/
theorem Settled.least_of_empty (h : Settled A estimate closed level dist [])
    (hinv : Inv A start closed NonePending dist prev []) {v : V} {es : List E} (hwalk : A.Walk start es v) :
    ∃ d ≤ A.cost es, dist v = some d := by
  rcases h.frontier hinv hwalk hinv.source with ⟨x, hx, -⟩ | ⟨-, d, hcost, hd⟩
  · exact absurd hx List.not_mem_nil
  · rw [zero_add] at hcost
    exact ⟨d, hcost, hd⟩

end BestFirst
