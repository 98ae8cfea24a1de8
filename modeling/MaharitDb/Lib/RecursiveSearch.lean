import MaharitDb.Lib.Loop

/-!
# Recursive depth-first search

The depth-first searches that are written as a recursive function: mark the node, go through its successors, and search
those that are not marked.  What a search does beyond that, when it enters and leaves a node and when it meets a marked
one, are parameters; a search may also stop early.  One rule serves all of them.
-/

namespace RecursiveSearch

variable {V S : Type} [DecidableEq V]

/-- What a search does to its own state. -/
structure Actions (V S : Type) where
  /-- On entering a node. -/
  enter : V → S → S
  /-- When a marked successor is met. -/
  meet : V → S → S
  /-- On leaving a node. -/
  leave : V → S → S
  /-- Whether the search has stopped early. -/
  stopped : S → Bool

variable (acts : Actions V S) (succ : V → List V)

/-- Search from a node that is not marked; the marks and the state of the search are handed on. -/
def visit : ℕ → V → HashSet V × S → Option (HashSet V × S)
  | 0, _, _ => none
  | fuel + 1, v, (visited, s) =>
      ((succ v).foldlM (fun st w =>
          if acts.stopped st.2 then some st
          else if w ∈ st.1 then some (st.1, acts.meet w st.2)
          else visit fuel w st)
        (visited.add v, acts.enter v s)).map fun st => (st.1, acts.leave v st.2)

/-- Search from every node of a list that is not marked when its turn comes. -/
def visitAll (fuel : ℕ) (nodes : List V) (st : HashSet V × S) : Option (HashSet V × S) :=
  nodes.foldlM (fun st v =>
    if acts.stopped st.2 then some st else if v ∈ st.1 then some st else visit acts succ fuel v st) st

variable {acts succ}

/-- What is known of a search: before it, in the midst of the successors of the node, and after it. -/
structure Contract (acts : Actions V S) (succ : V → List V) (nodes : List V)
    (Pre : V → HashSet V × S → Prop) (Mid : V → HashSet V × S → List V → HashSet V × S → Prop)
    (Post : V → HashSet V × S → HashSet V × S → Prop) : Prop where
  live : ∀ v st, Pre v st → v ∈ nodes ∧ v ∉ st.1
  begin : ∀ v st, Pre v st → Mid v st [] (st.1.add v, acts.enter v st.2)
  stop : ∀ v st done w st', Pre v st → Mid v st done st' → acts.stopped st'.2 = true → Mid v st (done ++ [w]) st'
  meet : ∀ v st done w st', Pre v st → Mid v st done st' → w ∈ succ v → acts.stopped st'.2 = false → w ∈ st'.1 →
    Mid v st (done ++ [w]) (st'.1, acts.meet w st'.2)
  call : ∀ v st done w st', Pre v st → Mid v st done st' → w ∈ succ v → acts.stopped st'.2 = false → w ∉ st'.1 →
    Pre w st' ∧ ∀ st'', Post w st' st'' → (∀ u, u = w ∨ u ∈ st'.1 → u ∈ st''.1) → Mid v st (done ++ [w]) st''
  finish : ∀ v st st', Pre v st → Mid v st (succ v) st' → (∀ u, u = v ∨ u ∈ st.1 → u ∈ st'.1) →
    Post v st (st'.1, acts.leave v st'.2)

variable {nodes : List V} {Pre : V → HashSet V × S → Prop} {Mid : V → HashSet V × S → List V → HashSet V × S → Prop}
  {Post : V → HashSet V × S → HashSet V × S → Prop}

/-- The rule of the recursive search; the marks only grow. -/
theorem Contract.visit (h : Contract acts succ nodes Pre Mid Post) {v : V} {st : HashSet V × S} (hpre : Pre v st) :
    ∃ st', (Post v st st' ∧ ∀ u, u = v ∨ u ∈ st.1 → u ∈ st'.1) ∧
      WithFuel (fun fuel => RecursiveSearch.visit acts succ fuel v st) (· = some st') := by
  induction hn : Loop.unseen nodes st.1 using Nat.strong_induction_on generalizing v st with
  | _ n ih =>
    subst hn
    obtain ⟨hlive, hfresh⟩ := h.live v st hpre
    have hless := Loop.unseen_insert_lt () hlive hfresh
    have hturn : ∀ done w rest st', succ v = done ++ w :: rest →
        Mid v st done st' ∧ (∀ u ∈ st.1.add v, u ∈ st'.1) →
        ∃ st'', (Mid v st (done ++ [w]) st'' ∧ ∀ u ∈ st.1.add v, u ∈ st''.1) ∧
          WithFuel (fun fuel => if acts.stopped st'.2 then some st'
            else if w ∈ st'.1 then some (st'.1, acts.meet w st'.2)
            else RecursiveSearch.visit acts succ fuel w st') (· = some st'') := by
      rintro done w rest st' hsplit ⟨hmid, hmarks⟩
      have hw : w ∈ succ v := by
        rw [hsplit]
        simp
      cases hstop : acts.stopped st'.2 with
      | true =>
        exact ⟨st', ⟨h.stop v st done w st' hpre hmid hstop, hmarks⟩, WithFuel.of_forall fun _ => rfl⟩
      | false =>
        by_cases hmark : w ∈ st'.1
        · exact ⟨_, ⟨h.meet v st done w st' hpre hmid hw hstop hmark, hmarks⟩,
            WithFuel.of_forall fun _ => by simp [hmark]⟩
        · obtain ⟨hpre', hafter⟩ := h.call v st done w st' hpre hmid hw hstop hmark
          have hle : Loop.unseen nodes st'.1 ≤ Loop.unseen nodes (st.1.add v) := by
            refine List.countP_mono_left fun u _ hu => ?_
            exact decide_eq_true fun hmem => of_decide_eq_true hu (hmarks u hmem)
          obtain ⟨st'', ⟨hpost, hgrow⟩, hrun⟩ := ih _ (hle.trans_lt hless) hpre' rfl
          refine ⟨st'', ⟨hafter st'' hpost hgrow, fun u hu => hgrow u (.inr (hmarks u hu))⟩, ?_⟩
          simpa [hmark] using hrun
    obtain ⟨st', ⟨hmid, hmarks⟩, hrun⟩ := Loop.foldlM_withFuel
      (fun done st' => Mid v st done st' ∧ ∀ u ∈ st.1.add v, u ∈ st'.1) (succ v) hturn
      ⟨h.begin v st hpre, fun _ hu => hu⟩
    have hgrow : ∀ u, u = v ∨ u ∈ st.1 → u ∈ st'.1 := fun u hu => hmarks u ((HashSet.mem_add ..).mpr hu)
    refine ⟨(st'.1, acts.leave v st'.2), ⟨h.finish v st st' hpre hmid hgrow, hgrow⟩, ?_⟩
    refine WithFuel.of_succ (fun fuel => rfl) (WithFuel.map
      (f := Option.map fun st' : HashSet V × S => (st'.1, acts.leave v st'.2))
      (R := (· = some (st'.1, acts.leave v st'.2))) hrun fun r hr => ?_)
    rw [hr, Option.map_some]

/-- The rule of the search from every node of a list. -/
theorem Contract.visitAll (h : Contract acts succ nodes Pre Mid Post) (roots : List V) (st : HashSet V × S)
    (Inv : List V → HashSet V × S → Prop)
    (hstop : ∀ done v st, Inv done st → acts.stopped st.2 = true → Inv (done ++ [v]) st)
    (hskip : ∀ done v st, Inv done st → v ∈ roots → v ∈ st.1 → Inv (done ++ [v]) st)
    (hcall : ∀ done v st, Inv done st → v ∈ roots → acts.stopped st.2 = false → v ∉ st.1 →
      Pre v st ∧ ∀ st', Post v st st' → (∀ u, u = v ∨ u ∈ st.1 → u ∈ st'.1) → Inv (done ++ [v]) st')
    (hst : Inv [] st) :
    ∃ st', Inv roots st' ∧ WithFuel (fun fuel => RecursiveSearch.visitAll acts succ fuel roots st) (· = some st') := by
  refine Loop.foldlM_withFuel Inv roots (fun done v rest st hsplit hinv => ?_) hst
  have hv : v ∈ roots := by
    rw [hsplit]
    simp
  cases hstopped : acts.stopped st.2 with
  | true => exact ⟨st, hstop done v st hinv hstopped, WithFuel.of_forall fun _ => rfl⟩
  | false =>
    by_cases hmark : v ∈ st.1
    · exact ⟨st, hskip done v st hinv hv hmark, WithFuel.of_forall fun _ => by simp [hmark]⟩
    · obtain ⟨hpre, hafter⟩ := hcall done v st hinv hv hstopped hmark
      obtain ⟨st', ⟨hpost, hgrow⟩, hrun⟩ := h.visit hpre
      exact ⟨st', hafter st' hpost hgrow, by simpa [hmark] using hrun⟩

end RecursiveSearch
