import MaharitDb.Lib.AssocMap
import Mathlib.Data.List.Dedup

/-!
# Recency

A cache of bounded size that evicts the least recently used entry.  Its abstract form is a list, most
recent entry first: using a key moves it to the front, and the list is cut to the size.  What the list
holds is then determined by the uses alone: the keys that were used last.  `RecencyOrder` relates the
list to a hash map whose entries carry the time of their last use.
-/

namespace Recency

variable {K V : Type*} [DecidableEq K]

/-! ## The list -/

/-- The list without a key. -/
def forget (k : K) (l : List (K × V)) : List (K × V) := l.filter fun p => p.1 ≠ k

/-- A key is used: its entry goes to the front. -/
def use (k : K) (v : V) (l : List (K × V)) : List (K × V) := (k, v) :: forget k l

@[simp] lemma mem_forget {k : K} {l : List (K × V)} {p : K × V} :
    p ∈ forget k l ↔ p ∈ l ∧ p.1 ≠ k := by
  simp [forget]

lemma keys_forget (k : K) (l : List (K × V)) :
    (forget k l).map Prod.fst = (l.map Prod.fst).filter fun k' => k' ≠ k := by
  induction l with
  | nil => rfl
  | cons p l ih => by_cases hp : p.1 = k <;> simp_all [forget]

lemma forget_eq_self {k : K} {l : List (K × V)} (h : k ∉ l.map Prod.fst) : forget k l = l := by
  refine List.filter_eq_self.mpr fun p hp => ?_
  have hne : p.1 ≠ k := fun hk => h (hk ▸ List.mem_map_of_mem hp)
  simp [hne]

@[simp] lemma forget_forget (k : K) (l : List (K × V)) : forget k (forget k l) = forget k l := by
  simp [forget]

lemma nodup_forget {l : List (K × V)} (h : (l.map Prod.fst).Nodup) (k : K) :
    ((forget k l).map Prod.fst).Nodup := by
  rw [keys_forget]
  exact h.filter _

lemma nodup_use {l : List (K × V)} (h : (l.map Prod.fst).Nodup) (k : K) (v : V) :
    ((use k v l).map Prod.fst).Nodup := by
  refine List.nodup_cons.mpr ⟨?_, nodup_forget h k⟩
  rw [keys_forget]
  simp

/-- Removing one key shortens a list without repetitions by at most one entry. -/
lemma take_forget {l : List (K × V)} (h : (l.map Prod.fst).Nodup) (k : K) (n : ℕ) :
    (forget k (l.take (n + 1))).take n = (forget k l).take n := by
  induction l generalizing n with
  | nil => simp [forget]
  | cons p l ih =>
    obtain ⟨hp, hl⟩ := List.nodup_cons.mp h
    by_cases hk : p.1 = k
    · subst hk
      have hrest : forget p.1 l = l := forget_eq_self hp
      have htake : forget p.1 (l.take n) = l.take n :=
        forget_eq_self fun hmem => hp ((List.map_subset _ (List.take_subset n l)) hmem)
      have hcons : ∀ l' : List (K × V), forget p.1 (p :: l') = forget p.1 l' := fun l' => by simp [forget]
      rw [List.take_succ_cons, hcons, hcons, hrest, htake, List.take_take, Nat.min_self]
    · have hcons : ∀ l' : List (K × V), forget k (p :: l') = p :: forget k l' := fun l' => by
        simp [forget, hk]
      rw [List.take_succ_cons, hcons, hcons]
      cases n with
      | zero => rfl
      | succ n => rw [List.take_succ_cons, List.take_succ_cons, ih hl n]

/-- Entries that were cut off do not come back. -/
lemma take_use_take {l : List (K × V)} (h : (l.map Prod.fst).Nodup) (k : K) (v : V) (n : ℕ) :
    (use k v (l.take n)).take n = (use k v l).take n := by
  cases n with
  | zero => rfl
  | succ n =>
    change (k, v) :: (forget k (l.take (n + 1))).take n = (k, v) :: (forget k l).take n
    rw [take_forget h]

/-- The uses, one after the other, of a list that is cut to a size. -/
def uses (size : ℕ) (l : List (K × V)) (used : List (K × V)) : List (K × V) :=
  used.foldl (fun l p => (use p.1 p.2 l).take size) l

lemma uses_append (size : ℕ) (l : List (K × V)) (used used' : List (K × V)) :
    uses size l (used ++ used') = uses size (uses size l used) used' :=
  List.foldl_append

lemma uses_concat (size : ℕ) (l : List (K × V)) (used : List (K × V)) (p : K × V) :
    uses size l (used ++ [p]) = (use p.1 p.2 (uses size l used)).take size := by
  rw [uses_append]
  rfl

lemma length_uses_le {size : ℕ} {l : List (K × V)} (h : l.length ≤ size) (used : List (K × V)) :
    (uses size l used).length ≤ size := by
  induction used generalizing l with
  | nil => exact h
  | cons p used ih => exact ih (List.length_take_le size _)

/-- What the list holds was used. -/
lemma mem_of_mem_uses {size : ℕ} {used : List (K × V)} {p : K × V} (h : p ∈ uses size [] used) : p ∈ used := by
  induction used using List.reverseRecOn with
  | nil => exact h
  | append_singleton used q ih =>
    rw [uses_concat] at h
    rcases List.mem_cons.mp (List.take_subset _ _ h) with rfl | hin
    · exact List.mem_append_right _ (List.mem_singleton_self _)
    · exact List.mem_append_left _ (ih (mem_forget.mp hin).1)

/-- The last occurrences stay when a key is used once more. -/
lemma dedup_concat (ks : List K) (k : K) :
    (ks ++ [k]).dedup = ks.dedup.filter (fun k' => k' ≠ k) ++ [k] := by
  induction ks with
  | nil => simp
  | cons a ks ih =>
    rw [List.cons_append]
    by_cases ha : a ∈ ks
    · rw [List.dedup_cons_of_mem (List.mem_append_left _ ha), List.dedup_cons_of_mem ha, ih]
    · rw [List.dedup_cons_of_notMem ha]
      by_cases hk : a = k
      · subst hk
        rw [List.dedup_cons_of_mem (List.mem_append_right _ (List.mem_singleton_self a)), ih]
        simp
      · have hmem : a ∉ ks ++ [k] := by simp [ha, hk]
        rw [List.dedup_cons_of_notMem hmem, ih]
        simp [hk]

/-- The keys of an uncut list are the used keys, the last one first. -/
lemma keys_foldl_use (used : List (K × V)) :
    (used.foldl (fun l p => use p.1 p.2 l) []).map Prod.fst = (used.map Prod.fst).dedup.reverse := by
  induction used using List.reverseRecOn with
  | nil => rfl
  | append_singleton used p ih =>
    rw [List.foldl_append, List.map_append, List.map_singleton, dedup_concat, List.reverse_append,
      ← List.filter_reverse, ← ih, ← keys_forget]
    rfl

lemma nodup_foldl_use (used : List (K × V)) :
    ((used.foldl (fun l p => use p.1 p.2 l) []).map Prod.fst).Nodup := by
  rw [keys_foldl_use]
  exact List.nodup_reverse.mpr (List.nodup_dedup _)

/-- Cutting the list after every use is cutting it once. -/
lemma uses_nil_eq_take (size : ℕ) (used : List (K × V)) :
    uses size [] used = (used.foldl (fun l p => use p.1 p.2 l) []).take size := by
  induction used using List.reverseRecOn with
  | nil => simp [uses]
  | append_singleton used p ih =>
    rw [uses_concat, ih, take_use_take (nodup_foldl_use used), List.foldl_append]
    rfl

/-- The list holds the keys that were used last. -/
theorem keys_uses (size : ℕ) (used : List (K × V)) :
    (uses size [] used).map Prod.fst = (used.map Prod.fst).dedup.reverse.take size := by
  rw [uses_nil_eq_take, List.map_take, keys_foldl_use]

lemma map_forget {W : Type*} (f : V → W) (k : K) (l : List (K × V)) :
    (forget k l).map (Prod.map id f) = forget k (l.map (Prod.map id f)) := by
  induction l with
  | nil => rfl
  | cons p l ih => by_cases hp : p.1 = k <;> simp_all [forget]

lemma map_use {W : Type*} (f : V → W) (k : K) (v : V) (l : List (K × V)) :
    (use k v l).map (Prod.map id f) = use k (f v) (l.map (Prod.map id f)) := by
  rw [use, use, List.map_cons, map_forget]
  rfl

lemma lookup_map {W : Type*} (f : V → W) (k : K) (l : List (K × V)) :
    (l.map (Prod.map id f)).lookup k = (l.lookup k).map f := by
  induction l with
  | nil => rfl
  | cons p l ih =>
    rw [List.map_cons, List.lookup_cons, List.lookup_cons, ih]
    change (match k == p.1 with | true => some (f p.2) | false => (l.lookup k).map f) = _
    rcases k == p.1 with _ | _ <;> rfl

/-! ## Requests -/

/-- The value of a key is asked for: it is held, or it is computed, which may fail, and then held. -/
def request {ε : Type*} (size : ℕ) (compute : Except ε V) (k : K) (l : List (K × V)) :
    List (K × V) × Except ε V :=
  match l.lookup k with
  | some v => (use k v l, .ok v)
  | none =>
      match compute with
      | .error e => (l, .error e)
      | .ok v => ((use k v l).take size, .ok v)

/-- Requests, one after the other, with their answers. -/
def requests {Q ε : Type*} (size : ℕ) (compute : Q → Except ε V) (key : Q → K) (l : List (K × V)) :
    List Q → List (K × V) × List (Except ε V)
  | [] => (l, [])
  | q :: qs =>
      let first := request size (compute q) (key q) l
      let rest := requests size compute key first.1 qs
      (rest.1, first.2 :: rest.2)

/-- The keys of the requests that got a value, with that value. -/
def answered {Q ε : Type*} (key : Q → K) (qs : List Q) (answers : List (Except ε V)) : List (K × V) :=
  (qs.zip answers).filterMap fun p => p.2.toOption.map fun v => (key p.1, v)

omit [DecidableEq K] in
@[simp] lemma answered_cons_ok {Q ε : Type*} (key : Q → K) (q : Q) (qs : List Q) (v : V)
    (answers : List (Except ε V)) :
    answered key (q :: qs) (.ok v :: answers) = (key q, v) :: answered key qs answers := rfl

omit [DecidableEq K] in
@[simp] lemma answered_cons_error {Q ε : Type*} (key : Q → K) (q : Q) (qs : List Q) (e : ε)
    (answers : List (Except ε V)) :
    answered key (q :: qs) (.error e :: answers) = answered key qs answers := rfl

lemma mem_keys_of_lookup {k : K} {v : V} {l : List (K × V)} (h : l.lookup k = some v) :
    k ∈ l.map Prod.fst := by
  induction l with
  | nil => simp at h
  | cons p l ih =>
    rw [List.lookup_cons] at h
    by_cases hk : k = p.1
    · exact hk ▸ List.mem_cons_self
    · have hne : (k == p.1) = false := by simpa using hk
      rw [hne] at h
      exact List.mem_cons_of_mem _ (ih h)

/-- Using a key that is held keeps the length. -/
lemma take_use_of_mem {size : ℕ} {k : K} {v : V} {l : List (K × V)} (hlength : l.length ≤ size)
    (hk : k ∈ l.map Prod.fst) : (use k v l).take size = use k v l := by
  refine List.take_of_length_le ?_
  obtain ⟨p, hp, rfl⟩ := List.mem_map.mp hk
  have hlt : (forget p.1 l).length < l.length :=
    List.length_filter_lt_length_iff_exists.mpr ⟨p, hp, by simp⟩
  rw [use, List.length_cons]
  omega

/-- One request either fails and changes nothing, or uses its key. -/
lemma request_cases {ε : Type*} {size : ℕ} {l : List (K × V)} (hlength : l.length ≤ size)
    (compute : Except ε V) (k : K) :
    (∃ e, request size compute k l = (l, .error e)) ∨
      ∃ v, request size compute k l = ((use k v l).take size, .ok v) := by
  unfold request
  split
  · next v hv => exact Or.inr ⟨v, by rw [take_use_of_mem hlength (mem_keys_of_lookup hv)]⟩
  · rcases compute with e | v
    · exact Or.inl ⟨e, rfl⟩
    · exact Or.inr ⟨v, rfl⟩

/-- What a run of requests leaves in the list are the uses of the keys that were answered. -/
theorem requests_fst {Q ε : Type*} {size : ℕ} (compute : Q → Except ε V) (key : Q → K) (qs : List Q)
    {l : List (K × V)} (hlength : l.length ≤ size) :
    (requests size compute key l qs).1 =
      uses size l (answered key qs (requests size compute key l qs).2) := by
  induction qs generalizing l with
  | nil => rfl
  | cons q qs ih =>
    simp only [requests]
    rcases request_cases hlength (compute q) (key q) with ⟨e, he⟩ | ⟨v, hv⟩
    · rw [he, answered_cons_error]
      exact ih hlength
    · rw [hv, answered_cons_ok]
      exact ih (List.length_take_le size _)

/-! ## The hash map -/

variable {E : Type*} {stamp : E → ℕ} {m : HashMap K E} {clock : ℕ} {es : List (K × E)}

/-- The list holds the entries of the map, the one with the latest stamp first; no stamp is in the
future. -/
structure RecencyOrder (stamp : E → ℕ) (m : HashMap K E) (clock : ℕ) (es : List (K × E)) : Prop where
  mem_iff : ∀ k e, (k, e) ∈ es ↔ m.lookup k = some e
  sorted : es.Pairwise fun p q => stamp q.2 < stamp p.2
  bounded : ∀ p ∈ es, stamp p.2 ≤ clock

namespace RecencyOrder

lemma empty (clock : ℕ) : RecencyOrder stamp (∅ : HashMap K E) clock [] :=
  ⟨by simp, .nil, by simp⟩

lemma mono (h : RecencyOrder stamp m clock es) {clock' : ℕ} (hle : clock ≤ clock') :
    RecencyOrder stamp m clock' es :=
  ⟨h.mem_iff, h.sorted, fun p hp => (h.bounded p hp).trans hle⟩

lemma nodup (h : RecencyOrder stamp m clock es) : (es.map Prod.fst).Nodup := by
  refine List.pairwise_map.mpr (h.sorted.imp_of_mem fun {p q} hp hq hlt heq => ?_)
  have hp' : m.lookup p.1 = some p.2 := (h.mem_iff p.1 p.2).mp hp
  have hq' : m.lookup q.1 = some q.2 := (h.mem_iff q.1 q.2).mp hq
  rw [← heq, hp'] at hq'
  rw [Option.some.inj hq'] at hlt
  exact lt_irrefl _ hlt

lemma mem_keys_iff (h : RecencyOrder stamp m clock es) (k : K) : k ∈ es.map Prod.fst ↔ k ∈ m := by
  rw [HashMap.mem_iff_exists, List.mem_map]
  constructor
  · rintro ⟨p, hp, rfl⟩
    exact ⟨p.2, (h.mem_iff p.1 p.2).mp hp⟩
  · rintro ⟨e, he⟩
    exact ⟨(k, e), (h.mem_iff k e).mpr he, rfl⟩

lemma length_eq (h : RecencyOrder stamp m clock es) : es.length = m.entries.length := by
  have hperm : (es.map Prod.fst).Perm m.keys :=
    (List.perm_ext_iff_of_nodup h.nodup (AList.keys_nodup m)).mpr h.mem_keys_iff
  have hlength := hperm.length_eq
  have hkeys : m.keys.length = m.entries.length := List.length_map _
  rw [List.length_map, hkeys] at hlength
  exact hlength

/-- An entry is used now. -/
lemma insert (h : RecencyOrder stamp m clock es) {e : E} (hlt : clock < stamp e) (k : K) :
    RecencyOrder stamp (m.insert k e) (stamp e) (use k e es) := by
  refine ⟨fun k' e' => ?_, List.pairwise_cons.mpr ⟨fun p hp => ?_, h.sorted.filter _⟩, fun p hp => ?_⟩
  · rw [HashMap.lookup_insert_ite, use, List.mem_cons, mem_forget, Prod.mk.injEq]
    by_cases hk : k' = k
    · simp [hk, eq_comm]
    · simp [hk, h.mem_iff]
  · exact (h.bounded p (mem_forget.mp hp).1).trans_lt hlt
  · rcases List.mem_cons.mp hp with rfl | hp
    · exact le_rfl
    · exact (h.bounded p (mem_forget.mp hp).1).trans hlt.le

/-- An entry is removed. -/
lemma erase (h : RecencyOrder stamp m clock es) (k : K) :
    RecencyOrder stamp (m.erase k) clock (forget k es) := by
  refine ⟨fun k' e' => ?_, h.sorted.filter _, fun p hp => h.bounded p (mem_forget.mp hp).1⟩
  rw [HashMap.lookup_erase_ite, mem_forget, h.mem_iff]
  by_cases hk : k' = k <;> simp [hk]

/-- The entry with the earliest stamp is the last one. -/
lemma eraseOldest (h : RecencyOrder stamp m clock es) {k : K} {e : E} (hk : m.lookup k = some e)
    (hle : ∀ k' e', m.lookup k' = some e' → stamp e ≤ stamp e') :
    RecencyOrder stamp (m.erase k) clock es.dropLast := by
  have hmem : (k, e) ∈ es := (h.mem_iff k e).mpr hk
  have hne : es ≠ [] := List.ne_nil_of_mem hmem
  obtain ⟨init, last, rfl⟩ : ∃ init last, es = init ++ [last] :=
    ⟨es.dropLast, es.getLast hne, (List.dropLast_append_getLast hne).symm⟩
  obtain ⟨-, -, hlast⟩ := List.pairwise_append.mp h.sorted
  have hinit : (k, e) ∉ init := by
    intro hin
    have hlt : stamp last.2 < stamp e := hlast (k, e) hin last (List.mem_singleton_self last)
    have hlookup := (h.mem_iff last.1 last.2).mp (List.mem_append_right _ (List.mem_singleton_self last))
    exact absurd (hle _ _ hlookup) (Nat.not_le.mpr hlt)
  obtain rfl : last = (k, e) := by
    rcases List.mem_append.mp hmem with hin | hin
    · exact absurd hin hinit
    · exact (List.mem_singleton.mp hin).symm
  have hkeys : k ∉ init.map Prod.fst := by
    have hnodup := h.nodup
    rw [List.map_append, List.nodup_append'] at hnodup
    exact fun hin => hnodup.2.2 hin (List.mem_singleton_self k)
  have hforget : forget k (init ++ [(k, e)]) = init := by
    have hsplit : forget k (init ++ [(k, e)]) = forget k init ++ forget k [(k, e)] := List.filter_append ..
    have hlone : forget k [(k, e)] = [] := by simp [forget]
    rw [hsplit, hlone, forget_eq_self hkeys, List.append_nil]
  have herase := h.erase k
  rw [hforget] at herase
  rwa [List.dropLast_concat]

/-- Cutting a list to a size that it exceeds by one entry. -/
lemma take_use_of_notMem {size : ℕ} {k : K} {v : V} {l : List (K × V)} (hsize : 0 < size)
    (hlength : l.length ≤ size) (hk : k ∉ l.map Prod.fst) :
    (use k v l).take size = use k v (if size ≤ l.length then l.dropLast else l) := by
  obtain ⟨n, rfl⟩ := Nat.exists_eq_succ_of_ne_zero hsize.ne'
  have huse : use k v l = (k, v) :: l := congrArg _ (forget_eq_self hk)
  rw [huse, List.take_succ_cons]
  split
  · next hfull =>
    have heq : l.length = n + 1 := le_antisymm hlength hfull
    have hdrop : k ∉ l.dropLast.map Prod.fst := fun hin =>
      hk ((List.map_subset _ (List.dropLast_subset l)) hin)
    rw [use, forget_eq_self hdrop, List.dropLast_eq_take, heq]
    rfl
  · next hroom =>
    have hle : l.length ≤ n := by omega
    rw [use, forget_eq_self hk, List.take_of_length_le hle]

/-- The list finds what the map finds. -/
lemma lookup_eq (h : RecencyOrder stamp m clock es) (k : K) : es.lookup k = m.lookup k := by
  rcases hfind : es.lookup k with _ | e
  · rcases hm : m.lookup k with _ | e
    · rfl
    · have hmem : (k, e) ∈ es := (h.mem_iff k e).mpr hm
      rw [List.lookup_eq_none_iff] at hfind
      simpa using hfind _ hmem
  · obtain ⟨l₁, l₂, rfl, -⟩ := List.lookup_eq_some_iff.mp hfind
    exact ((h.mem_iff k e).mp (by simp)).symm

end RecencyOrder

/-- An entry with the earliest stamp. -/
def oldest (stamp : E → ℕ) : List (Sigma fun _ : K => E) → Option (Sigma fun _ : K => E)
  | [] => none
  | e :: es =>
      match oldest stamp es with
      | none => some e
      | some e' => if stamp e'.2 < stamp e.2 then some e' else some e

omit [DecidableEq K] in
lemma oldest_spec (stamp : E → ℕ) {l : List (Sigma fun _ : K => E)} (hl : l ≠ []) :
    ∃ e, oldest stamp l = some e ∧ e ∈ l ∧ ∀ e' ∈ l, stamp e.2 ≤ stamp e'.2 := by
  induction l with
  | nil => exact absurd rfl hl
  | cons e l ih =>
    rcases eq_or_ne l [] with rfl | hne
    · exact ⟨e, rfl, List.mem_singleton_self e, fun e' he' => by rw [List.mem_singleton.mp he']⟩
    · obtain ⟨e₁, hold, hmem, hle⟩ := ih hne
      rw [oldest, hold]
      by_cases hlt : stamp e₁.2 < stamp e.2
      · refine ⟨e₁, if_pos hlt, List.mem_cons_of_mem e hmem, fun e' he' => ?_⟩
        rcases List.mem_cons.mp he' with rfl | he'
        exacts [hlt.le, hle e' he']
      · refine ⟨e, if_neg hlt, List.mem_cons_self, fun e' he' => ?_⟩
        rcases List.mem_cons.mp he' with rfl | he'
        exacts [le_rfl, (Nat.le_of_not_lt hlt).trans (hle e' he')]

/-- What is left of a map after the eviction of an oldest entry. -/
def evict (stamp : E → ℕ) (m : HashMap K E) : HashMap K E :=
  match oldest stamp m.entries with
  | none => m
  | some e => m.erase e.1

/-- Evicting an oldest entry drops the end of the list. -/
lemma RecencyOrder.evict (h : RecencyOrder stamp m clock es) :
    RecencyOrder stamp (Recency.evict stamp m) clock es.dropLast := by
  rcases eq_or_ne m.entries [] with hnil | hne
  · have hes : es = [] := List.length_eq_zero_iff.mp (h.length_eq.trans (by rw [hnil]; rfl))
    subst hes
    rw [Recency.evict, hnil]
    exact h
  · obtain ⟨e, hold, hmem, hle⟩ := oldest_spec stamp hne
    rw [Recency.evict, hold]
    refine h.eraseOldest (AList.mem_lookup_iff.mpr hmem) fun k' e' he' => ?_
    exact hle ⟨k', e'⟩ (AList.mem_lookup_iff.mp he')

/-! ## A bounded map -/

variable {value : E → V} {size : ℕ} {l : List (K × V)}

/-- The map holds the values of the list, the one used last first, and not more of them than `size`. -/
structure Held (stamp : E → ℕ) (value : E → V) (m : HashMap K E) (clock size : ℕ) (l : List (K × V)) :
    Prop where
  order : ∃ es, RecencyOrder stamp m clock es ∧ es.map (Prod.map id value) = l
  length_le : l.length ≤ size

namespace Held

lemma empty (clock size : ℕ) : Held stamp value (∅ : HashMap K E) clock size [] :=
  ⟨⟨[], .empty clock, rfl⟩, Nat.zero_le size⟩

lemma lookup (h : Held stamp value m clock size l) (k : K) : l.lookup k = (m.lookup k).map value := by
  obtain ⟨es, horder, rfl⟩ := h.order
  rw [lookup_map, horder.lookup_eq]

lemma mono (h : Held stamp value m clock size l) {clock' : ℕ} (hle : clock ≤ clock') :
    Held stamp value m clock' size l := by
  obtain ⟨es, horder, hes⟩ := h.order
  exact ⟨⟨es, horder.mono hle, hes⟩, h.length_le⟩

lemma keys (h : Held stamp value m clock size l) :
    ∃ es, RecencyOrder stamp m clock es ∧ es.map Prod.fst = l.map Prod.fst := by
  obtain ⟨es, horder, rfl⟩ := h.order
  exact ⟨es, horder, by rw [List.map_map]; rfl⟩

/-- A value that is held is used. -/
lemma use (h : Held stamp value m clock size l) {k : K} {e : E} (hk : m.lookup k = some e) {e' : E}
    (hlt : clock < stamp e') (hvalue : value e' = value e) :
    Held stamp value (m.insert k e') (stamp e') size (Recency.use k (value e) l) := by
  have hmem : k ∈ l.map Prod.fst := mem_keys_of_lookup ((h.lookup k).trans (congrArg _ hk))
  have hlength : (Recency.use k (value e) l).length ≤ size := by
    rw [← take_use_of_mem h.length_le hmem]
    exact List.length_take_le size _
  obtain ⟨es, horder, rfl⟩ := h.order
  refine ⟨⟨_, horder.insert hlt k, ?_⟩, hlength⟩
  rw [map_use, hvalue]

/-- A new value is stored, after an eviction when the map is full. -/
lemma store (h : Held stamp value m clock size l) (hsize : 0 < size) {k : K} (hk : k ∉ m) {e : E}
    (hlt : clock < stamp e) :
    Held stamp value ((if size ≤ m.entries.length then evict stamp m else m).insert k e) (stamp e) size
      ((Recency.use k (value e) l).take size) := by
  obtain ⟨es, horder, rfl⟩ := h.order
  have hlength : es.length ≤ size := by simpa using h.length_le
  have hkeys : k ∉ es.map Prod.fst := fun hin => hk ((horder.mem_keys_iff k).mp hin)
  refine ⟨⟨(Recency.use k e es).take size, ?_, by rw [List.map_take, map_use]⟩, List.length_take_le size _⟩
  rw [RecencyOrder.take_use_of_notMem hsize hlength hkeys, horder.length_eq]
  split
  · exact horder.evict.insert hlt k
  · exact horder.insert hlt k

/-- A map without room stays empty. -/
lemma noRoom (h : Held stamp value m clock 0 l) (k : K) (v : V) :
    Held stamp value m clock 0 ((Recency.use k v l).take 0) := by
  obtain rfl : l = [] := List.length_eq_zero_iff.mp (Nat.le_zero.mp h.length_le)
  exact h

/-- A value is dropped. -/
lemma erase (h : Held stamp value m clock size l) (k : K) :
    Held stamp value (m.erase k) clock size (forget k l) := by
  have hlength : (forget k l).length ≤ size := (List.length_filter_le _ l).trans h.length_le
  obtain ⟨es, horder, rfl⟩ := h.order
  exact ⟨⟨_, horder.erase k, map_forget ..⟩, hlength⟩

end Held

end Recency
