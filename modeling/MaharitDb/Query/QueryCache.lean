import MaharitDb.Lib.Recency
import MaharitDb.Query.AstCache

/-!
# What the caches of the query layer hold

`QueryCache`, `PlanCache` and `AstCache` of `maharit-query/src/cache.rs` evict the least recently used
entry.  Each of them is a list of its entries, the last used one first and cut to the capacity.  So the
cached queries are those that were asked for last, whatever was evicted in between.  The clock is a
64-bit counter; the runs have fewer than `2 ^ 64` calls.
-/

namespace Maharit

open Recency

lemma UInt64.toNat_succ_of_lt {n : UInt64} (h : n.toNat + 1 < 2 ^ 64) : (n + 1).toNat = n.toNat + 1 := by
  rw [UInt64.toNat_add]
  exact Nat.mod_eq_of_lt h

/-! ## The cache of parsed statements -/

namespace AstCache

variable {ε : Type} {c : AstCache} {count : ℕ}
  {l : List (String × Statement)}

def stamp (e : AstCacheEntry) : ℕ := e.lastAccessed.toNat

/-- Queries, one after the other, with their answers. -/
def requests (parse : String → Except ε Statement) (c : AstCache) :
    List String → AstCache × List (Except ε Statement)
  | [] => (c, [])
  | query :: queries =>
      let first := c.getOrParse parse query
      let rest := requests parse first.1 queries
      (rest.1, first.2 :: rest.2)

/-- After `count` calls the cache holds the statements of `l`, the last used one first. -/
structure Holds (c : AstCache) (count : ℕ) (l : List (String × Statement)) : Prop where
  held : Held stamp AstCacheEntry.statement c.cache c.clock.toNat c.maxSize l
  clock_le : c.clock.toNat ≤ count
  counted : c.totalHits.toNat + c.totalMisses.toNat = count
  parsed : c.parseCount = c.totalMisses

lemma holds_new (maxSize : ℕ) : (new maxSize).Holds 0 [] :=
  ⟨.empty 0 maxSize, le_rfl, rfl, rfl⟩

lemma leastRecent_eq (l : List (Sigma fun _ : String => AstCacheEntry)) :
    leastRecent l = oldest stamp l := by
  induction l with
  | nil => rfl
  | cons e l ih =>
    rw [leastRecent, oldest, ih]
    rcases oldest stamp l with _ | e'
    · rfl
    · simp only [UInt64.lt_iff_toNat_lt]
      rfl

lemma evictLru_cache (c : AstCache) : c.evictLru.cache = evict stamp c.cache := by
  unfold evictLru evict
  rw [leastRecent_eq]
  rcases oldest stamp c.cache.entries with _ | e <;> rfl

lemma evictLru_rest (c : AstCache) : c.evictLru = { c with cache := c.evictLru.cache } := by
  unfold evictLru
  rcases leastRecent c.cache.entries with _ | e <;> rfl

/-- A query whose statement is held. -/
lemma Holds.touch (h : c.Holds count l) (hcount : count + 1 < 2 ^ 64) {key : String} {entry : AstCacheEntry}
    (hentry : c.cache.lookup key = some entry) :
    (c.touch key entry).Holds (count + 1) (use key entry.statement l) := by
  have hclock := h.clock_le
  have hcounted := h.counted
  have hstep : (c.clock + 1).toNat = c.clock.toNat + 1 := UInt64.toNat_succ_of_lt (by omega)
  have hhits : (c.totalHits + 1).toNat = c.totalHits.toNat + 1 := UInt64.toNat_succ_of_lt (by omega)
  have hlt : c.clock.toNat < stamp { entry with lastAccessed := c.clock + 1 } := by
    change c.clock.toNat < (c.clock + 1).toNat
    omega
  refine ⟨h.held.use hentry hlt rfl, ?_, ?_, h.parsed⟩
  · change (c.clock + 1).toNat ≤ count + 1
    omega
  · change (c.totalHits + 1).toNat + c.totalMisses.toNat = count + 1
    omega

/-- A statement that was parsed. -/
lemma Holds.store (h : c.Holds count l) (hcount : count < 2 ^ 64) (hclock : c.clock.toNat + 1 ≤ count)
    {key : String} (hkey : key ∉ c.cache) (statement : Statement) :
    (c.store key statement).Holds count ((use key statement l).take c.maxSize) ∧
      (c.store key statement).maxSize = c.maxSize := by
  unfold AstCache.store
  by_cases hsize : c.maxSize > 0
  · have hstep : (c.clock + 1).toNat = c.clock.toNat + 1 := UInt64.toNat_succ_of_lt (by omega)
    have hlt : c.clock.toNat < stamp ⟨statement, c.clock + 1⟩ := by
      change c.clock.toNat < (c.clock + 1).toNat
      omega
    have hstored := h.held.store hsize hkey hlt
    have hle : (c.clock + 1).toNat ≤ count := by omega
    have hevict := c.evictLru_rest
    have hcache := c.evictLru_cache
    rw [if_pos hsize]
    split
    · next hfull =>
      rw [if_pos hfull] at hstored
      rw [hevict, hcache]
      exact ⟨⟨hstored, hle, h.counted, h.parsed⟩, rfl⟩
    · next hroom =>
      rw [if_neg hroom] at hstored
      exact ⟨⟨hstored, hle, h.counted, h.parsed⟩, rfl⟩
  · have hzero : c.maxSize = 0 := by omega
    have hheld := h.held
    rw [hzero] at hheld
    rw [if_neg hsize]
    refine ⟨⟨?_, h.clock_le, h.counted, h.parsed⟩, rfl⟩
    rw [hzero]
    exact hheld.noRoom key statement

/-- One call is one request to the list. -/
lemma Holds.getOrParse (parse : String → Except ε Statement) (h : c.Holds count l)
    (hcount : count + 1 < 2 ^ 64) (query : String) :
    (c.getOrParse parse query).1.Holds (count + 1)
        (request c.maxSize (parse query) (normalizeQuery query) l).1 ∧
      (c.getOrParse parse query).1.maxSize = c.maxSize ∧
      (c.getOrParse parse query).2 = (request c.maxSize (parse query) (normalizeQuery query) l).2 := by
  have hlookup := h.held.lookup (normalizeQuery query)
  rcases hentry : c.cache.lookup (normalizeQuery query) with _ | entry
  · have hkey : normalizeQuery query ∉ c.cache := AList.lookup_eq_none.mp hentry
    have hclock := h.clock_le
    have hcounted := h.counted
    have hmisses : (c.totalMisses + 1).toNat = c.totalMisses.toNat + 1 :=
      UInt64.toNat_succ_of_lt (by omega)
    have hmissed : ({ c with totalMisses := c.totalMisses + 1, parseCount := c.parseCount + 1 } : AstCache).Holds
        (count + 1) l := by
      refine ⟨h.held, hclock.trans (Nat.le_succ _), ?_, congrArg (· + 1) h.parsed⟩
      change c.totalHits.toNat + (c.totalMisses + 1).toNat = count + 1
      omega
    rcases hparse : parse query with e | statement
    · simp only [AstCache.getOrParse, request, hlookup, hentry, hparse, Option.map_none]
      exact ⟨hmissed, trivial, trivial⟩
    · obtain ⟨hheld, hsize⟩ := hmissed.store hcount (Nat.succ_le_succ hclock) hkey statement
      simp only [AstCache.getOrParse, request, hlookup, hentry, hparse, Option.map_none]
      exact ⟨hheld, hsize, trivial⟩
  · simp only [AstCache.getOrParse, request, hlookup, hentry, Option.map_some]
    exact ⟨h.touch hcount hentry, rfl, trivial⟩

/-- A run of calls is a run of requests to the list. -/
lemma Holds.requests (parse : String → Except ε Statement) (queries : List String) (h : c.Holds count l)
    (hcount : count + queries.length < 2 ^ 64) :
    (c.requests parse queries).1.Holds (count + queries.length)
        (Recency.requests c.maxSize parse normalizeQuery l queries).1 ∧
      (c.requests parse queries).2 = (Recency.requests c.maxSize parse normalizeQuery l queries).2 := by
  induction queries generalizing c count l with
  | nil => exact ⟨h, rfl⟩
  | cons query queries ih =>
    have hlength : (query :: queries).length = queries.length + 1 := rfl
    obtain ⟨hheld, hsize, hanswer⟩ := h.getOrParse parse (by omega) query
    obtain ⟨hrest, hanswers⟩ := ih hheld (by omega)
    rw [hsize] at hrest hanswers
    refine ⟨?_, ?_⟩
    · have hsum : count + (query :: queries).length = count + 1 + queries.length := by omega
      rw [hsum]
      exact hrest
    · change _ :: _ = _ :: _
      rw [hanswer, hanswers]

/-- **The cache holds the queries used last.**  After any run of queries, its keys, from the last used
one on, are the keys of the queries that were answered, each at its last use, up to the capacity; and
every query counts as a hit or as a miss, the misses being what was parsed. -/
theorem requests_most_recent (parse : String → Except ε Statement) (maxSize : ℕ) (queries : List String)
    (hcount : queries.length < 2 ^ 64) :
    ∃ es, RecencyOrder stamp ((new maxSize).requests parse queries).1.cache
        ((new maxSize).requests parse queries).1.clock.toNat es ∧
      es.map Prod.fst = ((answered normalizeQuery queries ((new maxSize).requests parse queries).2).map
        Prod.fst).dedup.reverse.take maxSize ∧
      ((new maxSize).requests parse queries).1.totalHits.toNat +
        ((new maxSize).requests parse queries).1.totalMisses.toNat = queries.length ∧
      ((new maxSize).requests parse queries).1.parseCount =
        ((new maxSize).requests parse queries).1.totalMisses := by
  obtain ⟨hheld, hanswers⟩ := (holds_new maxSize).requests parse queries (by omega)
  obtain ⟨es, horder, hes⟩ := hheld.held.keys
  refine ⟨es, horder, ?_, ?_, hheld.parsed⟩
  · rw [hes, requests_fst parse normalizeQuery queries (Nat.zero_le _), keys_uses, hanswers]
    rfl
  · rw [hheld.counted, Nat.zero_add]

/-- A cache of two queries: `a` was used again, so `b` had to go; `?` does not parse. -/
theorem requests_most_recent_three :
    ∃ es, RecencyOrder stamp ((new 2).requests
        (fun q => if q = "?" then .error () else .ok .showUsers) ["a", "b", " a ", "?", "c"]).1.cache
      ((new 2).requests (fun q => if q = "?" then .error () else .ok .showUsers)
        ["a", "b", " a ", "?", "c"]).1.clock.toNat es ∧
      es.map Prod.fst = ["c", "a"] := by
  obtain ⟨es, horder, hkeys, -⟩ := requests_most_recent
    (fun q => if q = "?" then .error () else .ok .showUsers) 2 ["a", "b", " a ", "?", "c"] (by decide)
  refine ⟨es, horder, hkeys.trans ?_⟩
  decide

end AstCache

/-! ## The cache with invalidation -/

structure CacheEntry where
  statement : Statement
  hitCount : UInt64
  lastAccessed : UInt64

/-- The parsed statements, by the key of their query. -/
structure QueryCache where
  entries : HashMap String CacheEntry
  capacity : ℕ
  clock : UInt64
  totalHits : UInt64
  totalMisses : UInt64

/-- A call that changes the cache. -/
inductive CacheCall where
  | getOrParse (query : String)
  | invalidate (query : String)
  | clear

namespace QueryCache

def stamp (e : CacheEntry) : ℕ := e.lastAccessed.toNat

/-- No entries. -/
def new (capacity : ℕ) : QueryCache := ⟨∅, capacity, 0, 0, 0⟩

/-- `evict_lru`. -/
def evictLru (c : QueryCache) : QueryCache := { c with entries := evict stamp c.entries }

/-- The cache after a statement was parsed. -/
def store (c : QueryCache) (key : String) (statement : Statement) : QueryCache :=
  if c.capacity > 0 then
    let c := if c.entries.entries.length ≥ c.capacity then c.evictLru else c
    let clock := c.clock + 1
    { c with clock := clock, entries := c.entries.insert key ⟨statement, 0, clock⟩ }
  else c

/-- `get_or_parse`. -/
def getOrParse {ε : Type} (parse : String → Except ε Statement) (c : QueryCache) (query : String) :
    QueryCache × Except ε Statement :=
  let key := normalizeQuery query
  match c.entries.lookup key with
  | some entry =>
      let clock := c.clock + 1
      ({ c with clock := clock, totalHits := c.totalHits + 1,
                entries := c.entries.insert key
                  { entry with lastAccessed := clock, hitCount := entry.hitCount + 1 } },
        .ok entry.statement)
  | none =>
      let c := { c with totalMisses := c.totalMisses + 1 }
      match parse query with
      | .error e => (c, .error e)
      | .ok statement => (c.store key statement, .ok statement)

def invalidate (c : QueryCache) (query : String) : QueryCache :=
  { c with entries := c.entries.erase (normalizeQuery query) }

/-- `clear`.  The capacity stays. -/
def clear (c : QueryCache) : QueryCache :=
  { c with entries := ∅, totalHits := 0, totalMisses := 0, clock := 0 }

variable {ε : Type} {c : QueryCache} {count : ℕ}
  {l : List (String × Statement)}

/-- A call with its answer, if it has one. -/
def call (parse : String → Except ε Statement) (c : QueryCache) :
    CacheCall → QueryCache × Option (Except ε Statement)
  | .getOrParse query => ((c.getOrParse parse query).1, some (c.getOrParse parse query).2)
  | .invalidate query => (c.invalidate query, none)
  | .clear => (c.clear, none)

/-- What a call means for the list of the cached statements, the last used one first. -/
def listCall (parse : String → Except ε Statement) (capacity : ℕ) (l : List (String × Statement)) :
    CacheCall → List (String × Statement) × Option (Except ε Statement)
  | .getOrParse query =>
      let asked := request capacity (parse query) (normalizeQuery query) l
      (asked.1, some asked.2)
  | .invalidate query => (forget (normalizeQuery query) l, none)
  | .clear => ([], none)

/-- Calls, one after the other, with their answers. -/
def calls {S : Type} (step : S → CacheCall → S × Option (Except ε Statement)) (s : S) :
    List CacheCall → S × List (Except ε Statement)
  | [] => (s, [])
  | first :: rest =>
      let result := step s first
      let results := calls step result.1 rest
      (results.1, result.2.toList ++ results.2)

/-- After at most `count` calls the cache holds the statements of `l`, the last used one first. -/
structure Holds (c : QueryCache) (count : ℕ) (l : List (String × Statement)) : Prop where
  held : Held stamp CacheEntry.statement c.entries c.clock.toNat c.capacity l
  clock_le : c.clock.toNat ≤ count

lemma holds_new (capacity : ℕ) : (new capacity).Holds 0 [] := ⟨.empty 0 capacity, le_rfl⟩

/-- A statement that was parsed. -/
lemma Holds.store (h : c.Holds count l) (hcount : count + 1 < 2 ^ 64) {key : String} (hkey : key ∉ c.entries)
    (statement : Statement) :
    (c.store key statement).Holds (count + 1) ((use key statement l).take c.capacity) ∧
      (c.store key statement).capacity = c.capacity := by
  have hclock := h.clock_le
  unfold QueryCache.store
  by_cases hsize : c.capacity > 0
  · have hstep : (c.clock + 1).toNat = c.clock.toNat + 1 := UInt64.toNat_succ_of_lt (by omega)
    have hlt : c.clock.toNat < stamp ⟨statement, 0, c.clock + 1⟩ := by
      change c.clock.toNat < (c.clock + 1).toNat
      omega
    have hstored := h.held.store hsize hkey hlt
    have hle : (c.clock + 1).toNat ≤ count + 1 := by omega
    rw [if_pos hsize]
    split
    · next hfull =>
      rw [if_pos hfull] at hstored
      exact ⟨⟨hstored, hle⟩, rfl⟩
    · next hroom =>
      rw [if_neg hroom] at hstored
      exact ⟨⟨hstored, hle⟩, rfl⟩
  · have hzero : c.capacity = 0 := by omega
    have hheld := h.held
    rw [hzero] at hheld
    rw [if_neg hsize]
    refine ⟨⟨?_, hclock.trans (Nat.le_succ _)⟩, rfl⟩
    rw [hzero]
    exact hheld.noRoom key statement

/-- One call is one call of the list. -/
lemma Holds.call (parse : String → Except ε Statement) (h : c.Holds count l)
    (hcount : count + 1 < 2 ^ 64) (a : CacheCall) :
    (c.call parse a).1.Holds (count + 1) (listCall parse c.capacity l a).1 ∧
      (c.call parse a).1.capacity = c.capacity ∧
      (c.call parse a).2 = (listCall parse c.capacity l a).2 := by
  have hclock := h.clock_le
  rcases a with query | query | _
  · have hlookup := h.held.lookup (normalizeQuery query)
    rcases hentry : c.entries.lookup (normalizeQuery query) with _ | entry
    · have hkey : normalizeQuery query ∉ c.entries := AList.lookup_eq_none.mp hentry
      have hmissed : ({ c with totalMisses := c.totalMisses + 1 } : QueryCache).Holds count l :=
        ⟨h.held, hclock⟩
      rcases hparse : parse query with e | statement
      · simp only [QueryCache.call, listCall, QueryCache.getOrParse, request, hlookup, hentry, hparse,
          Option.map_none]
        exact ⟨⟨h.held, hclock.trans (Nat.le_succ _)⟩, trivial, trivial⟩
      · obtain ⟨hheld, hsize⟩ := hmissed.store hcount hkey statement
        simp only [QueryCache.call, listCall, QueryCache.getOrParse, request, hlookup, hentry, hparse,
          Option.map_none]
        exact ⟨hheld, hsize, trivial⟩
    · have hstep : (c.clock + 1).toNat = c.clock.toNat + 1 := UInt64.toNat_succ_of_lt (by omega)
      have hlt : c.clock.toNat <
          stamp { entry with lastAccessed := c.clock + 1, hitCount := entry.hitCount + 1 } := by
        change c.clock.toNat < (c.clock + 1).toNat
        omega
      have hused := h.held.use hentry hlt rfl
      simp only [QueryCache.call, listCall, QueryCache.getOrParse, request, hlookup, hentry, Option.map_some]
      refine ⟨⟨hused, ?_⟩, trivial, trivial⟩
      change (c.clock + 1).toNat ≤ count + 1
      omega
  · exact ⟨⟨h.held.erase _, hclock.trans (Nat.le_succ _)⟩, rfl, rfl⟩
  · exact ⟨⟨.empty 0 c.capacity, Nat.zero_le _⟩, rfl, rfl⟩

lemma Holds.calls (parse : String → Except ε Statement) (h : c.Holds count l) (as : List CacheCall)
    (hcount : count + as.length < 2 ^ 64) :
    (calls (QueryCache.call parse) c as).1.Holds (count + as.length)
        (calls (listCall parse c.capacity) l as).1 ∧
      (calls (QueryCache.call parse) c as).2 = (calls (listCall parse c.capacity) l as).2 := by
  induction as generalizing c count l with
  | nil => exact ⟨h, rfl⟩
  | cons a as ih =>
    have hlength : (a :: as).length = as.length + 1 := rfl
    obtain ⟨hheld, hsize, hanswer⟩ := h.call parse (by omega) a
    obtain ⟨hrest, hanswers⟩ := ih hheld (by omega)
    rw [hsize] at hrest hanswers
    refine ⟨?_, ?_⟩
    · have hsum : count + (a :: as).length = count + 1 + as.length := by omega
      rw [hsum]
      exact hrest
    · change Option.toList _ ++ _ = Option.toList _ ++ _
      rw [hanswer, hanswers]

/-- **The cache is a list of bounded length.**  Every run of calls, invalidations and clearings among
them, gives the answers that the list gives, and leaves in the cache what is in the list, in the order
of the last uses. -/
theorem calls_refine_list (parse : String → Except ε Statement) (capacity : ℕ) (as : List CacheCall)
    (hcount : as.length < 2 ^ 64) :
    (calls (QueryCache.call parse) (new capacity) as).2 = (calls (listCall parse capacity) [] as).2 ∧
      Held stamp CacheEntry.statement (calls (QueryCache.call parse) (new capacity) as).1.entries
        (calls (QueryCache.call parse) (new capacity) as).1.clock.toNat
        (calls (QueryCache.call parse) (new capacity) as).1.capacity
        (calls (listCall parse capacity) [] as).1 := by
  obtain ⟨hheld, hanswers⟩ := (holds_new capacity).calls parse as (by omega)
  exact ⟨hanswers, hheld.held⟩

/-- The second query evicts the first one, and is then dropped. -/
theorem calls_refine_list_three :
    (calls (QueryCache.call fun _ => .ok .showUsers) (new 1)
        [.getOrParse "a", .getOrParse "b", .invalidate " b"]).2 =
      ([.ok .showUsers, .ok .showUsers] : List (Except Unit Statement)) :=
  (calls_refine_list (fun _ => .ok .showUsers) 1 [.getOrParse "a", .getOrParse "b", .invalidate " b"]
    (by decide)).1.trans rfl

end QueryCache

/-! ## The cache of plans -/

/-- What the planner knows about the graph. -/
structure GraphStats where
  nodeCount : UInt64
  edgeCount : UInt64
  labelCounts : HashMap String UInt64
  indexedProperties : HashSet (String × String)

/-- A plan with the counts it was built for. -/
structure CachedPlan (Plan : Type) where
  plan : Plan
  nodeCount : UInt64
  edgeCount : UInt64

structure PlanCacheEntry (Plan : Type) extends CachedPlan Plan where
  lastAccessed : UInt64

/-- The plans, by the key of their query. -/
structure PlanCache (Plan : Type) where
  entries : HashMap String (PlanCacheEntry Plan)
  capacity : ℕ
  clock : UInt64
  totalHits : UInt64
  totalMisses : UInt64

/-- A plan is asked for. -/
structure PlanRequest where
  query : String
  statement : Statement
  stats : GraphStats

/-- The key of a request. -/
def PlanRequest.key (r : PlanRequest) : String := normalizeQuery r.query

namespace PlanCache

variable {Plan : Type}

def stamp (e : PlanCacheEntry Plan) : ℕ := e.lastAccessed.toNat

/-- No entries. -/
def new (capacity : ℕ) : PlanCache Plan := ⟨∅, capacity, 0, 0, 0⟩

/-- `evict_lru`. -/
def evictLru (c : PlanCache Plan) : PlanCache Plan := { c with entries := evict stamp c.entries }

/-- A plan is built and cached. -/
def rebuild (build : Statement → GraphStats → Plan) (c : PlanCache Plan) (r : PlanRequest) :
    PlanCache Plan × Plan :=
  let c := { c with totalMisses := c.totalMisses + 1 }
  let plan := build r.statement r.stats
  if c.capacity > 0 then
    let c := if c.entries.entries.length ≥ c.capacity then c.evictLru else c
    let clock := c.clock + 1
    ({ c with clock := clock,
              entries := c.entries.insert r.key ⟨⟨plan, r.stats.nodeCount, r.stats.edgeCount⟩, clock⟩ }, plan)
  else (c, plan)

/-- `get_or_build`.  A plan for other counts of nodes and edges is dropped. -/
def getOrBuild (build : Statement → GraphStats → Plan) (c : PlanCache Plan) (r : PlanRequest) :
    PlanCache Plan × Plan :=
  match c.entries.lookup r.key with
  | some entry =>
      if entry.nodeCount = r.stats.nodeCount ∧ entry.edgeCount = r.stats.edgeCount then
        let clock := c.clock + 1
        ({ c with clock := clock, totalHits := c.totalHits + 1,
                  entries := c.entries.insert r.key { entry with lastAccessed := clock } }, entry.plan)
      else rebuild build { c with entries := c.entries.erase r.key } r
  | none => rebuild build c r

/-- The cache after requests, one after the other. -/
def afterRequests (build : Statement → GraphStats → Plan) (c : PlanCache Plan) (rs : List PlanRequest) :
    PlanCache Plan :=
  rs.foldl (fun c r => (c.getOrBuild build r).1) c

/-- The plan was built for a request. -/
def BuiltFor (build : Statement → GraphStats → Plan) (p : CachedPlan Plan) (r : PlanRequest) : Prop :=
  p = ⟨build r.statement r.stats, r.stats.nodeCount, r.stats.edgeCount⟩

variable {build : Statement → GraphStats → Plan} {c : PlanCache Plan} {count : ℕ}
  {l : List (String × CachedPlan Plan)}

/-- After `count` requests the cache holds the plans of `l`, the last used one first. -/
structure Holds (c : PlanCache Plan) (count : ℕ) (l : List (String × CachedPlan Plan)) : Prop where
  held : Held stamp PlanCacheEntry.toCachedPlan c.entries c.clock.toNat c.capacity l
  clock_le : c.clock.toNat ≤ count
  counted : c.totalHits.toNat + c.totalMisses.toNat = count

lemma holds_new (capacity : ℕ) : (new capacity : PlanCache Plan).Holds 0 [] :=
  ⟨.empty 0 capacity, le_rfl, rfl⟩

/-- A plan that is built. -/
lemma Holds.rebuild (build : Statement → GraphStats → Plan) (h : c.Holds count l)
    (hcount : count + 1 < 2 ^ 64) (r : PlanRequest) (hkey : r.key ∉ c.entries) :
    (c.rebuild build r).1.Holds (count + 1)
        ((use r.key ⟨build r.statement r.stats, r.stats.nodeCount, r.stats.edgeCount⟩ l).take c.capacity) ∧
      (c.rebuild build r).1.capacity = c.capacity ∧ (c.rebuild build r).2 = build r.statement r.stats := by
  have hclock := h.clock_le
  have hcounted := h.counted
  have hmisses : (c.totalMisses + 1).toNat = c.totalMisses.toNat + 1 := UInt64.toNat_succ_of_lt (by omega)
  have hmissed : c.totalHits.toNat + (c.totalMisses + 1).toNat = count + 1 := by omega
  unfold PlanCache.rebuild
  by_cases hsize : c.capacity > 0
  · have hstep : (c.clock + 1).toNat = c.clock.toNat + 1 := UInt64.toNat_succ_of_lt (by omega)
    have hlt : c.clock.toNat <
        stamp ⟨⟨build r.statement r.stats, r.stats.nodeCount, r.stats.edgeCount⟩, c.clock + 1⟩ := by
      change c.clock.toNat < (c.clock + 1).toNat
      omega
    have hstored := h.held.store hsize hkey hlt
    have hle : (c.clock + 1).toNat ≤ count + 1 := by omega
    simp only [hsize, if_true]
    by_cases hfull : c.capacity ≤ c.entries.entries.length
    · rw [if_pos hfull] at hstored
      rw [if_pos hfull]
      exact ⟨⟨hstored, hle, hmissed⟩, rfl, trivial⟩
    · rw [if_neg hfull] at hstored
      rw [if_neg hfull]
      exact ⟨⟨hstored, hle, hmissed⟩, rfl, trivial⟩
  · have hzero : c.capacity = 0 := by omega
    have hheld := h.held
    rw [hzero] at hheld
    rw [if_neg hsize]
    refine ⟨⟨?_, hclock.trans (Nat.le_succ _), hmissed⟩, rfl, rfl⟩
    change Held stamp _ c.entries c.clock.toNat c.capacity _
    rw [hzero]
    exact hheld.noRoom _ _

/-- One request uses the key of its query, with a plan that was held for the same counts or is new. -/
lemma Holds.getOrBuild (build : Statement → GraphStats → Plan) (h : c.Holds count l)
    (hcount : count + 1 < 2 ^ 64) (r : PlanRequest) :
    ∃ p, (c.getOrBuild build r).1.Holds (count + 1) ((use r.key p l).take c.capacity) ∧
      (c.getOrBuild build r).1.capacity = c.capacity ∧ (c.getOrBuild build r).2 = p.plan ∧
      p.nodeCount = r.stats.nodeCount ∧ p.edgeCount = r.stats.edgeCount ∧
      ((r.key, p) ∈ l ∨ BuiltFor build p r) := by
  have hclock := h.clock_le
  have hcounted := h.counted
  unfold PlanCache.getOrBuild
  rcases hentry : c.entries.lookup r.key with _ | entry
  · obtain ⟨hheld, hsize, hplan⟩ := h.rebuild build hcount r (AList.lookup_eq_none.mp hentry)
    exact ⟨_, hheld, hsize, hplan, rfl, rfl, Or.inr rfl⟩
  · by_cases hsame : entry.nodeCount = r.stats.nodeCount ∧ entry.edgeCount = r.stats.edgeCount
    · have hstep : (c.clock + 1).toNat = c.clock.toNat + 1 := UInt64.toNat_succ_of_lt (by omega)
      have hhits : (c.totalHits + 1).toNat = c.totalHits.toNat + 1 := UInt64.toNat_succ_of_lt (by omega)
      have hlt : c.clock.toNat < stamp { entry with lastAccessed := c.clock + 1 } := by
        change c.clock.toNat < (c.clock + 1).toNat
        omega
      have hlookup : l.lookup r.key = some entry.toCachedPlan := (h.held.lookup r.key).trans (congrArg _ hentry)
      have hused := h.held.use hentry hlt rfl
      rw [← take_use_of_mem h.held.length_le (mem_keys_of_lookup hlookup)] at hused
      simp only [hsame, and_self, if_true]
      refine ⟨entry.toCachedPlan, ⟨hused, ?_, ?_⟩, trivial, rfl, hsame.1, hsame.2, Or.inl ?_⟩
      · change (c.clock + 1).toNat ≤ count + 1
        omega
      · change (c.totalHits + 1).toNat + c.totalMisses.toNat = count + 1
        omega
      · obtain ⟨l₁, l₂, rfl, -⟩ := List.lookup_eq_some_iff.mp hlookup
        simp
    · have hdropped : ({ c with entries := c.entries.erase r.key } : PlanCache Plan).Holds count (forget r.key l) :=
        ⟨h.held.erase r.key, hclock, hcounted⟩
      have hkey : r.key ∉ c.entries.erase r.key := fun hin => (AList.mem_erase.mp hin).1 rfl
      obtain ⟨hheld, hsize, hplan⟩ := hdropped.rebuild build hcount r hkey
      rw [use, forget_forget] at hheld
      simp only [if_neg hsame]
      exact ⟨_, hheld, hsize, hplan, rfl, rfl, Or.inr rfl⟩

/-- What a run of requests leaves: the keys of the requests were used, with plans that were built for them. -/
lemma holds_afterRequests (build : Statement → GraphStats → Plan) (capacity : ℕ) (rs : List PlanRequest)
    (hcount : rs.length < 2 ^ 64) :
    ∃ used, ((new capacity).afterRequests build rs).Holds rs.length (uses capacity [] used) ∧
      ((new capacity).afterRequests build rs).capacity = capacity ∧
      used.map Prod.fst = rs.map PlanRequest.key ∧
      ∀ p ∈ used, ∃ r ∈ rs, r.key = p.1 ∧ BuiltFor build p.2 r := by
  induction rs using List.reverseRecOn with
  | nil => exact ⟨[], holds_new capacity, rfl, rfl, by simp⟩
  | append_singleton rs r ih =>
    rw [List.length_append, List.length_singleton] at hcount ⊢
    obtain ⟨used, hheld, hsize, hkeys, hbuilt⟩ := ih (by omega)
    obtain ⟨p, hnext, hsize', -, -, -, hp⟩ := hheld.getOrBuild build hcount r
    have hstep : (new capacity).afterRequests build (rs ++ [r]) =
        (((new capacity).afterRequests build rs).getOrBuild build r).1 := List.foldl_append
    rw [hsize] at hnext hsize'
    refine ⟨used ++ [(r.key, p)], ?_, ?_, ?_, ?_⟩
    · rw [hstep, uses_concat]
      exact hnext
    · rw [hstep, hsize']
    · rw [List.map_append, List.map_append, hkeys]
      rfl
    · intro q hq
      rcases List.mem_append.mp hq with hq | hq
      · obtain ⟨r', hr', hkey, hfor⟩ := hbuilt q hq
        exact ⟨r', List.mem_append_left _ hr', hkey, hfor⟩
      · obtain rfl := List.mem_singleton.mp hq
        rcases hp with hp | hp
        · obtain ⟨r', hr', hkey, hfor⟩ := hbuilt _ (mem_of_mem_uses hp)
          exact ⟨r', List.mem_append_left _ hr', hkey, hfor⟩
        · exact ⟨r, List.mem_append_right _ (List.mem_singleton_self r), rfl, hp⟩

/-- **A cached plan is never stale.**  After any run of requests the cache holds plans for the queries
asked last, and the next request gets a plan that was built for a request with the same query text up to
white space and the same counts of nodes and edges. -/
theorem plan_never_stale (build : Statement → GraphStats → Plan) (capacity : ℕ) (rs : List PlanRequest)
    (r : PlanRequest) (hcount : rs.length + 1 < 2 ^ 64) :
    (∃ es, RecencyOrder stamp ((new capacity).afterRequests build rs).entries
        ((new capacity).afterRequests build rs).clock.toNat es ∧
      es.map Prod.fst = (rs.map PlanRequest.key).dedup.reverse.take capacity) ∧
    ∃ r' ∈ rs ++ [r], r'.key = r.key ∧ r'.stats.nodeCount = r.stats.nodeCount ∧
      r'.stats.edgeCount = r.stats.edgeCount ∧
      (((new capacity).afterRequests build rs).getOrBuild build r).2 = build r'.statement r'.stats := by
  obtain ⟨used, hheld, -, hkeys, hbuilt⟩ := holds_afterRequests build capacity rs (by omega)
  obtain ⟨es, horder, hes⟩ := hheld.held.keys
  obtain ⟨p, -, -, hplan, hnodes, hedges, hp⟩ := hheld.getOrBuild build hcount r
  refine ⟨⟨es, horder, by rw [hes, keys_uses, hkeys]⟩, ?_⟩
  rw [hplan]
  rcases hp with hp | rfl
  · obtain ⟨r', hr', hkey, hfor⟩ := hbuilt _ (mem_of_mem_uses hp)
    obtain rfl : p = _ := hfor
    exact ⟨r', List.mem_append_left _ hr', hkey, hnodes, hedges, rfl⟩
  · exact ⟨r, List.mem_append_right _ (List.mem_singleton_self r), rfl, rfl, rfl, rfl⟩

/-- The graph grew, so the plan is built again. -/
theorem plan_never_stale_grown :
    ∃ r' ∈ [⟨"a", .showUsers, ⟨1, 0, ∅, ∅⟩⟩] ++ [(⟨" a", .showUsers, ⟨2, 0, ∅, ∅⟩⟩ : PlanRequest)],
      r'.stats.nodeCount = 2 ∧
      (((new 1).afterRequests (fun _ s => s.nodeCount) [⟨"a", .showUsers, ⟨1, 0, ∅, ∅⟩⟩]).getOrBuild
        (fun _ s => s.nodeCount) ⟨" a", .showUsers, ⟨2, 0, ∅, ∅⟩⟩).2 = r'.stats.nodeCount := by
  obtain ⟨-, r', hr', -, hnodes, -, hplan⟩ := plan_never_stale (fun _ s => s.nodeCount) 1
    [⟨"a", .showUsers, ⟨1, 0, ∅, ∅⟩⟩] ⟨" a", .showUsers, ⟨2, 0, ∅, ∅⟩⟩ (by decide)
  exact ⟨r', hr', hnodes, hplan⟩

end PlanCache

end Maharit
