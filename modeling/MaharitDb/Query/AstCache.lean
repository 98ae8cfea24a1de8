import MaharitDb.Lib.AssocMap
import MaharitDb.Query.Ast

/-!
# The cache of parsed statements

`AstCache` of `maharit-query/src/cache.rs`.  The server parses a query through it.  An entry is found
by the query with its white space collapsed.
-/

namespace Maharit

/-- `char::is_whitespace`: the Unicode property `White_Space`. -/
def isWhitespace (c : Char) : Bool :=
  let n := c.toNat
  (9 ≤ n && n ≤ 13) || n = 0x20 || n = 0x85 || n = 0xA0 || n = 0x1680 || (0x2000 ≤ n && n ≤ 0x200A) ||
    n = 0x2028 || n = 0x2029 || n = 0x202F || n = 0x205F || n = 0x3000

/-- `split_whitespace`. -/
def splitWhitespace (cs : List Char) : List (List Char) :=
  (cs.splitOnP isWhitespace).filter fun word => !word.isEmpty

/-- `normalize_query`. -/
def normalizeQuery (query : String) : String :=
  .ofList ([' '].intercalate (splitWhitespace query.toList))

structure AstCacheEntry where
  statement : Statement
  lastAccessed : UInt64

/-- The parsed statements, by the key of their query. -/
structure AstCache where
  cache : HashMap String AstCacheEntry
  maxSize : ℕ
  clock : UInt64
  totalHits : UInt64
  totalMisses : UInt64
  parseCount : UInt64

namespace AstCache

/-- No entries. -/
def new (maxSize : ℕ) : AstCache := ⟨∅, maxSize, 0, 0, 0, 0⟩

/-- The entry that was not used for the longest time. -/
def leastRecent : List (Sigma fun _ : String => AstCacheEntry) → Option (Sigma fun _ : String => AstCacheEntry)
  | [] => none
  | e :: es =>
      match leastRecent es with
      | none => some e
      | some e' => if e'.2.lastAccessed < e.2.lastAccessed then some e' else some e

/-- `evict_lru`. -/
def evictLru (c : AstCache) : AstCache :=
  match leastRecent c.cache.entries with
  | none => c
  | some e => { c with cache := c.cache.erase e.1 }

/-- The cache after an entry was found. -/
def touch (c : AstCache) (key : String) (entry : AstCacheEntry) : AstCache :=
  let clock := c.clock + 1
  { c with clock := clock, totalHits := c.totalHits + 1,
           cache := c.cache.insert key { entry with lastAccessed := clock } }

/-- The cache after a statement was parsed. -/
def store (c : AstCache) (key : String) (statement : Statement) : AstCache :=
  if c.maxSize > 0 then
    let c := if c.cache.entries.length ≥ c.maxSize then c.evictLru else c
    let clock := c.clock + 1
    { c with clock := clock, cache := c.cache.insert key ⟨statement, clock⟩ }
  else c

/-- `get_or_parse`.  What does not parse is not cached. -/
def getOrParse {ε : Type} (parse : String → Except ε Statement) (c : AstCache) (query : String) :
    AstCache × Except ε Statement :=
  let key := normalizeQuery query
  match c.cache.lookup key with
  | some entry => (c.touch key entry, .ok entry.statement)
  | none =>
      let c := { c with totalMisses := c.totalMisses + 1, parseCount := c.parseCount + 1 }
      match parse query with
      | .error e => (c, .error e)
      | .ok statement => (c.store key statement, .ok statement)

/-- What the cache holds under a key. -/
def statement? (c : AstCache) (key : String) : Option Statement :=
  (c.cache.lookup key).map AstCacheEntry.statement

section Lookup

variable {ε : Type} {parse : String → Except ε Statement} {c : AstCache} {query : String}

/-- A query whose key is cached. -/
lemma getOrParse_of_hit {s : Statement} (h : c.statement? (normalizeQuery query) = some s) :
    (c.getOrParse parse query).2 = .ok s ∧
      ∀ key, (c.getOrParse parse query).1.statement? key = c.statement? key := by
  obtain ⟨entry, hentry, rfl⟩ := Option.map_eq_some_iff.mp h
  simp only [getOrParse, hentry]
  refine ⟨trivial, fun key => ?_⟩
  by_cases hkey : key = normalizeQuery query
  · subst hkey
    simp [statement?, touch, hentry]
  · simp [statement?, touch, hkey]

/-- A query whose key is not cached. -/
lemma getOrParse_of_miss (h : c.statement? (normalizeQuery query) = none) :
    (c.getOrParse parse query).2 = parse query ∧
      ∀ key s, (c.getOrParse parse query).1.statement? key = some s →
        c.statement? key = some s ∨ key = normalizeQuery query ∧ parse query = .ok s := by
  have hnone : c.cache.lookup (normalizeQuery query) = none := Option.map_eq_none_iff.mp h
  simp only [getOrParse, hnone]
  cases hparse : parse query with
  | error e => exact ⟨rfl, fun key s hs => .inl hs⟩
  | ok statement =>
    refine ⟨rfl, fun key s hs => ?_⟩
    simp only [store] at hs
    split at hs
    · by_cases hkey : key = normalizeQuery query
      · subst hkey
        simp only [statement?, AList.lookup_insert, Option.map_some, Option.some.injEq] at hs
        exact .inr ⟨rfl, by rw [hs]⟩
      · refine .inl ?_
        simp only [statement?, AList.lookup_insert_ne hkey] at hs
        split at hs
        · -- the evicted entry is gone, the others stay
          unfold evictLru at hs
          split at hs
          · exact hs
          · next e _ =>
            by_cases he : key = e.1
            · subst he
              simp at hs
            · simpa [statement?, AList.lookup_erase_ne he] using hs
        · exact hs
    · exact .inl hs

end Lookup

end AstCache

end Maharit
