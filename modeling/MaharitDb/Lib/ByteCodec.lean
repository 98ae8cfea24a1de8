import Mathlib.Tactic

/-!
# Byte streams

A reader consumes bytes from the front of a stream and may fail.  `Reads r bytes x` says that `r`
reads exactly `bytes` and returns `x`, whatever follows; writers and readers of a format are matched
by composing this relation along the reader's `do` block.  `Frames` adds that the reader fails on
every stream that ends too early.

The file also has fixed-width little-endian numbers, and overwriting a stretch of a byte sequence,
which is what writing to a file at a position does.
-/

/-- A byte sequence. -/
abbrev Bytes := List UInt8

/-- A computation that consumes bytes from the front of a stream. -/
abbrev Reader (ε α : Type) := StateT Bytes (Except ε) α

namespace Reader

variable {ε α β : Type}

/-- Read exactly `k` bytes, or fail with `eof`. -/
def exact (eof : ε) (k : ℕ) : Reader ε Bytes := fun bs =>
  if k ≤ bs.length then .ok (bs.take k, bs.drop k) else .error eof

/-- `r` reads exactly `bytes`, whatever follows, and returns `x`. -/
def Reads (r : Reader ε α) (bytes : Bytes) (x : α) : Prop :=
  ∀ rest, r (bytes ++ rest) = .ok (x, rest)

theorem Reads.pure (x : α) : Reads (Pure.pure x : Reader ε α) [] x := fun _ => rfl

theorem Reads.bind {r : Reader ε α} {f : α → Reader ε β} {bytes bytes' : Bytes} {x : α} {y : β}
    (hr : Reads r bytes x) (hf : Reads (f x) bytes' y) : Reads (r >>= f) (bytes ++ bytes') y := by
  intro rest
  change ((r (bytes ++ bytes' ++ rest)).bind fun p => f p.1 p.2) = _
  rw [List.append_assoc, hr]
  exact hf rest

theorem Reads.map {r : Reader ε α} {bytes : Bytes} {x : α} (hr : Reads r bytes x) (f : α → β) :
    Reads (f <$> r) bytes (f x) := by
  intro rest
  change ((r (bytes ++ rest)).bind fun p => .ok (f p.1, p.2)) = _
  rw [hr]
  rfl

/-- The last read of a `do` block. -/
theorem Reads.bind_pure {r : Reader ε α} {bytes : Bytes} {x : α} (hr : Reads r bytes x)
    (f : α → β) : Reads (r >>= fun a => Pure.pure (f a)) bytes (f x) := by
  have h := hr.bind (f := fun a => Pure.pure (f a)) (Reads.pure (f x))
  rwa [List.append_nil] at h

/-- The reader with its errors translated. -/
def mapError {ε' : Type} (f : ε → ε') (r : Reader ε α) : Reader ε' α := fun bs => (r bs).mapError f

theorem Reads.mapError {ε' : Type} {r : Reader ε α} {bytes : Bytes} {x : α} (hr : Reads r bytes x)
    (f : ε → ε') : Reads (r.mapError f) bytes x := by
  intro rest
  rw [Reader.mapError, hr rest]
  rfl

theorem reads_exact (eof : ε) {k : ℕ} {bytes : Bytes} (h : bytes.length = k) :
    Reads (exact eof k) bytes bytes := by
  intro rest
  subst h
  simp [exact]

/-- Reading from a stream that is too short fails. -/
theorem exact_of_length_lt (eof : ε) {k : ℕ} {bs : Bytes} (h : bs.length < k) :
    exact eof k bs = .error eof := by
  simp [exact, h]

/-! ### Truncation -/

/-- Besides reading `bytes` as `x`, the reader fails with `eof` on every stream that ends before
`bytes` does. -/
structure Frames (eof : ε) (r : Reader ε α) (bytes : Bytes) (x : α) : Prop where
  reads : Reads r bytes x
  cut : ∀ p q, bytes = p ++ q → q ≠ [] → r p = .error eof

section Frames

variable {eof : ε} {r : Reader ε α} {bytes bytes' : Bytes} {x : α} {y : β}

theorem Frames.pure (eof : ε) (x : α) : Frames eof (Pure.pure x : Reader ε α) [] x := by
  refine ⟨Reads.pure x, fun p q h hq => ?_⟩
  exact absurd (List.append_eq_nil_iff.mp h.symm).2 hq

theorem Frames.bind {f : α → Reader ε β} (hr : Frames eof r bytes x)
    (hf : Frames eof (f x) bytes' y) : Frames eof (r >>= f) (bytes ++ bytes') y := by
  refine ⟨hr.reads.bind hf.reads, fun p q h hq => ?_⟩
  change ((r p).bind fun a => f a.1 a.2) = _
  -- the stream ends inside the first part, or behind it and inside the second
  rcases List.append_eq_append_iff.mp h with ⟨mid, rfl, hrest⟩ | ⟨mid, hfirst, rfl⟩
  · rw [hr.reads mid]
    exact hf.cut mid q hrest hq
  · by_cases hmid : mid = []
    · subst hmid
      rw [List.append_nil] at hfirst
      subst hfirst
      have hread := hr.reads []
      rw [List.append_nil] at hread
      rw [hread]
      exact hf.cut [] bytes' rfl hq
    · rw [hr.cut p mid hfirst hmid]
      rfl

theorem Frames.map (hr : Frames eof r bytes x) (f : α → β) : Frames eof (f <$> r) bytes (f x) := by
  refine ⟨hr.reads.map f, fun p q h hq => ?_⟩
  change ((r p).bind fun a => .ok (f a.1, a.2)) = _
  rw [hr.cut p q h hq]
  rfl

theorem Frames.bind_pure (hr : Frames eof r bytes x) (f : α → β) :
    Frames eof (r >>= fun a => Pure.pure (f a)) bytes (f x) := by
  have h := hr.bind (f := fun a => Pure.pure (f a)) (Frames.pure eof (f x))
  rwa [List.append_nil] at h

theorem frames_exact (eof : ε) {k : ℕ} (h : bytes.length = k) :
    Frames eof (exact eof k) bytes bytes := by
  refine ⟨reads_exact eof h, fun p q hpq hq => exact_of_length_lt eof ?_⟩
  rw [hpq, List.length_append] at h
  have hpos := List.length_pos_of_ne_nil hq
  omega

end Frames

/-! ### Progress -/

/-- The reader never returns more bytes than it was given. -/
def Shrinks (r : Reader ε α) : Prop :=
  ∀ bs x rest, r bs = .ok (x, rest) → rest.length ≤ bs.length

theorem Shrinks.pure (x : α) : Shrinks (Pure.pure x : Reader ε α) := by
  intro bs y rest h
  cases h
  exact le_rfl

theorem Shrinks.throw (e : ε) : Shrinks (throw e : Reader ε α) := by
  intro bs y rest h
  cases h

theorem Shrinks.bind {r : Reader ε α} {f : α → Reader ε β} (hr : Shrinks r)
    (hf : ∀ x, Shrinks (f x)) : Shrinks (r >>= f) := by
  intro bs y rest h
  change ((r bs).bind fun p => f p.1 p.2) = _ at h
  cases hbs : r bs with
  | error e =>
    rw [hbs] at h
    cases h
  | ok p =>
    rw [hbs] at h
    exact (hf p.1 p.2 y rest h).trans (hr bs p.1 p.2 hbs)

theorem Shrinks.map {r : Reader ε α} (hr : Shrinks r) (f : α → β) : Shrinks (f <$> r) := by
  intro bs y rest h
  change ((r bs).bind fun p => .ok (f p.1, p.2)) = _ at h
  cases hbs : r bs with
  | error e =>
    rw [hbs] at h
    cases h
  | ok p =>
    rw [hbs] at h
    cases h
    exact hr bs p.1 p.2 hbs

theorem shrinks_exact (eof : ε) (k : ℕ) : Shrinks (exact eof k) := by
  intro bs y rest h
  unfold exact at h
  split at h
  · cases h
    exact (List.length_drop (i := k)).trans_le (Nat.sub_le _ _)
  · cases h
theorem Shrinks.lift (x : Except ε α) : Shrinks (liftM x : Reader ε α) := by
  intro bs y rest h
  cases x with
  | error e => cases h
  | ok a =>
    cases h
    exact le_rfl

/-- What the reader returns has a property, whatever it reads. -/
def Yields (r : Reader ε α) (P : α → Prop) : Prop := ∀ bs x rest, r bs = .ok (x, rest) → P x

theorem Yields.pure {x : α} {P : α → Prop} (hx : P x) : Yields (Pure.pure x : Reader ε α) P := by
  intro bs y rest h
  cases h
  exact hx

theorem Yields.throw (e : ε) (P : α → Prop) : Yields (throw e : Reader ε α) P := by
  intro bs y rest h
  cases h

theorem Yields.trivial (r : Reader ε α) : Yields r fun _ => True := fun _ _ _ _ => True.intro

theorem Yields.bind {r : Reader ε α} {f : α → Reader ε β} {P : α → Prop} {Q : β → Prop} (hr : Yields r P)
    (hf : ∀ x, P x → Yields (f x) Q) : Yields (r >>= f) Q := by
  intro bs y rest h
  change ((r bs).bind fun p => f p.1 p.2) = _ at h
  rcases hbs : r bs with e | p
  · rw [hbs] at h
    cases h
  · rw [hbs] at h
    exact hf p.1 (hr bs p.1 p.2 hbs) p.2 y rest h

theorem Yields.map {r : Reader ε α} {f : α → β} {P : α → Prop} {Q : β → Prop} (hr : Yields r P)
    (hf : ∀ x, P x → Q (f x)) : Yields (f <$> r) Q := by
  intro bs y rest h
  change ((r bs).bind fun p => .ok (f p.1, p.2)) = _ at h
  rcases hbs : r bs with e | p
  · rw [hbs] at h
    cases h
  · rw [hbs] at h
    cases h
    exact hf p.1 (hr bs p.1 p.2 hbs)

/-- A read of which only the length matters. -/
theorem yields_exact (eof : ε) (k : ℕ) : Yields (exact eof k) fun bytes => bytes.length = k := by
  intro bs y rest h
  unfold exact at h
  split at h
  · rename_i hle
    cases h
    exact List.length_take_of_le hle
  · cases h

end Reader

namespace Bytes

/-! ## Little-endian numbers -/

/-- The `k` low bytes of a number, the lowest first. -/
def ofNat : ℕ → ℕ → Bytes
  | 0, _ => []
  | k + 1, n => UInt8.ofNat n :: ofNat k (n / 256)

/-- The number a byte sequence denotes, the lowest byte first. -/
def toNat : Bytes → ℕ
  | [] => 0
  | b :: bs => b.toNat + 256 * toNat bs

@[simp] theorem length_ofNat (k n : ℕ) : (ofNat k n).length = k := by
  induction k generalizing n with
  | zero => rfl
  | succ k ih => simp [ofNat, ih]

theorem toNat_ofNat (k n : ℕ) : toNat (ofNat k n) = n % 256 ^ k := by
  induction k generalizing n with
  | zero => simp [ofNat, toNat, Nat.mod_one]
  | succ k ih =>
    have hlow : (UInt8.ofNat n).toNat = n % 256 := by simp
    rw [ofNat, toNat, ih, hlow, pow_succ, Nat.mul_comm (256 ^ k) 256, Nat.mod_mul]

theorem toNat_ofNat_of_lt {k n : ℕ} (h : n < 256 ^ k) : toNat (ofNat k n) = n := by
  rw [toNat_ofNat, Nat.mod_eq_of_lt h]

theorem toNat_lt (bs : Bytes) : bs.toNat < 256 ^ bs.length := by
  induction bs with
  | nil => simp [toNat]
  | cons b bs ih =>
    have hb : b.toNat < 256 := b.toNat_lt
    rw [toNat, List.length_cons, pow_succ]
    omega

/-- A byte sequence is the low bytes of the number it denotes. -/
theorem ofNat_toNat (bs : Bytes) : ofNat bs.length bs.toNat = bs := by
  induction bs with
  | nil => rfl
  | cons b bs ih =>
    have hb : b.toNat < 256 := b.toNat_lt
    have hlow : UInt8.ofNat (b.toNat + 256 * toNat bs) = b := by
      rw [← UInt8.toNat_inj, UInt8.toNat_ofNat']
      omega
    have hhigh : (b.toNat + 256 * toNat bs) / 256 = toNat bs := by omega
    rw [toNat, List.length_cons, ofNat, hlow, hhigh, ih]

/-! ## Writing at a position -/

/-- The sequence after `data` was written at position `pos`. -/
def overwrite (file : Bytes) (pos : ℕ) (data : Bytes) : Bytes :=
  file.take pos ++ data ++ file.drop (pos + data.length)

@[simp] theorem overwrite_nil (file : Bytes) (pos : ℕ) : overwrite file pos [] = file := by
  simp [overwrite]

/-- Two adjacent writes are one write. -/
theorem overwrite_overwrite (file : Bytes) {pos : ℕ} (hpos : pos ≤ file.length)
    (a b : Bytes) :
    overwrite (overwrite file pos a) (pos + a.length) b = overwrite file pos (a ++ b) := by
  have hlen : (file.take pos).length = pos := List.length_take_of_le hpos
  have htake : (file.take pos ++ a ++ file.drop (pos + a.length)).take (pos + a.length) =
      file.take pos ++ a := by
    rw [List.take_append_of_le_length (by simp [hlen]), List.take_of_length_le (by simp [hlen])]
  have hdrop : (file.take pos ++ a ++ file.drop (pos + a.length)).drop (pos + a.length + b.length) =
      file.drop (pos + a.length + b.length) := by
    have hsplit : pos + a.length + b.length = (file.take pos ++ a).length + b.length := by
      simp [hlen]
    rw [hsplit, List.drop_append, List.drop_drop]
    simp [hlen]
  simp only [overwrite]
  rw [htake, hdrop, List.length_append, ← List.append_assoc, Nat.add_assoc]

theorem length_overwrite (file : Bytes) {pos : ℕ} (hpos : pos ≤ file.length) (data : Bytes) :
    pos + data.length ≤ (overwrite file pos data).length := by
  simp [overwrite, List.length_take_of_le hpos]

/-- A write that ends at or behind the end of the file only adds bytes. -/
theorem overwrite_append (file : Bytes) {pos : ℕ} (a b : Bytes)
    (hend : file.length ≤ pos + a.length) :
    overwrite file pos (a ++ b) = overwrite file pos a ++ b := by
  have hdrop : file.drop (pos + a.length) = [] := List.drop_eq_nil_of_le hend
  have hdrop' : file.drop (pos + (a ++ b).length) = [] := by
    refine List.drop_eq_nil_of_le ?_
    rw [List.length_append]
    omega
  rw [overwrite, overwrite, hdrop, hdrop']
  simp

end Bytes
