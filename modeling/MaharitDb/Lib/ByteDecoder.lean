import MaharitDb.Lib.ByteCodec

/-!
# Decoders over a byte slice

A decoder walks over a fixed slice of bytes with a cursor.  It may fail with a message, and it would
panic on an index outside the slice; the cursor also logs what the decoder allocates, also on runs
that fail later.

Two relations tie a decoder to a format.  `Decodes d enc x` says that `d` reads the bytes `enc` as
`x`, whatever follows.  `Sound d P` says the converse, and that nothing goes wrong on any input: `d`
never panics, allocates no more than the bytes left over justify, and when it returns `x`, the bytes
it consumed are related to `x` by `P`.  Both compose along the decoder's `do` block and over loops.
-/

namespace ByteDecoder

/-- `isize::MAX`, the longest a slice can be. -/
def sliceLimit : ℕ := 2 ^ 63 - 1

/-- How a decoder fails. -/
inductive Failure where
  | message (text : String)
  | panic
  deriving DecidableEq, Repr

/-- A request for memory: so many elements, each taking at least `minSize` bytes of the input, when
so many bytes of it were left. -/
structure Allocation where
  count : ℕ
  minSize : ℕ
  remaining : ℕ
  deriving DecidableEq, Repr

/-- The bytes left justify the request. -/
def Allocation.Justified (a : Allocation) : Prop := a.count * a.minSize ≤ a.remaining

/-- Where a decoder stands in the slice, and what it has allocated. -/
structure Cursor where
  pos : ℕ
  allocations : List Allocation

end ByteDecoder

open ByteDecoder in
/-- A computation over a slice; the cursor survives a failure. -/
abbrev ByteDecoder (α : Type) := ReaderT Bytes (ExceptT Failure (StateM Cursor)) α

namespace ByteDecoder

variable {α β W : Type}

/-- The position. -/
def position : ByteDecoder ℕ := fun _ c => (.ok c.pos, c)

/-- The number of bytes left, `len - pos`, which panics when it is negative. -/
def remaining : ByteDecoder ℕ := fun bytes c =>
  if c.pos ≤ bytes.length then (.ok (bytes.length - c.pos), c) else (.error .panic, c)

/-- Fail with a message. -/
def failWith (text : String) : ByteDecoder α := fun _ c => (.error (.message text), c)

/-- Take the next `n` bytes by indexing, which panics when there are fewer. -/
def advance (n : ℕ) : ByteDecoder Bytes := fun bytes c =>
  if c.pos + n ≤ bytes.length then
    (.ok ((bytes.drop c.pos).take n), { c with pos := c.pos + n })
  else (.error .panic, c)

/-- Ask for memory for `count` elements. -/
def allocate (count minSize : ℕ) : ByteDecoder Unit := fun bytes c =>
  (.ok (), { c with
    allocations := c.allocations ++ [⟨count, minSize, bytes.length - c.pos⟩] })

/-- `for _ in 0..n`. -/
def times (step : β → ByteDecoder β) : ℕ → β → ByteDecoder β
  | 0, acc => pure acc
  | n + 1, acc => do
      let acc ← step acc
      times step n acc

/-! ## Reading what was written -/

/-- `d` reads the bytes `enc` as `x`, whatever follows. -/
def Decodes (d : ByteDecoder α) (enc : Bytes) (x : α) : Prop :=
  ∀ (bytes : Bytes) (c : Cursor) (rest : Bytes), bytes.length ≤ sliceLimit →
    c.pos ≤ bytes.length → bytes.drop c.pos = enc ++ rest →
      ∃ allocations, d bytes c = (.ok x, ⟨c.pos + enc.length, allocations⟩)

theorem Decodes.pure (x : α) : Decodes (Pure.pure x) [] x :=
  fun _ c _ _ _ _ => ⟨c.allocations, rfl⟩

/-- The slice behind what was read. -/
theorem drop_add {bytes enc rest : Bytes} {pos : ℕ} (hpos : pos ≤ bytes.length)
    (h : bytes.drop pos = enc ++ rest) :
    pos + enc.length ≤ bytes.length ∧ bytes.drop (pos + enc.length) = rest := by
  have hlen := congrArg List.length h
  rw [List.length_drop, List.length_append] at hlen
  refine ⟨by omega, ?_⟩
  rw [← List.drop_drop, h, List.drop_left]

theorem bind_apply (d : ByteDecoder α) (f : α → ByteDecoder β) (bytes : Bytes) (c : Cursor) :
    (d >>= f) bytes c = match d bytes c with
      | (.ok x, c') => f x bytes c'
      | (.error e, c') => (.error e, c') := by
  change ExceptT.bindCont (fun a => f a bytes) (d bytes c).1 (d bytes c).2 = _
  rcases d bytes c with ⟨e | x, c'⟩
  · rfl
  · rfl

theorem Decodes.bind {d : ByteDecoder α} {f : α → ByteDecoder β} {enc enc' : Bytes} {x : α} {y : β}
    (hd : Decodes d enc x) (hf : Decodes (f x) enc' y) : Decodes (d >>= f) (enc ++ enc') y := by
  intro bytes c rest hlimit hpos hdrop
  rw [List.append_assoc] at hdrop
  obtain ⟨allocations, hrun⟩ := hd bytes c (enc' ++ rest) hlimit hpos hdrop
  obtain ⟨hpos', hdrop'⟩ := drop_add hpos hdrop
  obtain ⟨allocations', hrun'⟩ := hf bytes ⟨c.pos + enc.length, allocations⟩ rest hlimit hpos' hdrop'
  refine ⟨allocations', ?_⟩
  rw [bind_apply, hrun]
  simp only [hrun', List.length_append, Nat.add_assoc]

/-- The last read of a `do` block. -/
theorem Decodes.bind_pure {d : ByteDecoder α} {enc : Bytes} {x : α} (hd : Decodes d enc x)
    (f : α → β) : Decodes (d >>= fun a => Pure.pure (f a)) enc (f x) := by
  have h := hd.bind (f := fun a => Pure.pure (f a)) (Decodes.pure (f x))
  rwa [List.append_nil] at h

theorem decodes_position_bind {f : ℕ → ByteDecoder β} {enc : Bytes} {y : β}
    (hf : ∀ pos, Decodes (f pos) enc y) : Decodes (position >>= f) enc y := by
  intro bytes c rest hlimit hpos hdrop
  rw [bind_apply]
  exact hf c.pos bytes c rest hlimit hpos hdrop

theorem decodes_allocate (count minSize : ℕ) : Decodes (allocate count minSize) [] () :=
  fun _ _ _ _ _ _ => ⟨_, rfl⟩

theorem decodes_advance {n : ℕ} {enc : Bytes} (h : enc.length = n) :
    Decodes (advance n) enc enc := by
  intro bytes c rest _ hpos hdrop
  obtain ⟨hle, -⟩ := drop_add hpos hdrop
  refine ⟨c.allocations, ?_⟩
  rw [advance, if_pos (h ▸ hle), hdrop, ← h, List.take_left]

/-- A loop reads the encodings of its rounds one after the other. -/
theorem decodes_times {step : β → ByteDecoder β} {enc : W → Bytes} {upd : β → W → β} (ws : List W)
    (hstep : ∀ w ∈ ws, ∀ acc, Decodes (step acc) (enc w) (upd acc w)) (acc : β) :
    Decodes (times step ws.length acc) (ws.flatMap enc) (ws.foldl upd acc) := by
  induction ws generalizing acc with
  | nil => exact Decodes.pure acc
  | cons w ws ih =>
    rw [List.forall_mem_cons] at hstep
    rw [List.flatMap_cons]
    exact (hstep.1 acc).bind (ih hstep.2 (upd acc w))

/-! ## Accepting nothing else -/

/-- What may come out of a decoder that started at position `pos`: no panic, only justified
allocations, and a result related by `P` to the bytes consumed. -/
def Outcome (bytes : Bytes) (pos : ℕ) (P : Bytes → α → Prop) (r : Except Failure α × Cursor) : Prop :=
  (∀ a ∈ r.2.allocations, a.Justified) ∧
    match r.1 with
    | .error e => e ≠ .panic
    | .ok x => r.2.pos ≤ bytes.length ∧ ∃ enc, bytes.drop pos = enc ++ bytes.drop r.2.pos ∧ P enc x

/-- `d` comes out well on every slice. -/
def Sound (d : ByteDecoder α) (P : Bytes → α → Prop) : Prop :=
  ∀ (bytes : Bytes) (c : Cursor), bytes.length ≤ sliceLimit → c.pos ≤ bytes.length →
    (∀ a ∈ c.allocations, a.Justified) → Outcome bytes c.pos P (d bytes c)

/-- The outcome seen from an earlier position, with the bytes between in front. -/
theorem Outcome.prepend {bytes e₀ : Bytes} {pos pos' : ℕ} {P Q : Bytes → α → Prop}
    {r : Except Failure α × Cursor} (h : Outcome bytes pos' Q r)
    (hdrop : bytes.drop pos = e₀ ++ bytes.drop pos') (himp : ∀ e x, Q e x → P (e₀ ++ e) x) :
    Outcome bytes pos P r := by
  obtain ⟨hjust, hres⟩ := h
  refine ⟨hjust, ?_⟩
  rcases r with ⟨e | x, c'⟩
  · exact hres
  · obtain ⟨hle, enc, hdrop', hQ⟩ := hres
    refine ⟨hle, e₀ ++ enc, ?_, himp enc x hQ⟩
    rw [hdrop, hdrop', List.append_assoc]

theorem Sound.mono {d : ByteDecoder α} {P Q : Bytes → α → Prop} (h : Sound d P)
    (himp : ∀ enc x, P enc x → Q enc x) : Sound d Q := by
  intro bytes c hlimit hpos hjust
  have hsame : bytes.drop c.pos = [] ++ bytes.drop c.pos := rfl
  exact (h bytes c hlimit hpos hjust).prepend hsame himp

theorem Sound.pure (x : α) : Sound (Pure.pure x) fun enc y => enc = [] ∧ y = x := by
  intro bytes c _ hpos hjust
  exact ⟨hjust, hpos, [], rfl, rfl, rfl⟩

theorem Sound.bind {d : ByteDecoder α} {f : α → ByteDecoder β} {P : Bytes → α → Prop}
    {Q : α → Bytes → β → Prop} (hd : Sound d P) (hf : ∀ x, Sound (f x) (Q x)) :
    Sound (d >>= f) fun enc y => ∃ e₁ e₂ x, enc = e₁ ++ e₂ ∧ P e₁ x ∧ Q x e₂ y := by
  intro bytes c hlimit hpos hjust
  obtain ⟨hjust', hres⟩ := hd bytes c hlimit hpos hjust
  rw [bind_apply]
  rcases hrun : d bytes c with ⟨e | x, c'⟩
  · rw [hrun] at hjust' hres
    exact ⟨hjust', hres⟩
  · rw [hrun] at hjust' hres
    obtain ⟨hle, e₁, hdrop, hP⟩ := hres
    refine (hf x bytes c' hlimit hle hjust').prepend hdrop fun e₂ y hQ => ?_
    exact ⟨e₁, e₂, x, rfl, hP, hQ⟩

/-- What is returned after the last read. -/
theorem Sound.bind_pure {d : ByteDecoder α} {P : Bytes → α → Prop} (hd : Sound d P) (f : α → β) :
    Sound (d >>= fun a => Pure.pure (f a)) fun enc y => ∃ x, P enc x ∧ y = f x := by
  refine (hd.bind fun x => Sound.pure (f x)).mono ?_
  rintro enc y ⟨e₁, e₂, x, rfl, hP, rfl, rfl⟩
  exact ⟨x, by simpa using hP, rfl⟩

theorem sound_failWith (text : String) (P : Bytes → α → Prop) : Sound (failWith text) P :=
  fun _ _ _ _ hjust => ⟨hjust, Failure.noConfusion⟩

theorem sound_position_bind {f : ℕ → ByteDecoder β} {P : Bytes → β → Prop}
    (hf : ∀ pos, Sound (f pos) P) : Sound (position >>= f) P := by
  intro bytes c hlimit hpos hjust
  rw [bind_apply]
  exact hf c.pos bytes c hlimit hpos hjust

theorem sound_ite {p : Prop} [Decidable p] {d d' : ByteDecoder α} {P : Bytes → α → Prop}
    (h : p → Sound d P) (h' : ¬ p → Sound d' P) : Sound (if p then d else d') P := by
  split
  · next hp => exact h hp
  · next hp => exact h' hp

/-- A loop consumes the encodings of its rounds. -/
theorem sound_times {step : β → ByteDecoder β} {enc : W → Bytes} {upd : β → W → β}
    (hstep : ∀ acc, Sound (step acc) fun e acc' => ∃ w, e = enc w ∧ acc' = upd acc w) (n : ℕ)
    (acc : β) :
    Sound (times step n acc) fun e acc' => ∃ ws : List W, ws.length = n ∧ e = ws.flatMap enc ∧
      acc' = ws.foldl upd acc := by
  induction n generalizing acc with
  | zero =>
    refine (Sound.pure acc).mono ?_
    rintro e acc' ⟨rfl, rfl⟩
    exact ⟨[], rfl, rfl, rfl⟩
  | succ n ih =>
    refine ((hstep acc).bind fun acc' => ih acc').mono ?_
    rintro e acc' ⟨e₁, e₂, x, rfl, ⟨w, rfl, rfl⟩, ws, rfl, rfl, rfl⟩
    exact ⟨w :: ws, rfl, by simp, rfl⟩

/-! ## Running a decoder over a whole slice -/

/-- The cursor at the start of a slice. -/
def Cursor.start : Cursor := ⟨0, []⟩

/-- A decoder that reads all of its slice sees one value only. -/
theorem Decodes.prefix_free {d : ByteDecoder α} {enc enc' q : Bytes} {x y : α} (hx : Decodes d enc x)
    (hy : Decodes d enc' y) (hlimit : enc.length ≤ sliceLimit) (h : enc = enc' ++ q) : q = [] := by
  obtain ⟨allocations, hrun⟩ := hx enc Cursor.start [] hlimit (Nat.zero_le _) (by simp [Cursor.start])
  obtain ⟨allocations', hrun'⟩ := hy enc Cursor.start q hlimit (Nat.zero_le _) (by simp [Cursor.start, h])
  rw [hrun] at hrun'
  have hpos := congrArg (fun r => r.2.pos) hrun'
  simp only [Cursor.start, Nat.zero_add] at hpos
  rw [h, List.length_append] at hpos
  exact List.eq_nil_of_length_eq_zero (by omega)

end ByteDecoder
