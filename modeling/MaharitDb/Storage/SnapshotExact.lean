import MaharitDb.Storage.SnapshotCodec

/-!
# The snapshot codec accepts exactly its encodings

The two laws of `ByteDecoder`, decoder by decoder: each reads back what the encoder wrote
(`decodes_...`), and accepts nothing else without ever leaving the slice or allocating more than the
bytes left justify (`sound_...`).  `snapshot_codec_exact` puts them together for the whole payload.
-/

namespace Maharit

open WalCodec ByteDecoder

namespace SnapshotCodec

/-! ## Numbers -/

lemma decodes_take {n : ℕ} {enc : Bytes} (h : enc.length = n) : Decodes (take n) enc enc := by
  intro bytes c rest hlimit hpos hdrop
  obtain ⟨hle, -⟩ := drop_add hpos hdrop
  rw [take, if_pos (h ▸ hle)]
  exact decodes_advance h bytes c rest hlimit hpos hdrop

lemma sound_take (n : ℕ) : Sound (take n) fun enc bs => enc = bs ∧ bs.length = n := by
  intro bytes c _ hpos hjust
  unfold take
  by_cases h : c.pos + n ≤ bytes.length
  · rw [if_pos h, advance, if_pos h]
    refine ⟨hjust, h, (bytes.drop c.pos).take n, ?_, rfl, ?_⟩
    · rw [← List.drop_drop, List.take_append_drop]
    · rw [List.length_take, List.length_drop]
      omega
  · rw [if_neg h]
    exact ⟨hjust, Failure.noConfusion⟩

lemma u32Bytes_ofNat {bs : Bytes} (h : bs.length = 4) : u32Bytes (UInt32.ofNat bs.toNat) = bs := by
  have hlt := Bytes.toNat_lt bs
  rw [h] at hlt
  rw [u32Bytes, UInt32.toNat_ofNat', Nat.mod_eq_of_lt (by simpa using hlt), ← h, Bytes.ofNat_toNat]

lemma u64Bytes_ofNat {bs : Bytes} (h : bs.length = 8) : u64Bytes (UInt64.ofNat bs.toNat) = bs := by
  have hlt := Bytes.toNat_lt bs
  rw [h] at hlt
  rw [u64Bytes, UInt64.toNat_ofNat', Nat.mod_eq_of_lt (by simpa using hlt), ← h, Bytes.ofNat_toNat]

lemma ofNat_u32Bytes (n : UInt32) : UInt32.ofNat (u32Bytes n).toNat = n := by
  rw [u32Bytes, Bytes.toNat_ofNat_of_lt n.toNat_lt, UInt32.ofNat_toNat]

lemma ofNat_u64Bytes (n : UInt64) : UInt64.ofNat (u64Bytes n).toNat = n := by
  rw [u64Bytes, Bytes.toNat_ofNat_of_lt n.toNat_lt, UInt64.ofNat_toNat]

lemma decodes_u32 (n : UInt32) : Decodes u32 (u32Bytes n) n := by
  have h := (decodes_take (rfl : (u32Bytes n).length = 4)).bind_pure fun bs => UInt32.ofNat (Bytes.toNat bs)
  rw [ofNat_u32Bytes] at h
  exact h

lemma sound_u32 : Sound u32 fun enc n => enc = u32Bytes n := by
  refine ((sound_take 4).bind_pure _).mono ?_
  rintro enc n ⟨bs, ⟨rfl, hlen⟩, rfl⟩
  exact (u32Bytes_ofNat hlen).symm

lemma decodes_u64 (n : UInt64) : Decodes u64 (u64Bytes n) n := by
  have h := (decodes_take (rfl : (u64Bytes n).length = 8)).bind_pure fun bs => UInt64.ofNat (Bytes.toNat bs)
  rw [ofNat_u64Bytes] at h
  exact h

lemma sound_u64 : Sound u64 fun enc n => enc = u64Bytes n := by
  refine ((sound_take 8).bind_pure _).mono ?_
  rintro enc n ⟨bs, ⟨rfl, hlen⟩, rfl⟩
  exact (u64Bytes_ofNat hlen).symm

lemma decodes_i32 (n : Int32) : Decodes i32 (u32Bytes n.toUInt32) n := by
  have h := (decodes_u32 n.toUInt32).bind_pure UInt32.toInt32
  have hback : n.toUInt32.toInt32 = n := by simp
  rw [hback] at h
  exact h

lemma sound_i32 : Sound i32 fun enc n => enc = u32Bytes n.toUInt32 := by
  refine (sound_u32.bind_pure _).mono ?_
  rintro enc n ⟨m, rfl, rfl⟩
  simp

lemma decodes_i64 (n : Int64) : Decodes i64 (u64Bytes n.toUInt64) n := by
  have h := (decodes_u64 n.toUInt64).bind_pure UInt64.toInt64
  have hback : n.toUInt64.toInt64 = n := by simp
  rw [hback] at h
  exact h

lemma sound_i64 : Sound i64 fun enc n => enc = u64Bytes n.toUInt64 := by
  refine (sound_u64.bind_pure _).mono ?_
  rintro enc n ⟨m, rfl, rfl⟩
  simp

lemma decodes_bool (b : Bool) : Decodes bool (putBool b) b := by
  have h : Decodes bool (putBool b ++ []) b := by
    refine (decodes_take (rfl : (putBool b).length = 1)).bind (decodes_position_bind fun pos => ?_)
    cases b with
    | true => exact Decodes.pure true
    | false => exact Decodes.pure false
  rwa [List.append_nil] at h

lemma sound_bool : Sound bool fun enc b => enc = putBool b := by
  refine ((sound_take 1).bind (Q := fun bs enc b => enc = [] ∧ bs = putBool b)
    fun bs => sound_position_bind fun pos => ?_).mono ?_
  · split_ifs with h0 h1
    · refine (Sound.pure false).mono ?_
      rintro enc b ⟨rfl, rfl⟩
      exact ⟨rfl, h0⟩
    · refine (Sound.pure true).mono ?_
      rintro enc b ⟨rfl, rfl⟩
      exact ⟨rfl, h1⟩
    · exact sound_failWith _ _
  · rintro enc b ⟨e₁, e₂, bs, rfl, ⟨rfl, -⟩, rfl, rfl⟩
    simp

/-! ## Counts -/

@[simp] lemma length_putLen (n : ℕ) : (putLen n).length = 8 := Bytes.length_ofNat 8 _

/-- A count is read when so many elements fit into what follows. -/
lemma count_eq {minSize n : ℕ} {what : String} (hmin : 1 ≤ minSize) {bytes rest : Bytes} {c : Cursor}
    (hlimit : bytes.length ≤ sliceLimit) (hpos : c.pos ≤ bytes.length)
    (hdrop : bytes.drop c.pos = putLen n ++ rest) (hfit : n * minSize ≤ rest.length) :
    count minSize what bytes c = (.ok n, { c with pos := c.pos + 8 }) := by
  obtain ⟨hle, hrest⟩ := drop_add hpos hdrop
  rw [length_putLen] at hle hrest
  have hrestLen : rest.length = bytes.length - (c.pos + 8) := by
    rw [← hrest, List.length_drop]
  have hnle : n ≤ n * minSize := Nat.le_mul_of_pos_right n hmin
  have hn : (UInt64.ofNat n).toNat = n := by
    rw [UInt64.toNat_ofNat', Nat.mod_eq_of_lt]
    unfold sliceLimit at hlimit
    omega
  have hread : u64 bytes c = (.ok (UInt64.ofNat n), { c with pos := c.pos + 8 }) := by
    have htake : take 8 bytes c = (.ok (putLen n), { c with pos := c.pos + 8 }) := by
      rw [take, if_pos hle, advance, if_pos hle, hdrop]
      rw [List.take_append_of_le_length (by simp), List.take_of_length_le (by simp)]
    rw [u64, bind_apply, htake]
    have hback : UInt64.ofNat (putLen n).toNat = UInt64.ofNat n := ofNat_u64Bytes _
    simp only [hback]
    rfl
  have hremaining : ByteDecoder.remaining bytes { c with pos := c.pos + 8 } =
      (.ok rest.length, { c with pos := c.pos + 8 }) := by
    rw [ByteDecoder.remaining, if_pos hle, hrestLen]
  have hfits : ¬ rest.length < min (n * minSize) (2 ^ 64 - 1) := by
    have := Nat.min_le_left (n * minSize) (2 ^ 64 - 1)
    omega
  rw [count, bind_apply]
  simp only [position]
  rw [bind_apply, hread]
  simp only
  rw [bind_apply, hremaining]
  simp only [hn, if_neg hfits]
  rfl

/-- What a count does on any slice: it fails with a message, or it returns a number of elements that
fit into what is left. -/
lemma count_cases (minSize : ℕ) (what : String) {bytes : Bytes} {c : Cursor}
    (hlimit : bytes.length ≤ sliceLimit) :
    (∃ text c', count minSize what bytes c = (.error (.message text), c') ∧
      c'.allocations = c.allocations) ∨
    ∃ n, count minSize what bytes c = (.ok n, { c with pos := c.pos + 8 }) ∧
      c.pos + 8 ≤ bytes.length ∧ bytes.drop c.pos = putLen n ++ bytes.drop (c.pos + 8) ∧
      n * minSize ≤ bytes.length - (c.pos + 8) := by
  rw [count, bind_apply]
  simp only [position]
  rw [bind_apply, u64, bind_apply, take]
  by_cases hle : c.pos + 8 ≤ bytes.length
  · rw [if_pos hle, advance, if_pos hle]
    simp only
    set bs : Bytes := (bytes.drop c.pos).take 8 with hbs
    have hlen : bs.length = 8 := by
      rw [hbs, List.length_take, List.length_drop]
      omega
    have hremaining : ByteDecoder.remaining bytes { c with pos := c.pos + 8 } =
        (.ok (bytes.length - (c.pos + 8)), { c with pos := c.pos + 8 }) := by
      rw [ByteDecoder.remaining, if_pos hle]
    change (∃ text c', (ByteDecoder.remaining >>= _) bytes { c with pos := c.pos + 8 } = _ ∧ _) ∨
      ∃ n, (ByteDecoder.remaining >>= _) bytes { c with pos := c.pos + 8 } = _ ∧ _
    rw [bind_apply, hremaining]
    simp only
    by_cases hfits : bytes.length - (c.pos + 8) <
        min ((UInt64.ofNat bs.toNat).toNat * minSize) (2 ^ 64 - 1)
    · left
      rw [if_pos hfits]
      exact ⟨_, _, rfl, rfl⟩
    · refine Or.inr ⟨(UInt64.ofNat bs.toNat).toNat, ?_, hle, ?_, ?_⟩
      · rw [if_neg hfits]
        rfl
      · rw [putLen, putU64, UInt64.ofNat_toNat, u64Bytes_ofNat hlen, hbs, ← List.drop_drop,
          List.take_append_drop]
      · unfold sliceLimit at hlimit
        omega
  · left
    rw [if_neg hle]
    exact ⟨_, _, rfl, rfl⟩

/-- A count, the allocation of so many elements, and what follows. -/
lemma decodes_count {β : Type} {minSize n : ℕ} {what : String} (hmin : 1 ≤ minSize)
    {f : ℕ → ByteDecoder β} {enc : Bytes} {y : β} (hfit : n * minSize ≤ enc.length)
    (hf : Decodes (f n) enc y) :
    Decodes (do
      let n ← count minSize what
      allocate n minSize
      f n) (putLen n ++ enc) y := by
  intro bytes c rest hlimit hpos hdrop
  rw [List.append_assoc] at hdrop
  obtain ⟨hle, hrest⟩ := drop_add hpos hdrop
  rw [length_putLen] at hle hrest
  have hfit' : n * minSize ≤ (enc ++ rest).length := by
    rw [List.length_append]
    omega
  obtain ⟨allocations, hrun⟩ := hf bytes ⟨c.pos + 8, _⟩ rest hlimit hle hrest
  refine ⟨allocations, ?_⟩
  rw [bind_apply, count_eq hmin hlimit hpos hdrop hfit']
  simp only
  rw [bind_apply]
  simp only [allocate]
  rw [hrun, List.length_append, length_putLen, Nat.add_assoc]

lemma sound_count {β : Type} (minSize : ℕ) (what : String) {f : ℕ → ByteDecoder β}
    {Q : ℕ → Bytes → β → Prop} (hf : ∀ n, Sound (f n) (Q n)) :
    Sound (do
      let n ← count minSize what
      allocate n minSize
      f n) fun enc y => ∃ n e, enc = putLen n ++ e ∧ Q n e y := by
  intro bytes c hlimit hpos hjust
  rw [bind_apply]
  rcases count_cases minSize what (c := c) hlimit with ⟨text, c', hrun, hallocs⟩ |
    ⟨n, hrun, hle, hdrop, hfit⟩
  · rw [hrun]
    exact ⟨hallocs ▸ hjust, Failure.noConfusion⟩
  · rw [hrun]
    simp only
    rw [bind_apply]
    simp only [allocate]
    have hjust' : ∀ a ∈ c.allocations ++ [⟨n, minSize, bytes.length - (c.pos + 8)⟩],
        Allocation.Justified a := by
      intro a ha
      rcases List.mem_append.mp ha with ha | ha
      · exact hjust a ha
      · rw [List.mem_singleton.mp ha]
        exact hfit
    exact (hf n bytes ⟨c.pos + 8, _⟩ hlimit hle hjust').prepend hdrop fun e y hQ => ⟨n, e, rfl, hQ⟩

/-! ## Strings and values -/

lemma decodes_string (s : String) : Decodes string (putStr s) s := by
  refine decodes_position_bind fun pos => ?_
  refine decodes_count le_rfl (n := (utf8 s).length) (by simp) ?_
  have h : ∀ read : Bytes → ByteDecoder String, read (utf8 s) = pure s →
      Decodes (advance (utf8 s).length >>= read) (utf8 s ++ []) s := fun read hread =>
    (decodes_advance rfl).bind (hread ▸ Decodes.pure s)
  simp only [List.append_nil] at h
  refine h _ ?_
  rw [fromUTF8_utf8]

lemma sound_string : Sound string fun enc s => enc = putStr s := by
  refine sound_position_bind fun pos => ?_
  intro bytes c hlimit hpos hjust
  rw [bind_apply]
  rcases count_cases 1 "string" (c := c) hlimit with ⟨text, c', hrun, hallocs⟩ |
    ⟨n, hrun, hle, hdrop, hfit⟩
  · rw [hrun]
    exact ⟨hallocs ▸ hjust, Failure.noConfusion⟩
  · have hjust' : ∀ a ∈ c.allocations ++ [⟨n, 1, bytes.length - (c.pos + 8)⟩],
        Allocation.Justified a := by
      intro a ha
      rcases List.mem_append.mp ha with ha | ha
      · exact hjust a ha
      · rw [List.mem_singleton.mp ha]
        exact hfit
    have hadvance : c.pos + 8 + n ≤ bytes.length := by omega
    rw [hrun]
    simp only
    rw [bind_apply]
    simp only [allocate]
    rw [bind_apply, advance, if_pos hadvance]
    simp only
    set raw := (bytes.drop (c.pos + 8)).take n with hraw
    have hsplit : bytes.drop c.pos = (putLen n ++ raw) ++ bytes.drop (c.pos + 8 + n) := by
      rw [hdrop, List.append_assoc, hraw, ← List.drop_drop (i := n), List.take_append_drop]
    have hrawLen : raw.length = n := by
      rw [hraw, List.length_take, List.length_drop]
      omega
    cases hs : String.fromUTF8? ⟨raw.toArray⟩ with
    | none => exact ⟨hjust', Failure.noConfusion⟩
    | some s =>
      refine ⟨hjust', hadvance, putLen n ++ raw, hsplit, ?_⟩
      change putLen n ++ raw = putStr s
      rw [putStr, utf8_of_fromUTF8 hs, hrawLen]

lemma decodes_value (v : PropertyValue) : Decodes value (putValue v) v := by
  refine decodes_position_bind fun pos => ?_
  cases v with
  | null =>
    rw [← List.append_nil (putValue .null)]
    exact (decodes_u32 0).bind (Decodes.pure _)
  | bool b => exact (decodes_u32 1).bind ((decodes_bool b).bind_pure _)
  | int n => exact (decodes_u32 2).bind ((decodes_i64 n).bind_pure _)
  | float x => exact (decodes_u32 3).bind ((decodes_u64 x.bits).bind_pure fun n => PropertyValue.float ⟨n⟩)
  | string s => exact (decodes_u32 4).bind ((decodes_string s).bind_pure _)
  | date d => exact (decodes_u32 5).bind ((decodes_i32 d).bind_pure _)
  | dateTime ms => exact (decodes_u32 6).bind ((decodes_i64 ms).bind_pure _)
  | duration months days millis =>
    exact (decodes_u32 7).bind ((decodes_i32 months).bind ((decodes_i32 days).bind
      ((decodes_i64 millis).bind_pure _)))

lemma sound_valueFields (pos : ℕ) (tag : UInt32) :
    Sound (valueFields pos tag) fun enc v => u32Bytes tag ++ enc = putValue v := by
  unfold valueFields
  refine sound_ite (fun h => ?_) fun _ => sound_ite (fun h => ?_) fun _ => sound_ite (fun h => ?_)
    fun _ => sound_ite (fun h => ?_) fun _ => sound_ite (fun h => ?_) fun _ => sound_ite (fun h => ?_)
      fun _ => sound_ite (fun h => ?_) fun _ => sound_ite (fun h => ?_) fun _ => sound_failWith _ _
  · subst h
    refine (Sound.pure _).mono ?_
    rintro enc v ⟨rfl, rfl⟩
    rfl
  · subst h
    refine (sound_bool.bind_pure _).mono ?_
    rintro enc v ⟨b, rfl, rfl⟩
    rfl
  · subst h
    refine (sound_i64.bind_pure _).mono ?_
    rintro enc v ⟨n, rfl, rfl⟩
    rfl
  · subst h
    refine (sound_u64.bind_pure _).mono ?_
    rintro enc v ⟨n, rfl, rfl⟩
    rfl
  · subst h
    refine (sound_string.bind_pure _).mono ?_
    rintro enc v ⟨s, rfl, rfl⟩
    rfl
  · subst h
    refine (sound_i32.bind_pure _).mono ?_
    rintro enc v ⟨d, rfl, rfl⟩
    rfl
  · subst h
    refine (sound_i64.bind_pure _).mono ?_
    rintro enc v ⟨ms, rfl, rfl⟩
    rfl
  · subst h
    refine (sound_i32.bind fun months => sound_i32.bind fun days =>
      sound_i64.bind_pure fun millis => PropertyValue.duration months days millis).mono ?_
    rintro enc v ⟨_, _, months, rfl, rfl, _, _, days, rfl, rfl, millis, rfl, rfl⟩
    rfl

lemma sound_value : Sound value fun enc v => enc = putValue v := by
  refine sound_position_bind fun pos => ?_
  refine (sound_u32.bind fun tag => sound_valueFields pos tag).mono ?_
  rintro enc v ⟨e₁, e₂, tag, rfl, rfl, hvalue⟩
  exact hvalue

/-! ## Lists and maps -/

/-- So many elements of at least `minSize` bytes take so many bytes. -/
lemma length_mul_le_flatMap {W : Type} {enc : W → Bytes} {minSize : ℕ} (ws : List W)
    (hsize : ∀ w ∈ ws, minSize ≤ (enc w).length) : ws.length * minSize ≤ (ws.flatMap enc).length := by
  induction ws with
  | nil => simp
  | cons w ws ih =>
    rw [List.forall_mem_cons] at hsize
    have htail := ih hsize.2
    rw [List.flatMap_cons, List.length_append, List.length_cons, Nat.succ_mul]
    omega

lemma length_putStr (s : String) : 8 ≤ (putStr s).length := by
  rw [putStr, List.length_append, length_putLen]
  omega

lemma length_putValue (v : PropertyValue) : 4 ≤ (putValue v).length := by
  cases v <;> simp [putValue, u32Bytes]

lemma length_putEntry (e : PropertyEntry) : 8 + 4 ≤ (putEntry e).length := by
  have hkey := length_putStr e.1
  have hvalue := length_putValue e.2
  rw [putEntry, List.length_append]
  omega

lemma decodes_props (entries : List PropertyEntry) :
    Decodes props (putEntries entries) (collectProps entries) := by
  refine decodes_count (by decide) (length_mul_le_flatMap entries fun e _ => length_putEntry e) ?_
  refine decodes_times entries (fun e _ map => ?_) ∅
  exact (decodes_string e.1).bind ((decodes_value e.2).bind_pure _)

lemma sound_props : Sound props fun enc map =>
    ∃ entries, enc = putEntries entries ∧ map = collectProps entries := by
  have hstep : ∀ map : Properties, Sound (propsStep map) fun enc map' =>
      ∃ e : PropertyEntry, enc = putEntry e ∧ map' = map.insert e.1 e.2 := by
    intro map
    have hinsert : ∀ key : String, Sound (value >>= fun v => pure (map.insert key v))
        fun enc (map' : Properties) => ∃ v, enc = putValue v ∧ map' = map.insert key v :=
      fun key => sound_value.bind_pure (β := Properties) fun v => map.insert key v
    refine (sound_string.bind hinsert).mono ?_
    rintro enc map' ⟨_, _, key, rfl, rfl, v, rfl, rfl⟩
    exact ⟨⟨key, v⟩, rfl, rfl⟩
  refine (sound_count _ _ fun n => sound_times hstep n ∅).mono ?_
  rintro enc map ⟨n, e, rfl, entries, rfl, rfl, rfl⟩
  exact ⟨entries, rfl, rfl⟩

section List

variable {α W : Type} {element : ByteDecoder α} {enc : W → Bytes} {dec : W → α} {minSize : ℕ}

lemma foldl_push (ws : List W) (acc : List α) :
    ws.foldl (fun acc w => acc ++ [dec w]) acc = acc ++ ws.map dec := by
  induction ws generalizing acc with
  | nil => simp
  | cons w ws ih => simp [ih]

lemma decodes_list (what : String) (hmin : 1 ≤ minSize) (ws : List W)
    (hsize : ∀ w ∈ ws, minSize ≤ (enc w).length) (helement : ∀ w ∈ ws, Decodes element (enc w) (dec w)) :
    Decodes (list minSize what element) (putLen ws.length ++ ws.flatMap enc) (ws.map dec) := by
  refine decodes_count hmin (length_mul_le_flatMap ws hsize) ?_
  have hstep : ∀ w ∈ ws, ∀ acc, Decodes (element >>= fun x => pure (acc ++ [x])) (enc w)
      (acc ++ [dec w]) := fun w hw acc => (helement w hw).bind_pure fun x => acc ++ [x]
  have h := decodes_times ws hstep []
  rwa [foldl_push, List.nil_append] at h

lemma sound_list (minSize : ℕ) (what : String)
    (helement : Sound element fun e x => ∃ w, e = enc w ∧ x = dec w) :
    Sound (list minSize what element) fun e xs =>
      ∃ ws : List W, e = putLen ws.length ++ ws.flatMap enc ∧ xs = ws.map dec := by
  have hstep : ∀ acc, Sound (element >>= fun x => pure (acc ++ [x])) fun e acc' =>
      ∃ w, e = enc w ∧ acc' = acc ++ [dec w] := by
    intro acc
    refine (helement.bind_pure fun x => acc ++ [x]).mono ?_
    rintro e acc' ⟨x, ⟨w, rfl, rfl⟩, rfl⟩
    exact ⟨w, rfl, rfl⟩
  refine (sound_count minSize what fun n => sound_times hstep n []).mono ?_
  rintro e xs ⟨n, e', rfl, ws, rfl, rfl, rfl⟩
  exact ⟨ws, rfl, by rw [foldl_push, List.nil_append]⟩

end List

/-! ## The payload -/

lemma decodes_node (n : NodeWire) : Decodes node n.bytes n.node := by
  have hlabels := decodes_list "label list" (by decide : 1 ≤ 8) n.labels
    (fun l _ => length_putStr l) fun l _ => decodes_string l
  rw [List.map_id'] at hlabels
  exact (decodes_u64 n.id).bind (hlabels.bind ((decodes_props n.entries).bind_pure _))

lemma sound_node : Sound node fun enc x => ∃ n : NodeWire, enc = n.bytes ∧ x = n.node := by
  have hlabel : Sound string fun enc s => ∃ l, enc = putStr l ∧ s = id l :=
    sound_string.mono fun enc s h => ⟨s, h, rfl⟩
  have hlabels := sound_list 8 "label list" hlabel
  refine (sound_u64.bind fun id => hlabels.bind fun labels => sound_props.bind_pure fun properties =>
    (⟨id, labels, properties⟩ : SNode)).mono ?_
  rintro enc x ⟨_, _, id, rfl, rfl, _, _, _, rfl, ⟨labels, rfl, rfl⟩, _, ⟨entries, rfl, rfl⟩, rfl⟩
  exact ⟨⟨id, labels, entries⟩, rfl, by rw [List.map_id, NodeWire.node]⟩

lemma decodes_edge (e : EdgeWire) : Decodes edge e.bytes e.edge :=
  (decodes_u64 e.id).bind ((decodes_string e.label).bind ((decodes_u64 e.fromNode).bind
    ((decodes_u64 e.toNode).bind ((decodes_props e.entries).bind_pure _))))

lemma sound_edge : Sound edge fun enc x => ∃ e : EdgeWire, enc = e.bytes ∧ x = e.edge := by
  refine (sound_u64.bind fun id => sound_string.bind fun label => sound_u64.bind fun fromNode =>
    sound_u64.bind fun toNode => sound_props.bind_pure fun properties =>
      (⟨id, label, fromNode, toNode, properties⟩ : SEdge)).mono ?_
  rintro enc x ⟨_, _, id, rfl, rfl, _, _, label, rfl, rfl, _, _, fromNode, rfl, rfl, _, _, toNode,
    rfl, rfl, _, ⟨entries, rfl, rfl⟩, rfl⟩
  exact ⟨⟨id, label, fromNode, toNode, entries⟩, rfl, rfl⟩

lemma decodes_index (i : SIndex) : Decodes index (putIndex i) i :=
  (decodes_string i.label).bind ((decodes_string i.property).bind ((decodes_bool i.unique).bind_pure _))

lemma sound_index : Sound index fun enc i => enc = putIndex i := by
  refine (sound_string.bind fun label => sound_string.bind fun property =>
    sound_bool.bind_pure fun unique => (⟨label, property, unique⟩ : SIndex)).mono ?_
  rintro enc i ⟨_, _, label, rfl, rfl, _, _, property, rfl, rfl, unique, rfl, rfl⟩
  rfl

lemma length_putEntries (entries : List PropertyEntry) : 8 ≤ (putEntries entries).length := by
  rw [putEntries, List.length_append, length_putLen]
  omega

lemma length_nodeBytes (n : NodeWire) : 8 + 8 + 8 ≤ n.bytes.length := by
  have hentries := length_putEntries n.entries
  simp only [NodeWire.bytes, putU64, u64Bytes, List.length_append, Bytes.length_ofNat, length_putLen]
  omega

lemma length_edgeBytes (e : EdgeWire) : 8 + 8 + 8 + 8 + 8 ≤ e.bytes.length := by
  have hentries := length_putEntries e.entries
  have hlabel := length_putStr e.label
  simp only [EdgeWire.bytes, putU64, u64Bytes, List.length_append, Bytes.length_ofNat]
  omega

lemma length_putIndex (i : SIndex) : 8 + 8 + 1 ≤ (putIndex i).length := by
  have hlabel := length_putStr i.label
  have hproperty := length_putStr i.property
  simp only [putIndex, putBool, List.length_append, List.length_singleton]
  omega

/-- A payload is read as its snapshot. -/
theorem decodes_snapshot (w : SnapshotWire) : Decodes snapshot w.bytes w.snapshot := by
  have hnodes := decodes_list "node list" (by decide : 1 ≤ 8 + 8 + 8) w.nodes
    (fun n _ => length_nodeBytes n) fun n _ => decodes_node n
  have hedges := decodes_list "edge list" (by decide : 1 ≤ 8 + 8 + 8 + 8 + 8) w.edges
    (fun e _ => length_edgeBytes e) fun e _ => decodes_edge e
  have hindexes := decodes_list "index list" (by decide : 1 ≤ 8 + 8 + 1) w.indexes
    (fun i _ => length_putIndex i) fun i _ => decodes_index i
  rw [List.map_id'] at hindexes
  exact hnodes.bind (hedges.bind (hindexes.bind_pure _))

/-- Only payloads are read, and reading goes wrong on no slice. -/
theorem sound_snapshot : Sound snapshot fun enc s =>
    ∃ w : SnapshotWire, enc = w.bytes ∧ s = w.snapshot := by
  have hindex : Sound index fun enc i => ∃ j, enc = putIndex j ∧ i = id j :=
    sound_index.mono fun enc i h => ⟨i, h, rfl⟩
  have hindexes := sound_list (8 + 8 + 1) "index list" hindex
  refine ((sound_list (8 + 8 + 8) "node list" sound_node).bind fun nodes =>
    (sound_list (8 + 8 + 8 + 8 + 8) "edge list" sound_edge).bind fun edges =>
      hindexes.bind_pure fun indexes => (⟨nodes, edges, indexes⟩ : SSnapshot)).mono ?_
  rintro enc s ⟨_, _, _, rfl, ⟨nodes, rfl, rfl⟩, _, _, _, rfl, ⟨edges, rfl, rfl⟩, _,
    ⟨indexes, rfl, rfl⟩, rfl⟩
  exact ⟨⟨nodes, edges, indexes⟩, rfl, by rw [List.map_id, SnapshotWire.snapshot]⟩

/-! ## Snapshots and payloads -/

lemma lookup_collectProps {entries : List PropertyEntry} (h : entries.NodupKeys) (key : String) :
    (collectProps entries).lookup key = entries.dlookup key := by
  refine (HashMap.lookup_foldl_insert entries h ∅ key).trans ?_
  rw [AList.lookup_empty, Option.or_none]

/-- A snapshot with its maps written out in their iteration order. -/
def toWire (s : SSnapshot) : SnapshotWire :=
  ⟨s.nodes.map fun n => ⟨n.id, n.labels, n.properties.entries⟩,
    s.edges.map fun e => ⟨e.id, e.label, e.fromNode, e.toNode, e.properties.entries⟩, s.indexes⟩

lemma bytes_toWire (s : SSnapshot) : (toWire s).bytes = encode s := by
  simp only [SnapshotWire.bytes, encode, toWire, List.length_map, List.flatMap_map]
  rfl

/-- Reading a snapshot back gives it up to the order of its maps. -/
lemma same_snapshot_toWire (s : SSnapshot) : s.Same (toWire s).snapshot := by
  refine ⟨?_, ?_, rfl⟩
  · simp only [toWire, SnapshotWire.snapshot, List.map_map, List.forall₂_map_right_iff]
    exact List.forall₂_same.mpr fun n _ =>
      ⟨rfl, rfl, fun key => (lookup_collectProps n.properties.nodupKeys key).symm⟩
  · simp only [toWire, SnapshotWire.snapshot, List.map_map, List.forall₂_map_right_iff]
    exact List.forall₂_same.mpr fun e _ =>
      ⟨rfl, rfl, rfl, rfl, fun key => (lookup_collectProps e.properties.nodupKeys key).symm⟩

/-- A payload without repeated keys is the encoding of what is read from it, with the maps in some
iteration order. -/
lemma SnapshotWire.NoDuplicates.exists_encode {w : SnapshotWire} (h : w.NoDuplicates) :
    ∃ s, w.snapshot.Same s ∧ w.bytes = encode s := by
  have hnodes : ∀ ns : List NodeWire, (∀ n ∈ ns, n.entries.NodupKeys) →
      ∃ ns', List.Forall₂ SNode.Same (ns.map NodeWire.node) ns' ∧ ns'.length = ns.length ∧
        ns'.flatMap putNode = ns.flatMap NodeWire.bytes := by
    intro ns hns
    induction ns with
    | nil => exact ⟨[], .nil, rfl, rfl⟩
    | cons n ns ih =>
      rw [List.forall_mem_cons] at hns
      obtain ⟨ns', hsame, hlen, hbytes⟩ := ih hns.2
      refine ⟨⟨n.id, n.labels, ⟨n.entries, hns.1⟩⟩ :: ns',
        .cons ⟨rfl, rfl, lookup_collectProps hns.1⟩ hsame, by simp [hlen], ?_⟩
      rw [List.flatMap_cons, List.flatMap_cons, hbytes]
      rfl
  have hedges : ∀ es : List EdgeWire, (∀ e ∈ es, e.entries.NodupKeys) →
      ∃ es', List.Forall₂ SEdge.Same (es.map EdgeWire.edge) es' ∧ es'.length = es.length ∧
        es'.flatMap putEdge = es.flatMap EdgeWire.bytes := by
    intro es hes
    induction es with
    | nil => exact ⟨[], .nil, rfl, rfl⟩
    | cons e es ih =>
      rw [List.forall_mem_cons] at hes
      obtain ⟨es', hsame, hlen, hbytes⟩ := ih hes.2
      refine ⟨⟨e.id, e.label, e.fromNode, e.toNode, ⟨e.entries, hes.1⟩⟩ :: es',
        .cons ⟨rfl, rfl, rfl, rfl, lookup_collectProps hes.1⟩ hsame, by simp [hlen], ?_⟩
      rw [List.flatMap_cons, List.flatMap_cons, hbytes]
      rfl
  obtain ⟨ns, hns, hnlen, hnbytes⟩ := hnodes w.nodes h.1
  obtain ⟨es, hes, helen, hebytes⟩ := hedges w.edges h.2
  refine ⟨⟨ns, es, w.indexes⟩, ⟨hns, hes, rfl⟩, ?_⟩
  rw [SnapshotWire.bytes, encode, hnlen, hnbytes, helen, hebytes]

/-! ## Decoding -/

/-- A payload with bytes behind it is read up to these. -/
lemma decode_bytes_append (w : SnapshotWire) {q : Bytes} (hlimit : (w.bytes ++ q).length ≤ sliceLimit) :
    decode (w.bytes ++ q) =
      if q = [] then .ok w.snapshot
      else .error (.message (toString q.length ++ " trailing byte(s) after the snapshot")) := by
  obtain ⟨allocations, hrun⟩ := decodes_snapshot w (w.bytes ++ q) Cursor.start q hlimit
    (Nat.zero_le _) (by simp [Cursor.start])
  have hpos : Cursor.start.pos + w.bytes.length = w.bytes.length := Nat.zero_add _
  rw [decode, decodeRun, hrun, hpos]
  by_cases hq : q = []
  · subst hq
    simp
  · have hne : w.bytes.length ≠ (w.bytes ++ q).length := by
      have := List.length_pos_of_ne_nil hq
      rw [List.length_append]
      omega
    rw [if_neg hq]
    simp only [if_pos hne]
    rw [List.length_append, Nat.add_sub_cancel_left]

/-- On every slice: no panic, only justified allocations, and only payloads are accepted. -/
lemma decodeRun_cases {b : Bytes} (hlimit : b.length ≤ sliceLimit) :
    (∀ a ∈ (decodeRun b).2.allocations, a.Justified) ∧
    ((∃ text, decode b = .error (.message text)) ∨
      ∃ w : SnapshotWire, b = w.bytes ∧ decode b = .ok w.snapshot) := by
  obtain ⟨hjust, hres⟩ := sound_snapshot b Cursor.start hlimit (Nat.zero_le _)
    (by simp [Cursor.start])
  rw [decode, decodeRun]
  rcases hrun : snapshot b Cursor.start with ⟨e | s, c⟩
  · rw [hrun] at hjust hres
    refine ⟨hjust, Or.inl ?_⟩
    cases e with
    | message text => exact ⟨text, rfl⟩
    | panic => exact absurd rfl hres
  · rw [hrun] at hjust hres
    obtain ⟨hle, enc, hdrop, w, rfl, rfl⟩ := hres
    simp only
    by_cases hpos : c.pos = b.length
    · have hnot : ¬ c.pos ≠ b.length := not_not.mpr hpos
      rw [if_neg hnot]
      refine ⟨hjust, Or.inr ⟨w, ?_, rfl⟩⟩
      simpa [Cursor.start, hpos] using hdrop
    · rw [if_pos hpos]
      exact ⟨hjust, Or.inl ⟨_, rfl⟩⟩

end SnapshotCodec

open SnapshotCodec in
/-- The snapshot codec.  A snapshot whose encoding fits into a slice is decoded from it, up to the
iteration order of its maps.  Whatever is accepted is a payload, and without repeated property keys
it is an encoding of the value returned.  An encoding with its end missing, or with bytes behind it,
is rejected with a message.  On no slice does the decoder panic or allocate more elements than the
bytes left over justify. -/
theorem snapshot_codec_exact :
    (∀ s : SSnapshot, (encode s).length ≤ sliceLimit → ∃ s', decode (encode s) = .ok s' ∧ s.Same s') ∧
    (∀ (b : Bytes) (s : SSnapshot), b.length ≤ sliceLimit → decode b = .ok s →
      (∃ w : SnapshotWire, b = w.bytes) ∧
      ∀ w : SnapshotWire, b = w.bytes → w.snapshot = s ∧
        (w.NoDuplicates → ∃ s', s.Same s' ∧ b = encode s')) ∧
    (∀ (s : SSnapshot) (p q : Bytes), (encode s).length ≤ sliceLimit → encode s = p ++ q → q ≠ [] →
      ∃ text, decode p = .error (.message text)) ∧
    (∀ (s : SSnapshot) (q : Bytes), (encode s ++ q).length ≤ sliceLimit → q ≠ [] →
      ∃ text, decode (encode s ++ q) = .error (.message text)) ∧
    ∀ b : Bytes, b.length ≤ sliceLimit →
      decode b ≠ .error .panic ∧ ∀ a ∈ (decodeRun b).2.allocations, a.Justified := by
  have hread : ∀ w : SnapshotWire, w.bytes.length ≤ sliceLimit → decode w.bytes = .ok w.snapshot := by
    intro w hlimit
    have h := decode_bytes_append w (q := []) (by simpa using hlimit)
    rwa [List.append_nil, if_pos rfl] at h
  refine ⟨fun s hlimit => ?_, fun b s hlimit hok => ⟨?_, ?_⟩, fun s p q hlimit hpq hq => ?_,
    fun s q hlimit hq => ?_, fun b hlimit => ?_⟩
  · rw [← bytes_toWire] at hlimit ⊢
    exact ⟨_, hread _ hlimit, same_snapshot_toWire s⟩
  · rcases (decodeRun_cases hlimit).2 with ⟨text, herr⟩ | ⟨w, hw, -⟩
    · rw [hok] at herr
      cases herr
    · exact ⟨w, hw⟩
  · rintro w rfl
    obtain rfl : w.snapshot = s := Except.ok.inj ((hread w hlimit).symm.trans hok)
    exact ⟨rfl, fun hnodup => hnodup.exists_encode⟩
  · -- two payloads, one in front of the other, would be read from the same slice
    rw [← bytes_toWire] at hlimit hpq
    have hple : p.length ≤ sliceLimit := by
      rw [hpq, List.length_append] at hlimit
      omega
    rcases (decodeRun_cases hple).2 with herr | ⟨w, rfl, -⟩
    · exact herr
    · exact absurd ((decodes_snapshot _).prefix_free (decodes_snapshot w) hlimit hpq) hq
  · rw [← bytes_toWire] at hlimit ⊢
    have hread' := decode_bytes_append _ hlimit
    rw [if_neg hq] at hread'
    exact ⟨_, hread'⟩
  · obtain ⟨hjust, hcases⟩ := decodeRun_cases hlimit
    refine ⟨fun hpanic => ?_, hjust⟩
    rcases hcases with ⟨text, herr⟩ | ⟨w, -, hok⟩
    · rw [hpanic] at herr
      cases herr
    · rw [hpanic] at hok
      cases hok

open SnapshotCodec in
/-- A node with two labels and a loop. -/
theorem snapshot_codec_exact_loop :
    ∃ s', decode (encode ⟨[⟨7, ["A", "B"], ∅⟩], [⟨3, "R", 7, 7, ∅⟩], []⟩) = .ok s' ∧
      SSnapshot.Same ⟨[⟨7, ["A", "B"], ∅⟩], [⟨3, "R", 7, 7, ∅⟩], []⟩ s' :=
  snapshot_codec_exact.1 _ (by decide +kernel)

end Maharit
