import Mathlib.Tactic

/-!
# Reading frames from a stream in pieces

A frame format says what it sees at the start of a buffer: a complete frame, the beginning of one, or
something it refuses; more bytes do not change what is complete or refused.  A reader keeps a buffer
and takes reads off its input until it has a frame.  `messages_eq` says that the frames it yields
depend only on the bytes, not on how they were split into reads or on the failed reads in between.
-/

/-- What stands at the start of a buffer. -/
inductive FrameCheck (β M : Type*) where
  /-- A complete frame, and what follows it. -/
  | complete (m : M) (rest : List β)
  | incomplete
  | refused

/-- A frame format. -/
structure FrameFormat (β M : Type*) where
  check : List β → FrameCheck β M
  complete_append : ∀ {b m rest}, check b = .complete m rest → ∀ x,
    check (b ++ x) = .complete m (rest ++ x)
  refused_append : ∀ {b}, check b = .refused → ∀ x, check (b ++ x) = .refused
  shorter : ∀ {b m rest}, check b = .complete m rest → rest.length < b.length

/-- A read: at least one element, or a failure. -/
inductive Read (β ε : Type*) where
  | data (b : β) (bs : List β)
  | failed (e : ε)

/-- What a call of the reader returns. -/
inductive Pulled (M ε : Type*) where
  | message (m : M)
  /-- The input is at its end. -/
  | closed
  | refused
  | failed (e : ε)

namespace Read

variable {β ε : Type*}

/-- The elements of a read. -/
def bytes : Read β ε → List β
  | data b bs => b :: bs
  | failed _ => []

/-- The elements of all reads. -/
def stream (reads : List (Read β ε)) : List β := reads.flatMap bytes

/-- All elements in one read. -/
def whole : List β → List (Read β ε)
  | [] => []
  | b :: bs => [data b bs]

@[simp] lemma stream_nil : stream ([] : List (Read β ε)) = [] := rfl

@[simp] lemma stream_cons (r : Read β ε) (reads : List (Read β ε)) :
    stream (r :: reads) = r.bytes ++ stream reads := rfl

@[simp] lemma stream_whole (l : List β) : stream (whole l : List (Read β ε)) = l := by
  cases l <;> simp [whole, bytes]

/-- The elements in reads of the given lengths (of one more, as no read is empty); what is left in one read. -/
def cut : List ℕ → List β → List (Read β ε)
  | _, [] => []
  | [], b :: bs => [data b bs]
  | n :: ns, b :: bs => data b (bs.take n) :: cut ns (bs.drop n)

@[simp] lemma stream_cut (ns : List ℕ) (l : List β) : stream (cut ns l : List (Read β ε)) = l := by
  induction ns generalizing l with
  | nil => rcases l with _ | ⟨b, bs⟩ <;> simp [cut, bytes]
  | cons n ns ih => rcases l with _ | ⟨b, bs⟩ <;> simp [cut, bytes, ih]

/-- No read fails. -/
def Succeed (reads : List (Read β ε)) : Prop := ∀ e, failed e ∉ reads

lemma succeed_cut (ns : List ℕ) (l : List β) : Succeed (cut ns l : List (Read β ε)) := by
  induction ns generalizing l with
  | nil => rcases l with _ | ⟨b, bs⟩ <;> simp [cut, Succeed]
  | cons n ns ih =>
    rcases l with _ | ⟨b, bs⟩
    · simp [cut, Succeed]
    · intro e he
      rcases List.mem_cons.mp he with he | he
      · cases he
      · exact ih (bs.drop n) e he

/-- Without failed reads, nothing is left to be read when there are no elements. -/
lemma Succeed.eq_nil {reads : List (Read β ε)} (h : Succeed reads) (hstream : stream reads = []) : reads = [] := by
  rcases reads with _ | ⟨⟨b, bs⟩ | e, reads⟩
  · rfl
  · cases hstream
  · exact absurd List.mem_cons_self (h e)

end Read

namespace FrameFormat

open Read

variable {β M ε : Type*} (F : FrameFormat β M)

/-- The frames at the start of a stream, and whether a refused frame comes after them. -/
def decode (b : List β) : List M × Bool :=
  match _h : F.check b with
  | .complete m rest => (m :: (decode rest).1, (decode rest).2)
  | .incomplete => ([], false)
  | .refused => ([], true)
termination_by b.length
decreasing_by all_goals exact F.shorter _h

/-- One call of the reader. -/
def pull (buffer : List β) : List (Read β ε) → Pulled M ε × List β × List (Read β ε)
  | [] =>
      match F.check buffer with
      | .complete m rest => (.message m, rest, [])
      | .refused => (.refused, buffer, [])
      | .incomplete => (.closed, buffer, [])
  | r :: reads =>
      match F.check buffer with
      | .complete m rest => (.message m, rest, r :: reads)
      | .refused => (.refused, buffer, r :: reads)
      | .incomplete =>
          match r with
          | .data b bs => pull (buffer ++ b :: bs) reads
          | .failed e => (.failed e, buffer, reads)

/-- How much is still to be read: every read and every element counts. -/
def size (buffer : List β) (reads : List (Read β ε)) : ℕ :=
  buffer.length + (stream reads).length + reads.length

variable {F}

lemma decode_of_complete {b : List β} {m : M} {rest : List β} (h : F.check b = .complete m rest) :
    F.decode b = (m :: (F.decode rest).1, (F.decode rest).2) := by
  rw [decode]
  split
  · next m' rest' h' =>
    rw [h] at h'
    cases h'
    rfl
  · next h' => simp [h] at h'
  · next h' => simp [h] at h'

lemma decode_of_incomplete {b : List β} (h : F.check b = .incomplete) : F.decode b = ([], false) := by
  rw [decode]
  split <;> simp_all

lemma decode_of_refused {b : List β} (h : F.check b = .refused) : F.decode b = ([], true) := by
  rw [decode]
  split <;> simp_all

/-- What a call of the reader does to the stream that is left: a message is its first frame, the end
and a refusal are those of the stream, and a failed read is left out. -/
inductive Pulls (F : FrameFormat β M) (buffer : List β) (reads : List (Read β ε)) :
    Pulled M ε × List β × List (Read β ε) → Prop
  | message (m : M) (buffer' : List β) (reads' : List (Read β ε))
      (hdecode : F.decode (buffer ++ stream reads) =
        (m :: (F.decode (buffer' ++ stream reads')).1, (F.decode (buffer' ++ stream reads')).2))
      (hsize : size buffer' reads' < size buffer reads) :
      Pulls F buffer reads (.message m, buffer', reads')
  | closed (buffer' : List β) (hdecode : F.decode (buffer ++ stream reads) = ([], false)) :
      Pulls F buffer reads (.closed, buffer', [])
  | refused (buffer' : List β) (reads' : List (Read β ε))
      (hdecode : F.decode (buffer ++ stream reads) = ([], true))
      (hsame : buffer' ++ stream reads' = buffer ++ stream reads) :
      Pulls F buffer reads (.refused, buffer', reads')
  | failed (e : ε) (buffer' : List β) (reads' : List (Read β ε))
      (hsame : buffer' ++ stream reads' = buffer ++ stream reads)
      (hsize : size buffer' reads' < size buffer reads) :
      Pulls F buffer reads (.failed e, buffer', reads')

/-- The reader takes one more read. -/
lemma Pulls.data {buffer : List β} {b : β} {bs : List β} {reads : List (Read β ε)}
    {out : Pulled M ε × List β × List (Read β ε)} (h : Pulls F (buffer ++ b :: bs) reads out) :
    Pulls F buffer (.data b bs :: reads) out := by
  have hstream : (buffer ++ b :: bs) ++ stream reads = buffer ++ stream (.data b bs :: reads) := by
    simp [bytes]
  have hsize : size (buffer ++ b :: bs) reads < size buffer (.data b bs :: reads) := by
    simp only [size, stream_cons, bytes, List.length_append, List.length_cons]
    omega
  cases h with
  | message m buffer' reads' hdecode hless =>
    exact .message m buffer' reads' (hstream ▸ hdecode) (hless.trans hsize)
  | closed buffer' hdecode => exact .closed buffer' (hstream ▸ hdecode)
  | refused buffer' reads' hdecode hsame =>
    exact .refused buffer' reads' (hstream ▸ hdecode) (hsame.trans hstream)
  | failed e buffer' reads' hsame hless =>
    exact .failed e buffer' reads' (hsame.trans hstream) (hless.trans hsize)

/-- What one call of the reader does. -/
theorem pulls_pull (F : FrameFormat β M) (buffer : List β) (reads : List (Read β ε)) :
    Pulls F buffer reads (F.pull buffer reads) := by
  induction reads generalizing buffer with
  | nil =>
    unfold pull
    cases hcheck : F.check buffer with
    | complete m rest =>
      refine .message m rest [] ?_ ?_
      · simp only [stream_nil, List.append_nil]
        exact decode_of_complete hcheck
      · simpa [size] using F.shorter hcheck
    | incomplete =>
      refine .closed buffer ?_
      rw [stream_nil, List.append_nil]
      exact decode_of_incomplete hcheck
    | refused =>
      refine .refused buffer [] ?_ rfl
      rw [stream_nil, List.append_nil]
      exact decode_of_refused hcheck
  | cons r reads ih =>
    unfold pull
    cases hcheck : F.check buffer with
    | complete m rest =>
      refine .message m rest (r :: reads) ?_ ?_
      · exact decode_of_complete (F.complete_append hcheck _)
      · have hshorter := F.shorter hcheck
        simp only [size]
        omega
    | refused => exact .refused buffer (r :: reads) (decode_of_refused (F.refused_append hcheck _)) rfl
    | incomplete =>
      cases r with
      | data b bs => exact (ih (buffer ++ b :: bs)).data
      | failed e =>
        refine .failed e buffer reads ?_ ?_
        · simp [bytes]
        · simp [size, bytes]

variable (F)

/-- The messages that repeated calls of the reader yield; a refusal changes nothing, so it comes again
for ever. -/
def messages (buffer : List β) (reads : List (Read β ε)) : List M :=
  match _h : F.pull buffer reads with
  | (.message m, buffer', reads') => m :: messages buffer' reads'
  | (.failed _, buffer', reads') => messages buffer' reads'
  | (.closed, _, _) => []
  | (.refused, _, _) => []
termination_by size buffer reads
decreasing_by
  · have hpull := F.pulls_pull buffer reads
    rw [_h] at hpull
    cases hpull with
    | message _ _ _ _ hsize => exact hsize
  · have hpull := F.pulls_pull buffer reads
    rw [_h] at hpull
    cases hpull with
    | failed _ _ _ _ hsize => exact hsize

/-- The messages depend only on the bytes of the stream. -/
theorem messages_eq (buffer : List β) (reads : List (Read β ε)) :
    F.messages buffer reads = (F.decode (buffer ++ stream reads)).1 := by
  induction hn : size buffer reads using Nat.strong_induction_on generalizing buffer reads with
  | _ n ih =>
    subst hn
    have hpull := F.pulls_pull buffer reads
    rw [messages]
    split
    · next h =>
      rw [h] at hpull
      cases hpull with
      | message m _ _ hdecode hsize => rw [ih _ hsize _ _ rfl, hdecode]
    · next h =>
      rw [h] at hpull
      cases hpull with
      | failed e _ _ hsame hsize => rw [ih _ hsize _ _ rfl, hsame]
    · next h =>
      rw [h] at hpull
      cases hpull with
      | closed _ hdecode => rw [hdecode]
    · next h =>
      rw [h] at hpull
      cases hpull with
      | refused _ _ hdecode => rw [hdecode]

/-- The messages are those of the whole stream at once. -/
theorem messages_eq_messages_whole (reads : List (Read β ε)) :
    F.messages [] reads = F.messages [] (whole (stream reads) : List (Read β ε)) := by
  rw [messages_eq, messages_eq, stream_whole]

variable {F}

/-- A frame that comes next is what the reader yields, whatever follows it and however it is cut into reads. -/
theorem pull_of_frame {f : List β} {m : M} (hframe : ∀ rest, F.check (f ++ rest) = .complete m rest)
    {buffer rest : List β} {reads : List (Read β ε)} (hreads : Succeed reads)
    (hstream : buffer ++ stream reads = f ++ rest) :
    ∃ buffer' reads', F.pull buffer reads = (.message m, buffer', reads') ∧ Succeed reads' ∧
      buffer' ++ stream reads' = rest := by
  have hcomplete : F.check (buffer ++ stream reads) = .complete m rest := hstream ▸ hframe rest
  clear hstream hframe
  -- What the buffer shows already is what the whole stream shows.
  have hshown : ∀ {buffer : List β} {reads : List (Read β ε)} {m' : M} {rest' : List β},
      F.check (buffer ++ stream reads) = .complete m rest → F.check buffer = .complete m' rest' →
      m' = m ∧ rest' ++ stream reads = rest := by
    intro buffer reads m' rest' hall hbuffer
    have heq := (F.complete_append hbuffer (stream reads)).symm.trans hall
    injection heq with hm hrest
    exact ⟨hm, hrest⟩
  induction reads generalizing buffer with
  | nil =>
    rw [stream_nil, List.append_nil] at hcomplete
    exact ⟨rest, [], by rw [pull, hcomplete], hreads, by simp⟩
  | cons r reads ih =>
    unfold pull
    rcases hcheck : F.check buffer with ⟨m', rest'⟩ | _ | _
    · obtain ⟨rfl, hrest⟩ := hshown hcomplete hcheck
      exact ⟨rest', r :: reads, rfl, hreads, hrest⟩
    · rcases r with ⟨b, bs⟩ | e
      · refine ih (fun e he => hreads e (List.mem_cons_of_mem _ he)) ?_
        simpa [bytes] using hcomplete
      · exact absurd List.mem_cons_self (hreads e)
    · rw [F.refused_append hcheck] at hcomplete
      cases hcomplete

end FrameFormat
