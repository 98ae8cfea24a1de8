import MaharitDb.Lib.Framing
import MaharitDb.Server.TcpServer

/-!
# Messages on a client connection

`read_message` and the loop of `handle_connection` (`maharit-server/src/tcp_server.rs`).  A message
comes after its length in four bytes; a length above the limit is an error, and the loop answers an
error and goes on.  The length is still at the start of the buffer then, so every further iteration
gives the same error: the loop ends exactly when no such length is reached, the client disconnects
before it, or the connection is ended from outside (`framing_and_termination`).  What the answers to
the requests are is left out: they do not touch the buffer.
-/

namespace Maharit

open FrameFormat

/-- The longest message that is accepted, 64 MiB. -/
def maxMessageSize : ℕ := 64 * 1024 * 1024

/-- `u32::from_be_bytes`. -/
def u32FromBeBytes (b₀ b₁ b₂ b₃ : UInt8) : ℕ :=
  ((b₀.toNat * 256 + b₁.toNat) * 256 + b₂.toNat) * 256 + b₃.toNat

/-- Is there a complete message in the buffer? -/
def checkMessage : List UInt8 → FrameCheck UInt8 (List UInt8)
  | b₀ :: b₁ :: b₂ :: b₃ :: rest =>
      let len := u32FromBeBytes b₀ b₁ b₂ b₃
      if len > maxMessageSize then .refused
      else if rest.length ≥ len then .complete (rest.take len) (rest.drop len)
      else .incomplete
  | _ => .incomplete

/-- The four bytes of the length are there unless the check says that more is needed. -/
lemma checkMessage_cases (b : List UInt8) :
    checkMessage b = .incomplete ∨ ∃ b₀ b₁ b₂ b₃ rest, b = b₀ :: b₁ :: b₂ :: b₃ :: rest := by
  rcases b with _ | ⟨b₀, _ | ⟨b₁, _ | ⟨b₂, _ | ⟨b₃, rest⟩⟩⟩⟩
  · exact .inl rfl
  · exact .inl rfl
  · exact .inl rfl
  · exact .inl rfl
  · exact .inr ⟨b₀, b₁, b₂, b₃, rest, rfl⟩

/-- The format of the messages. -/
def messageFormat : FrameFormat UInt8 (List UInt8) where
  check := checkMessage
  complete_append := by
    intro b m rest h x
    rcases checkMessage_cases b with hb | ⟨b₀, b₁, b₂, b₃, tail, rfl⟩
    · rw [hb] at h
      cases h
    · simp only [checkMessage, List.cons_append] at h ⊢
      split at h
      · cases h
      · next hlimit =>
        split at h
        · next hlen =>
          injection h with hm hrest
          subst hm hrest
          rw [if_neg hlimit, if_pos (by rw [List.length_append]; omega),
            List.take_append_of_le_length hlen, List.drop_append_of_le_length hlen]
        · cases h
  refused_append := by
    intro b h x
    rcases checkMessage_cases b with hb | ⟨b₀, b₁, b₂, b₃, tail, rfl⟩
    · rw [hb] at h
      cases h
    · simp only [checkMessage, List.cons_append] at h ⊢
      split at h
      · next hlimit => rw [if_pos hlimit]
      · split at h <;> cases h
  shorter := by
    intro b m rest h
    rcases checkMessage_cases b with hb | ⟨b₀, b₁, b₂, b₃, tail, rfl⟩
    · rw [hb] at h
      cases h
    · simp only [checkMessage] at h
      split at h
      · cases h
      · split at h
        · injection h with hm hrest
          subst hrest
          simp only [List.length_drop, List.length_cons]
          omega
        · cases h

/-- Why a read fails. -/
inductive ReadError where
  | timedOut
  | io
  deriving DecidableEq, Repr

/-- A client connection: the buffer, and the reads that are still to come before the client closes
it. -/
structure ClientConnection where
  buffer : List UInt8
  reads : List (Read UInt8 ReadError)

/-- `read_message`. -/
def readMessage (c : ClientConnection) :
    Pulled (List UInt8) ReadError × List UInt8 × List (Read UInt8 ReadError) :=
  messageFormat.pull c.buffer c.reads

namespace ClientConnection

section

-- the parser of requests
variable (fromSlice : List UInt8 → Option Request)

/-- One iteration of the loop of `handle_connection`; nothing is left when the loop ends. -/
def iteration (c : ClientConnection) : Option ClientConnection :=
  match readMessage c with
  | (.message m, buffer, reads) =>
      match fromSlice m with
      | some .disconnect => none
      | _ => some ⟨buffer, reads⟩
  | (.closed, _, _) => none
  -- the error is answered and the loop goes on
  | (.refused, buffer, reads) => some ⟨buffer, reads⟩
  | (.failed _, buffer, reads) => some ⟨buffer, reads⟩

/-- The connection after some iterations; `ended i` says that the server is shut down during the
iteration `i`, or that its answer cannot be sent. -/
def after (ended : ℕ → Bool) (c : ClientConnection) : ℕ → Option ClientConnection
  | 0 => some c
  | n + 1 => (c.after ended n).bind fun c => if ended n then none else c.iteration fromSlice

/-- The loop ends. -/
def Terminates (ended : ℕ → Bool) (c : ClientConnection) : Prop :=
  ∃ n, c.after fromSlice ended n = none

/-- What is left of the stream. -/
def rest (c : ClientConnection) : List UInt8 := c.buffer ++ Read.stream c.reads

/-- The loop is over before a length above the limit is reached: none is, or the client disconnects
first. -/
def EndsInTime (b : List UInt8) : Prop :=
  (messageFormat.decode b).2 = false ∨
    ∃ m ∈ (messageFormat.decode b).1, fromSlice m = some .disconnect

end

variable {fromSlice : List UInt8 → Option Request}

/-- An iteration that does not end the loop, before a length above the limit is reached, takes
something off the input; one that does not end it after that leaves it there. -/
lemma iteration_some {c c' : ClientConnection} (h : c.iteration fromSlice = some c') :
    (EndsInTime fromSlice c.rest ↔ EndsInTime fromSlice c'.rest) ∧
      (EndsInTime fromSlice c.rest → size c'.buffer c'.reads < size c.buffer c.reads) := by
  have hpull := messageFormat.pulls_pull c.buffer c.reads
  unfold iteration readMessage at h
  generalize messageFormat.pull c.buffer c.reads = out at h hpull
  cases hpull with
  | message m buffer reads hdecode hsize =>
    have hdisconnect : fromSlice m ≠ some .disconnect := by
      intro hm
      simp [hm] at h
    have hnext : some ⟨buffer, reads⟩ = some c' := by simpa [hdisconnect] using h
    cases hnext
    refine ⟨?_, fun _ => hsize⟩
    unfold EndsInTime rest
    rw [hdecode]
    simp [hdisconnect]
  | closed buffer hdecode => cases h
  | refused buffer reads hdecode hsame =>
    cases h
    have hrest : rest ⟨buffer, reads⟩ = c.rest := hsame
    refine ⟨by rw [hrest], fun hends => ?_⟩
    unfold EndsInTime rest at hends
    rw [hdecode] at hends
    simp at hends
  | failed e buffer reads hsame hsize =>
    cases h
    have hrest : rest ⟨buffer, reads⟩ = c.rest := hsame
    exact ⟨by rw [hrest], fun _ => hsize⟩

/-- An iteration ends the loop only in time. -/
lemma iteration_none {c : ClientConnection} (h : c.iteration fromSlice = none) :
    EndsInTime fromSlice c.rest := by
  have hpull := messageFormat.pulls_pull c.buffer c.reads
  unfold iteration readMessage at h
  generalize messageFormat.pull c.buffer c.reads = out at h hpull
  unfold EndsInTime rest
  cases hpull with
  | message m buffer reads hdecode hsize =>
    have hdisconnect : fromSlice m = some .disconnect := by
      simp only at h
      split at h
      · next hm => exact hm
      · cases h
    rw [hdecode]
    exact .inr ⟨m, by simp, hdisconnect⟩
  | closed buffer hdecode => exact .inl (by rw [hdecode])
  | refused buffer reads hdecode hsame => cases h
  | failed e buffer reads hsame hsize => cases h

variable {ended : ℕ → Bool} {c : ClientConnection}

/-- After some iterations the loop is still in time exactly when it was at the start, and in time each
iteration has taken something off the input. -/
lemma after_some {n : ℕ} {c' : ClientConnection} (h : c.after fromSlice ended n = some c') :
    (EndsInTime fromSlice c.rest ↔ EndsInTime fromSlice c'.rest) ∧
      (EndsInTime fromSlice c.rest → size c'.buffer c'.reads + n ≤ size c.buffer c.reads) := by
  induction n generalizing c' with
  | zero =>
    cases h
    exact ⟨Iff.rfl, fun _ => le_rfl⟩
  | succ n ih =>
    obtain ⟨c₁, hc₁, hstep⟩ := Option.bind_eq_some_iff.mp h
    obtain ⟨hiff, hsize⟩ := ih hc₁
    split at hstep
    · cases hstep
    · obtain ⟨hiff', hsize'⟩ := iteration_some hstep
      refine ⟨hiff.trans hiff', fun hends => ?_⟩
      have hfirst := hsize hends
      have hlast := hsize' (hiff.mp hends)
      omega

/-- The loop ends exactly when it ends in time or is ended from outside. -/
theorem terminates_iff :
    c.Terminates fromSlice ended ↔ EndsInTime fromSlice c.rest ∨ ∃ n, ended n := by
  constructor
  · rintro ⟨n, hn⟩
    induction n with
    | zero => cases hn
    | succ n ih =>
      cases hprev : c.after fromSlice ended n with
      | none => exact ih hprev
      | some c' =>
        rw [after, hprev, Option.bind_some] at hn
        split at hn
        · next hended => exact .inr ⟨n, hended⟩
        · exact .inl ((after_some hprev).1.mpr (iteration_none hn))
  · rintro (hends | ⟨n, hended⟩)
    · by_contra hnever
      obtain ⟨c', hc'⟩ : ∃ c', c.after fromSlice ended (size c.buffer c.reads + 1) = some c' :=
        Option.ne_none_iff_exists'.mp fun hnone => hnever ⟨_, hnone⟩
      have hsize := (after_some hc').2 hends
      omega
    · refine ⟨n + 1, ?_⟩
      rw [after]
      cases c.after fromSlice ended n with
      | none => rfl
      | some c' => simp [hended]

/-- Whatever the reads: the messages are those of the whole stream at once, and the loop ends, exactly
when no length above the limit is reached, or the client disconnects before it, or the server is shut
down or an answer cannot be sent. -/
theorem framing_and_termination (fromSlice : List UInt8 → Option Request) (ended : ℕ → Bool)
    (reads : List (Read UInt8 ReadError)) :
    (messageFormat.messages [] reads =
        messageFormat.messages [] (Read.whole (Read.stream reads) : List (Read UInt8 ReadError)) ∧
      Terminates fromSlice ended ⟨[], reads⟩) ↔
    EndsInTime fromSlice (Read.stream reads) ∨ ∃ n, ended n := by
  rw [and_iff_right (messageFormat.messages_eq_messages_whole reads), terminates_iff]
  rfl

/-- A length of 4 GiB - 1: the loop answers an error for ever. -/
theorem framing_oversized :
    ¬ Terminates (fun _ => none) (fun _ => false) ⟨[], [.data 255 [255, 255, 255]]⟩ := by
  have hstuck : ∀ n, after (fun _ => none) (fun _ => false) ⟨[], [.data 255 [255, 255, 255]]⟩ (n + 1) =
      some ⟨[255, 255, 255, 255], []⟩ := by
    intro n
    induction n with
    | zero => rfl
    | succ n ih =>
      rw [after, ih]
      rfl
  rintro ⟨n, hn⟩
  cases n with
  | zero => cases hn
  | succ n =>
    rw [hstuck] at hn
    cases hn

end ClientConnection

end Maharit
