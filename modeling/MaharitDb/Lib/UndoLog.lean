import MaharitDb.Lib.GuardedRun

/-!
# Undo logs

A system changes a state step by step and keeps, for every step, a list of records from which the
step can be taken back.  Rolling back replays the records newest first.

The state is compared through an abstraction function `abs`, since an undo rarely restores the whole
state (counters advance, iteration orders change), and replay is only meaningful on states that
satisfy an invariant `Inv`.  The two rules below are what a rollback proof needs: logs compose, and a
run whose steps are inverted is inverted as a whole.
-/

namespace UndoLog

open GuardedRun

variable {S R A C : Type*}

/-- Replay a log newest record first. -/
def replay (undo : S → R → S) (s : S) (log : List R) : S := log.reverse.foldl undo s

@[simp] theorem replay_nil (undo : S → R → S) (s : S) : replay undo s [] = s := rfl

@[simp] theorem replay_singleton (undo : S → R → S) (s : S) (r : R) :
    replay undo s [r] = undo s r := rfl

/-- The later part of a log is replayed first. -/
theorem replay_append (undo : S → R → S) (s : S) (log log' : List R) :
    replay undo s (log ++ log') = replay undo (replay undo s log') log := by
  simp [replay]

/-- The log takes every invariant state that looks like `post` back to one that looks like `pre`. -/
def Inverts (undo : S → R → S) (abs : S → A) (Inv : S → Prop) (log : List R) (post pre : A) :
    Prop :=
  ∀ s, Inv s → abs s = post → Inv (replay undo s log) ∧ abs (replay undo s log) = pre

variable {undo : S → R → S} {abs : S → A} {Inv : S → Prop}

/-- The empty log takes nothing back. -/
theorem inverts_nil (a : A) : Inverts undo abs Inv [] a a :=
  fun _ hs ha => ⟨hs, ha⟩

/-- A log of one record is judged by that record. -/
theorem inverts_singleton {r : R} {post pre : A}
    (h : ∀ s, Inv s → abs s = post → Inv (undo s r) ∧ abs (undo s r) = pre) :
    Inverts undo abs Inv [r] post pre := h

/-- Logs compose. -/
theorem Inverts.append {log log' : List R} {a b c : A} (h : Inverts undo abs Inv log b a)
    (h' : Inverts undo abs Inv log' c b) : Inverts undo abs Inv (log ++ log') c a := by
  intro s hs hc
  rw [replay_append]
  obtain ⟨hs', hb⟩ := h' s hs hc
  exact h _ hs' hb

/-- The records a run leaves behind, in the order of its steps. -/
def runRecords (step : S → C → S) (records : S → C → List R) : S → List C → List R
  | _, [] => []
  | s, c :: cs => records s c ++ runRecords step records (step s c) cs

/-- The records of a run are those of its first part and then those of its second part. -/
theorem runRecords_append (step : S → C → S) (records : S → C → List R) (s : S) (cs cs' : List C) :
    runRecords step records s (cs ++ cs') =
      runRecords step records s cs ++ runRecords step records (cs.foldl step s) cs' := by
  induction cs generalizing s with
  | nil => rfl
  | cons c cs ih => simp [runRecords, ih]

/-- When the records of every guarded step invert it, the records of a guarded run invert the
run. -/
theorem inverts_run {step : S → C → S} {guard : S → C → Prop} {records : S → C → List R}
    (hinv : ∀ s c, Inv s → guard s c → Inv (step s c))
    (hstep : ∀ s c, Inv s → guard s c →
      Inverts undo abs Inv (records s c) (abs (step s c)) (abs s))
    {s : S} (hs : Inv s) {cs : List C} (hcs : Along step guard s cs) :
    Inverts undo abs Inv (runRecords step records s cs) (abs (cs.foldl step s)) (abs s) := by
  induction cs generalizing s with
  | nil => exact inverts_nil _
  | cons c cs ih => exact (hstep s c hs hcs.1).append (ih (hinv s c hs hcs.1) hcs.2)

end UndoLog
