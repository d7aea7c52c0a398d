import Mathlib.Data.Option.Basic

/-!
# Scripts over a connection with transactions

A connection runs commands one after the other and stops at the first that fails.  A command that
fails has no effect itself; the engine may also undo the open transaction for it.

    a script in a transaction that stops leaves the connection as it was
      ↔ it stops at its start, or the engine undoes the transaction               (exec_eq_self_iff)
-/

namespace Coopy.Lib

inductive Command (ι : Type)
  | start
  | run (statement : ι)
  | commit
deriving DecidableEq, Repr

inductive Reply (δ : Type)
  | done (db : δ)
  | failed
  | rolledBack
deriving DecidableEq, Repr

/-- What a connection sees of its database, and what it saw when its open transaction began. -/
structure Connection (δ : Type) where
  db : δ
  saved : Option δ := none
deriving DecidableEq, Repr

/-- The command that failed; `undone` where the engine undid the transaction. -/
structure Stop (ι : Type) where
  command : Command ι
  undone : Bool
deriving DecidableEq, Repr

namespace Connection

variable {ι δ : Type} (run : Command ι → δ → Reply δ)

/-- A transaction does not begin within another, and none is committed where none is open. -/
def refuses (c : Connection δ) : Command ι → Bool
  | .start => c.saved.isSome
  | .run _ => false
  | .commit => c.saved.isNone

def step (c : Connection δ) (command : Command ι) : Connection δ × Option (Stop ι) :=
  if c.refuses command then (c, some ⟨command, false⟩)
  else
    match run command c.db with
    | .done db =>
      match command with
      | .start => (⟨c.db, some c.db⟩, none)
      | .run _ => (⟨db, c.saved⟩, none)
      | .commit => (⟨c.db, none⟩, none)
    | .failed => (c, some ⟨command, false⟩)
    | .rolledBack => (⟨c.saved.getD c.db, none⟩, some ⟨command, true⟩)

def exec : Connection δ → List (Command ι) → Connection δ × Option (Stop ι)
  | c, [] => (c, none)
  | c, command :: commands =>
    match c.step run command with
    | (c', none) => exec c' commands
    | (c', some stop) => (c', some stop)

/-- A script in a transaction. -/
def script (statements : List ι) : List (Command ι) := .start :: (statements.map .run ++ [.commit])

/-! ## Where a script stops -/

variable {run}

/-- A statement outside of a transaction, or in one that stays open, leaves nothing behind where it
fails. -/
theorem step_run_eq_self_iff {c : Connection δ} {statement : ι} {stop : Stop ι}
    (h : (c.step run (.run statement)).2 = some stop) :
    (c.step run (.run statement)).1 = c ↔ c.saved = none ∨ stop.undone = false := by
  unfold step at h ⊢
  rw [if_neg (by simp [refuses])] at h ⊢
  cases hrun : run (.run statement) c.db with
  | done db =>
    rw [hrun] at h
    cases h
  | failed =>
    rw [hrun] at h
    obtain rfl := Option.some.inj h
    simp
  | rolledBack =>
    rw [hrun] at h
    obtain rfl := Option.some.inj h
    obtain ⟨db, saved⟩ := c
    cases saved with
    | none => simp
    | some d => simp

/-- In an open transaction: a stop leaves it open, or undoes it. -/
theorem exec_open (statements : List ι) :
    ∀ {c : Connection δ} {d : δ} {stop : Stop ι}, c.saved = some d →
    (c.exec run (statements.map .run ++ [.commit])).2 = some stop →
      stop.command ≠ .start ∧ (c.exec run (statements.map .run ++ [.commit])).1.saved =
      (if stop.undone then none else some d) ∧
        (stop.undone = true → (c.exec run (statements.map .run ++ [.commit])).1.db = d) := by
  induction statements with
  | nil =>
    intro c d stop hopen h
    have hallowed : ¬ (c.refuses (.commit : Command ι)) = true := by simp [refuses, hopen]
    simp only [List.map_nil, List.nil_append, exec, step, if_neg hallowed] at h ⊢
    cases hrun : run .commit c.db with
    | done db =>
      rw [hrun] at h
      cases h
    | failed =>
      rw [hrun] at h
      obtain rfl := Option.some.inj h
      simp [hopen]
    | rolledBack =>
      rw [hrun] at h
      obtain rfl := Option.some.inj h
      simp [hopen]
  | cons statement statements ih =>
    intro c d stop hopen h
    have hallowed : ¬ (c.refuses (.run statement)) = true := by simp [refuses]
    simp only [List.map_cons, List.cons_append, exec, step, if_neg hallowed] at h ⊢
    cases hrun : run (.run statement) c.db with
    | done db =>
      rw [hrun] at h
      exact @ih ⟨db, c.saved⟩ d stop hopen h
    | failed =>
      rw [hrun] at h
      obtain rfl := Option.some.inj h
      simp [hopen]
    | rolledBack =>
      rw [hrun] at h
      obtain rfl := Option.some.inj h
      simp [hopen]

/-- **A script that stops** leaves the connection as it was if it stops at its start, or the engine
undoes the transaction. -/
theorem exec_eq_self_iff {c : Connection δ} {statements : List ι} {stop : Stop ι}
    (h : (c.exec run (script statements)).2 = some stop) :
    (c.exec run (script statements)).1 = c ↔ stop.command = .start ∨ stop.undone = true := by
  unfold script at h ⊢
  rw [exec] at h ⊢
  unfold step at h ⊢
  by_cases hrefused : c.refuses (.start : Command ι) = true
  · rw [if_pos hrefused] at h ⊢
    obtain rfl := Option.some.inj h
    simp
  · rw [if_neg hrefused] at h ⊢
    have hnone : c.saved = none := by simpa [refuses] using hrefused
    have hc : c = ⟨c.db, none⟩ := by rw [← hnone]
    cases hrun : run .start c.db with
    | done db =>
      rw [hrun] at h
      obtain ⟨hcommand, hsaved, hdb⟩ :=
        exec_open statements (c := ⟨c.db, some c.db⟩) (d := c.db) rfl h
      simp only
      generalize exec run ⟨c.db, some c.db⟩ (statements.map .run ++ [.commit]) =
        result at hsaved hdb
      cases hundone : stop.undone with
      | true =>
        rw [hundone, if_pos rfl] at hsaved
        refine iff_of_true ?_ (Or.inr rfl)
        rw [hc, ← hsaved, ← hdb hundone]
      | false =>
        rw [hundone, if_neg (by decide)] at hsaved
        refine iff_of_false (fun he => ?_) (by simp [hcommand])
        rw [he, hnone] at hsaved
        cases hsaved
    | failed =>
      rw [hrun] at h
      obtain rfl := Option.some.inj h
      simp
    | rolledBack =>
      rw [hrun] at h
      obtain rfl := Option.some.inj h
      rw [hnone]
      exact iff_of_true hc.symm (Or.inl rfl)

end Connection

end Coopy.Lib
