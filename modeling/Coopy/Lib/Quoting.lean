import Mathlib.Data.List.Basic
import Mathlib.Tactic.Common

/-!
# Texts with a closing mark

A body is closed by a mark; where the mark is part of the text it stands twice.  Each body is read
in one way, and there is one way to write it:

    readClosed close s = some x ↔ s = doubleMark close x ++ [close]             (readClosed_eq_some)

With a text behind it that does not go on with the mark, the body is read up to there
(readQuoted_doubleMark).
-/

namespace Coopy.Lib

variable {α : Type} [DecidableEq α]

/-- Every closing mark twice. -/
def doubleMark (close : α) (x : List α) : List α :=
  x.flatMap fun c => if c = close then [close, close] else [c]

/-- A body up to its closing mark, at the end of the text: two marks stand for one. -/
def readClosed (close : α) : List α → Option (List α)
  | [] => none
  | [c] => if c = close then some [] else none
  | c :: d :: rest =>
    if c = close then (if d = close then (readClosed close rest).map (close :: ·) else none)
    else (readClosed close (d :: rest)).map (c :: ·)

/-- A body up to its closing mark, and what stands behind it. -/
def readQuoted (close : α) : List α → Option (List α × List α)
  | [] => none
  | [c] => if c = close then some ([], []) else none
  | c :: d :: rest =>
    if c = close then
      if d = close then (readQuoted close rest).map fun r => (close :: r.1, r.2)
        else some ([], d :: rest)
    else (readQuoted close (d :: rest)).map fun r => (c :: r.1, r.2)

variable {close : α}

theorem doubleMark_cons_self (x : List α) :
    doubleMark close (close :: x) = close :: close :: doubleMark close x := by
  unfold doubleMark
  rw [List.flatMap_cons, if_pos rfl]
  rfl

theorem doubleMark_cons {c : α} (h : c ≠ close) (x : List α) :
    doubleMark close (c :: x) = c :: doubleMark close x := by
  unfold doubleMark
  rw [List.flatMap_cons, if_neg h]
  rfl

theorem readClosed_pair (s : List α) :
    readClosed close (close :: close :: s) = (readClosed close s).map (close :: ·) := by
  rw [readClosed, if_pos rfl, if_pos rfl]

theorem readClosed_cons {c : α} (h : c ≠ close) {s : List α} (hs : s ≠ []) :
    readClosed close (c :: s) = (readClosed close s).map (c :: ·) := by
  obtain ⟨d, s, rfl⟩ := List.exists_cons_of_ne_nil hs
  rw [readClosed, if_neg h]

/-- **What is written is read.** -/
theorem readClosed_doubleMark (x : List α) :
    readClosed close (doubleMark close x ++ [close]) = some x := by
  induction x with
  | nil => exact if_pos rfl
  | cons c x ih =>
    by_cases hc : c = close
    · subst hc
      rw [doubleMark_cons_self, List.cons_append, List.cons_append, readClosed_pair, ih]
      rfl
    · rw [doubleMark_cons hc, List.cons_append, readClosed_cons hc (by simp), ih]
      rfl

/-- What is read was written in the one way there is. -/
theorem eq_doubleMark_of_readClosed : ∀ (s x : List α), readClosed close s = some x →
    s = doubleMark close x ++ [close]
  | [], x, h => by cases h
  | [c], x, h => by
    unfold readClosed at h
    split at h
    · next hc =>
      cases h
      rw [hc]
      rfl
    · cases h
  | c :: d :: rest, x, h => by
    unfold readClosed at h
    split at h
    · next hc =>
      split at h
      · next hd =>
        obtain ⟨y, hy, rfl⟩ := Option.map_eq_some_iff.1 h
        rw [eq_doubleMark_of_readClosed rest y hy, hc, hd, doubleMark_cons_self]
        rfl
      · cases h
    · next hc =>
      obtain ⟨y, hy, rfl⟩ := Option.map_eq_some_iff.1 h
      rw [eq_doubleMark_of_readClosed (d :: rest) y hy, doubleMark_cons hc]
      rfl

theorem readClosed_eq_some {s x : List α} : readClosed close s = some x ↔
    s = doubleMark close x ++ [close] :=
  ⟨eq_doubleMark_of_readClosed s x, fun h => h ▸ readClosed_doubleMark x⟩

theorem readQuoted_cons {c : α} (h : c ≠ close) {s : List α} (hs : s ≠ []) :
    readQuoted close (c :: s) = (readQuoted close s).map fun r => (c :: r.1, r.2) := by
  obtain ⟨d, s, rfl⟩ := List.exists_cons_of_ne_nil hs
  rw [readQuoted, if_neg h]

theorem readQuoted_doubleMark (x : List α) {rest : List α} (h : rest.head? ≠ some close) :
    readQuoted close (doubleMark close x ++ close :: rest) = some (x, rest) := by
  induction x with
  | nil =>
    cases rest with
    | nil => exact if_pos rfl
    | cons d rest =>
      have hd : d ≠ close := fun he => h (congrArg some he)
      show readQuoted close (close :: d :: rest) = _
      rw [readQuoted, if_pos rfl, if_neg hd]
  | cons c x ih =>
    by_cases hc : c = close
    · subst hc
      rw [doubleMark_cons_self, List.cons_append, List.cons_append, readQuoted, if_pos rfl,
        if_pos rfl, ih]
      rfl
    · rw [doubleMark_cons hc, List.cons_append, readQuoted_cons hc (by simp), ih]
      rfl

end Coopy.Lib
