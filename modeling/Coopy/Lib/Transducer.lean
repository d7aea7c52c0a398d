import Mathlib.Tactic.Common

/-!
# Transducers

A machine that reads letters one at a time and, at each, gives out a list of events.  What it gives
out over a text is put together from what it gives out over its parts:

    Passes m s as es s' → Passes m s' bs fs s'' → Passes m s (as ++ bs) (es ++ fs) s''
                                                                                     (Passes.append)
-/

namespace Coopy.Lib

/-- A step takes a state and a letter to events and the next state. -/
abbrev Transducer (σ α ε : Type) := σ → α → List ε × σ

namespace Transducer

variable {σ α ε : Type} (m : Transducer σ α ε)

def run : List α → σ → List ε × σ
  | [], s => ([], s)
  | a :: as, s =>
    let (es, s') := m s a
    let (fs, s'') := run as s'
    (es ++ fs, s'')

/-- Over `as` the machine goes from `s` to `s'` and gives out `es`. -/
def Passes (s : σ) (as : List α) (es : List ε) (s' : σ) : Prop := run m as s = (es, s')

theorem run_cons (a : α) (as : List α) (s : σ) :
    run m (a :: as) s = ((m s a).1 ++ (run m as (m s a).2).1, (run m as (m s a).2).2) := rfl

theorem run_append (as bs : List α) (s : σ) :
    run m (as ++ bs) s = ((run m as s).1 ++ (run m bs (run m as s).2).1,
      (run m bs (run m as s).2).2) := by
  induction as generalizing s with
  | nil => rfl
  | cons a as ih =>
    show (let (es, s') := m s a; let (fs, s'') := run m (as ++ bs) s'; (es ++ fs, s'')) = _
    simp only [ih, run, List.append_assoc]

variable {m} {s s' s'' : σ} {as bs : List α} {es fs : List ε}

theorem Passes.nil (s : σ) : Passes m s [] [] s := rfl

theorem Passes.cons {a : α} (ha : m s a = (es, s')) (h : Passes m s' as fs s'') :
    Passes m s (a :: as) (es ++ fs) s'' := by
  unfold Passes at *
  simp only [run, ha, h]

/-- A letter that gives nothing out. -/
theorem Passes.quiet {a : α} (ha : m s a = ([], s')) (h : Passes m s' as fs s'') :
    Passes m s (a :: as) fs s'' :=
  Passes.cons ha h

theorem Passes.append (h : Passes m s as es s') (h' : Passes m s' bs fs s'') :
    Passes m s (as ++ bs) (es ++ fs) s'' := by
  unfold Passes at *
  rw [run_append, h, h']

/-- A last letter. -/
theorem Passes.snoc {a : α} (h : Passes m s as es s') (ha : m s' a = (fs, s'')) :
    Passes m s (as ++ [a]) (es ++ fs) s'' :=
  h.append (by unfold Passes; simp [run, ha])

theorem Passes.run_eq (h : Passes m s as es s') : run m as s = (es, s') := h

/-- A text always leads somewhere. -/
theorem exists_passes (m : Transducer σ α ε) (s : σ) (as : List α) :
    ∃ es s', Passes m s as es s' := ⟨_, _, rfl⟩

/-- What holds of a state and of all it gives out at one letter holds over a text. -/
theorem run_invariant {I : σ → Prop} {E : ε → Prop}
    (hstep : ∀ s a, I s → (∀ e ∈ (m s a).1, E e) ∧ I (m s a).2)
    (as : List α) (hs : I s) : (∀ e ∈ (run m as s).1, E e) ∧ I (run m as s).2 := by
  induction as generalizing s with
  | nil => exact ⟨nofun, hs⟩
  | cons a as ih =>
    obtain ⟨he, hs'⟩ := hstep s a hs
    obtain ⟨he', hs''⟩ := ih hs'
    exact ⟨fun e h => (List.mem_append.1 h).elim (he e) (he' e), hs''⟩

end Transducer

end Coopy.Lib
