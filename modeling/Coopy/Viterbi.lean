import Coopy.Lib.Leftovers
import Coopy.SparseSheet

/-!
# `Viterbi`: the cheapest path of a lattice built stage by stage

The calls `beginTransitions`, `addTransition` and `endTransitions` fill the sheets `cost` and `src`
one stage at a time; `calculatePath` picks the cheapest state of the last stage and walks `src`
back.  The arithmetic of the costs is a parameter: a cost is added to the one before it, in that
order, and compared.  A `COOPY_ASSERT` that fails ends the program: `none`.

    Run on a freshly sized lattice, the cells are those of the trellis, so the
    path read back is a chain of least cost                              (runStages_path)
-/

namespace Coopy

open Lib Lib.Trellis

structure Viterbi (κ : Type) where
  K : Nat
  T : Nat
  index : Nat
  mode : Nat
  pathValid : Bool
  bestCost : κ
  cost : SparseSheet κ
  src : SparseSheet Int
  path : SparseSheet Int

namespace Viterbi

section
variable {κ : Type} [AddZeroClass κ] [LinearOrder κ]

def reset (v : Viterbi κ) : Viterbi κ :=
  { v with index := 0, mode := 0, pathValid := false, bestCost := 0 }

/-- The constructor. -/
def fresh : Viterbi κ :=
  ⟨0, 0, 0, 0, false, 0, SparseSheet.empty 0, SparseSheet.empty 0, SparseSheet.empty 0⟩

def setSize (v : Viterbi κ) (states sequenceLength : Nat) : Viterbi κ :=
  reset { v with
    K := states
    T := sequenceLength
    cost := v.cost.resize states sequenceLength 0
    src := v.src.resize states sequenceLength (-1)
    path := v.path.resize 1 sequenceLength (-1) }

def assertMode (v : Viterbi κ) (nMode : Nat) : Viterbi κ :=
  match nMode with
  | 0 => if v.mode = 1 then { v with index := v.index + 1, mode := 0 } else { v with mode := 0 }
  | n => { v with mode := n }

def beginTransitions (v : Viterbi κ) : Viterbi κ := assertMode { v with pathValid := false } 1

def endTransitions (v : Viterbi κ) : Viterbi κ := assertMode { v with pathValid := false } 0

def resizeSheets (v : Viterbi κ) : Viterbi κ :=
  { v with
    cost := v.cost.nonDestructiveResize v.K v.T 0
    src := v.src.nonDestructiveResize v.K v.T (-1)
    path := v.path.nonDestructiveResize 1 v.T (-1) }

/-- The states named by a transition are made to fit. -/
def growStates (v : Viterbi κ) (s0 s1 : Nat) : Viterbi κ :=
  if s0 ≥ v.K ∨ s1 ≥ v.K then resizeSheets { v with K := max (max v.K (s0 + 1)) (s1 + 1) } else v

/-- The current stage is made to fit. -/
def growStages (v : Viterbi κ) : Viterbi κ :=
  if v.index ≥ v.T then resizeSheets { v with T := v.index + 1 } else v

/-- The write at the end of `addTransition`, with the lattice large enough. -/
def relax (v : Viterbi κ) (s0 s1 : Nat) (c : κ) : Viterbi κ :=
  let c := if v.index > 0 then c + v.cost.cell s0 (v.index - 1) else c
  let sourced := if v.index > 0 then v.src.cell s0 (v.index - 1) != -1 else true
  if sourced && (decide (c < v.cost.cell s1 v.index) || v.src.cell s1 v.index == -1) then
    { v with cost := v.cost.write s1 v.index c, src := v.src.write s1 v.index s0 }
  else v

def addTransition (v : Viterbi κ) (s0 s1 : Nat) (c : κ) : Viterbi κ :=
  let v := assertMode { growStates v s0 s1 with pathValid := false } 1
  relax (growStages v) s0 s1 c

/-- The loop over `j` in `calculatePath`: the first cheapest sourced state of the last stage. -/
def bestState (v : Viterbi κ) : κ × Int :=
  (List.range v.K).foldl (fun b j =>
    if (v.cost.cell j (v.index - 1) < b.1 ∨ b.2 = -1) ∧ v.src.cell j (v.index - 1) ≠ -1 then
      (v.cost.cell j (v.index - 1), (j : Int))
    else b) (0, -1)

/-- The loop that walks `src` back over the stages below `n`. -/
def walkBack (v : Viterbi κ) : Nat → Int → Option (Viterbi κ)
  | 0, _ => some v
  | n + 1, bestj =>
    if bestj ≠ -1 ∧ 0 ≤ bestj ∧ bestj < v.K then
      walkBack { v with path := v.path.write 0 n bestj } n (v.src.cell bestj.toNat n)
    else none

def calculatePath (v : Viterbi κ) : Option (Viterbi κ) :=
  if v.pathValid then some v
  else
    let v := endTransitions v
    if v.index = 0 then some { v with pathValid := true }
    else
      let b := bestState v
      (walkBack { v with bestCost := b.1 } v.index b.2).map fun v => { v with pathValid := true }

def length (v : Viterbi κ) : Option (Viterbi κ × Nat) :=
  if v.index > 0 then v.calculatePath.map fun v => (v, v.index) else some (v, v.index)

def getPath (v : Viterbi κ) (i : Nat) : Option (Viterbi κ × Int) :=
  v.calculatePath.bind fun v => if i < v.index then some (v, v.path.cell 0 i) else none

def getCost (v : Viterbi κ) : Option (Viterbi κ × κ) := v.calculatePath.map fun v => (v, v.bestCost)

/-- What a caller reads: the cost, and the path from its first state to its last. -/
def read (v : Viterbi κ) : Option (κ × List Int) :=
  v.getCost.bind fun (v, c) => v.length.bind fun (v, n) =>
    ((List.range n).mapM fun i => (v.getPath i).map Prod.snd).map fun p => (c, p)

/-- One stage: the transitions between a `beginTransitions` and its `endTransitions`. -/
def runStage (v : Viterbi κ) (st : Stage κ) : Viterbi κ :=
  endTransitions (st.foldl (fun v e => addTransition v e.src e.dst e.cost) (beginTransitions v))

def runStages (v : Viterbi κ) (stages : List (Stage κ)) : Viterbi κ := stages.foldl runStage v

/-! ## The cells a run leaves -/

/-- Stage `i` of the sheets holds the trellis cells `lay`. -/
def EncodesRow (v : Viterbi κ) (i : Nat) (lay : Nat → Option (κ × Nat)) : Prop :=
  ∀ s, s < v.K → match lay s with
    | none => v.src.cell s i = -1
    | some (c, a) => v.src.cell s i = a ∧ v.cost.cell s i = c

/-- The stages `rs` (latest first) are done over what was left in the sheets, and `lay` is the
current, unfinished one. -/
structure Filled (K : Nat) (old : Leftovers κ) (rs : List (Stage κ)) (lay : Nat → Option (κ × Nat))
    (v : Viterbi κ) : Prop where
  states : v.K = K
  cost_w : v.cost.w = K
  src_w : v.src.w = K
  path_w : v.path.w = 1
  cost_zero : v.cost.zero = 0
  src_zero : v.src.zero = -1
  index : v.index = rs.length
  done : ∀ i, i < rs.length → EncodesRow v i (cellsOver old (rs.drop (rs.length - 1 - i)))
  current : EncodesRow v rs.length lay
  later : ∀ i, rs.length < i → EncodesRow v i (old i)

variable {K : Nat} {old : Leftovers κ} {rs : List (Stage κ)} {lay : Nat → Option (κ × Nat)}
    {v : Viterbi κ}

theorem filled_setSize (K T : Nat) (v : Viterbi κ) :
    Filled K (fun _ _ => none) [] (fun _ => none) (setSize v K T) where
  states := rfl
  cost_w := rfl
  src_w := rfl
  path_w := rfl
  cost_zero := rfl
  src_zero := rfl
  index := rfl
  done := fun i hi => by simp at hi
  current := fun _ _ => rfl
  later := fun _ _ _ _ => rfl

/-- Changes of mode or of the height alone keep the cells. -/
theorem Filled.congr (h : Filled K old rs lay v) {v' : Viterbi κ} (hK : v'.K = v.K)
    (hc : v'.cost.data = v.cost.data) (hs : v'.src.data = v.src.data)
    (hcw : v'.cost.w = v.cost.w) (hsw : v'.src.w = v.src.w) (hpw : v'.path.w = v.path.w)
    (hcz : v'.cost.zero = v.cost.zero) (hsz : v'.src.zero = v.src.zero)
    (hi : v'.index = v.index) : Filled K old rs lay v' := by
  have cc : ∀ x y, v'.cost.cell x y = v.cost.cell x y := fun x y => by
    simp only [SparseSheet.cell, SparseSheet.key, hc, hcw, hcz]
  have cs : ∀ x y, v'.src.cell x y = v.src.cell x y := fun x y => by
    simp only [SparseSheet.cell, SparseSheet.key, hs, hsw, hsz]
  refine ⟨hK.trans h.states, hcw.trans h.cost_w, hsw.trans h.src_w, hpw.trans h.path_w,
    hcz.trans h.cost_zero, hsz.trans h.src_zero, hi.trans h.index, fun i hlt s hsK => ?_,
    fun s hsK => ?_, fun i hlt s hsK => ?_⟩
  · rw [cc, cs]
    exact h.done i hlt s (hK ▸ hsK)
  · rw [cc, cs]
    exact h.current s (hK ▸ hsK)
  · rw [cc, cs]
    exact h.later i hlt s (hK ▸ hsK)

theorem Filled.growStates (h : Filled K old rs lay v) {s0 s1 : Nat} (h0 : s0 < K) (h1 : s1 < K) :
    growStates v s0 s1 = v := by
  unfold Viterbi.growStates
  rw [if_neg]
  have := h.states
  omega

theorem Filled.growStages (h : Filled K old rs lay v) : Filled K old rs lay (growStages v) := by
  unfold Viterbi.growStages
  split
  · exact h.congr rfl rfl rfl (h.states.trans h.cost_w.symm) (h.states.trans h.src_w.symm)
      h.path_w.symm h.cost_zero.symm h.src_zero.symm rfl
  · exact h

/-- The previous stage gives each state the cost it may be entered with. -/
theorem Filled.entry_eq (h : Filled K old rs lay v) {s : Nat} (hs : s < K) :
    entryOver old rs s = if v.index > 0 then
      (if v.src.cell s (v.index - 1) ≠ -1 then some (v.cost.cell s (v.index - 1)) else none)
    else some 0 := by
  cases rs with
  | nil => rw [if_neg (by rw [h.index]; simp)]; rfl
  | cons st rs =>
    have hi : v.index = rs.length + 1 := h.index
    have hrow := h.done rs.length (by simp) s (by rw [h.states]; exact hs)
    rw [show (st :: rs).length - 1 - rs.length = 0 by simp, List.drop_zero] at hrow
    rw [if_pos (by omega), show v.index - 1 = rs.length by omega]
    show (cellsOver old (st :: rs) s).map Prod.fst = _
    cases hc : cellsOver old (st :: rs) s with
    | none =>
      rw [hc] at hrow
      rw [if_neg (not_not.mpr (show v.src.cell s rs.length = -1 from hrow))]
      rfl
    | some x =>
      rw [hc] at hrow
      obtain ⟨h1, h2⟩ :=
        (hrow : v.src.cell s rs.length = (x.2 : Int) ∧ v.cost.cell s rs.length = x.1)
      rw [if_pos (by omega), h2]
      rfl

/-- Writing a cell of the current stage is an update of that stage. -/
theorem Filled.write (h : Filled K old rs lay v) {s1 : Nat} (h1 : s1 < K) (s0 : Nat) (c : κ) :
    Filled K old rs (Function.update lay s1 (some (c, s0)))
      { v with cost := v.cost.write s1 v.index c, src := v.src.write s1 v.index s0 } := by
  have cw : ∀ s, s < K → ∀ i, (v.cost.write s1 v.index c).cell s i =
      if s = s1 ∧ i = rs.length then c else v.cost.cell s i := fun s hs i => by
    rw [SparseSheet.cell_write _ _ _ _ (by rw [h.cost_w]; exact h1) (by rw [h.cost_w]; exact hs),
      h.index]
  have sw : ∀ s, s < K → ∀ i, (v.src.write s1 v.index (s0 : Int)).cell s i =
      if s = s1 ∧ i = rs.length then (s0 : Int) else v.src.cell s i := fun s hs i => by
    rw [SparseSheet.cell_write _ _ _ _ (by rw [h.src_w]; exact h1) (by rw [h.src_w]; exact hs),
      h.index]
  refine ⟨h.states, h.cost_w, h.src_w, h.path_w, h.cost_zero, h.src_zero, h.index,
    fun i hlt s hs => ?_, fun s hs => ?_, fun i hlt s hs => ?_⟩
  · have hsK : s < K := h.states ▸ hs
    show match cellsOver old (rs.drop (rs.length - 1 - i)) s with
      | none => (v.src.write s1 v.index (s0 : Int)).cell s i = -1
      | some (c', a) => (v.src.write s1 v.index (s0 : Int)).cell s i = a ∧
          (v.cost.write s1 v.index c).cell s i = c'
    rw [cw s hsK, sw s hsK, if_neg (by omega), if_neg (by omega)]
    exact h.done i hlt s hs
  · have hsK : s < K := h.states ▸ hs
    show match Function.update lay s1 (some (c, s0)) s with
      | none => (v.src.write s1 v.index (s0 : Int)).cell s rs.length = -1
      | some (c', a) => (v.src.write s1 v.index (s0 : Int)).cell s rs.length = a ∧
          (v.cost.write s1 v.index c).cell s rs.length = c'
    rw [cw s hsK, sw s hsK]
    by_cases he : s = s1
    · subst he
      simp
    · rw [if_neg (fun hh => he hh.1), if_neg (fun hh => he hh.1), Function.update_of_ne he]
      exact h.current s hs
  · have hsK : s < K := h.states ▸ hs
    show match old i s with
      | none => (v.src.write s1 v.index (s0 : Int)).cell s i = -1
      | some (c', a) => (v.src.write s1 v.index (s0 : Int)).cell s i = a ∧
          (v.cost.write s1 v.index c).cell s i = c'
    rw [cw s hsK, sw s hsK, if_neg (by omega), if_neg (by omega)]
    exact h.later i hlt s hs

/-- `addTransition` relaxes one edge. -/
theorem Filled.relax (h : Filled K old rs lay v) {e : Edge κ} (h0 : e.src < K) (h1 : e.dst < K) :
    Filled K old rs (relaxStep (entryOver old rs) lay e) (relax v e.src e.dst e.cost) := by
  have hent := h.entry_eq h0
  have hcur := h.current e.dst (by rw [h.states]; exact h1)
  rw [← h.index] at hcur
  unfold relaxStep Viterbi.relax
  by_cases hi : v.index > 0
  · rw [if_pos hi] at hent
    rw [hent]
    by_cases hsrc : v.src.cell e.src (v.index - 1) = -1
    · rw [if_neg (not_not.mpr hsrc)]
      simpa [hi, hsrc] using h
    · rw [if_pos hsrc]
      cases hl : lay e.dst with
      | none =>
        rw [hl] at hcur
        have hcur' : v.src.cell e.dst v.index = -1 := hcur
        simpa [hi, hsrc, hcur'] using
          h.write h1 e.src (e.cost + v.cost.cell e.src (v.index - 1))
      | some old =>
        rw [hl] at hcur
        obtain ⟨ho, hc⟩ :=
          (hcur : v.src.cell e.dst v.index = (old.2 : Int) ∧ v.cost.cell e.dst v.index = old.1)
        have hne : ¬ v.src.cell e.dst v.index = -1 := by omega
        by_cases hlt : e.cost + v.cost.cell e.src (v.index - 1) < old.1
        · simpa [hi, hsrc, hc, hne, hlt] using
            h.write h1 e.src (e.cost + v.cost.cell e.src (v.index - 1))
        · simpa [hi, hsrc, hc, hne, hlt] using h
  · rw [if_neg hi] at hent
    rw [hent]
    cases hl : lay e.dst with
    | none =>
      rw [hl] at hcur
      have hcur' : v.src.cell e.dst v.index = -1 := hcur
      simpa [hi, hcur'] using h.write h1 e.src e.cost
    | some old =>
      rw [hl] at hcur
      obtain ⟨ho, hc⟩ :=
        (hcur : v.src.cell e.dst v.index = (old.2 : Int) ∧ v.cost.cell e.dst v.index = old.1)
      have hne : ¬ v.src.cell e.dst v.index = -1 := by omega
      by_cases hlt : e.cost < old.1
      · simpa [hi, hc, hne, hlt] using h.write h1 e.src e.cost
      · simpa [hi, hc, hne, hlt] using h

theorem Filled.addTransition (h : Filled K old rs lay v) {e : Edge κ} (h0 : e.src < K)
    (h1 : e.dst < K) :
    Filled K old rs (relaxStep (entryOver old rs) lay e) (addTransition v e.src e.dst e.cost) := by
  unfold Viterbi.addTransition
  rw [h.growStates h0 h1]
  have h' : Filled K old rs lay (assertMode { v with pathValid := false } 1) :=
    h.congr rfl rfl rfl rfl rfl rfl rfl rfl rfl
  exact h'.growStages.relax h0 h1

/-- A transition leaves the lattice in the middle of its stage. -/
theorem addTransition_mode (v : Viterbi κ) (s0 s1 : Nat) (c : κ) :
    (addTransition v s0 s1 c).mode = 1 := by
  have hr : ∀ u : Viterbi κ, (Viterbi.relax u s0 s1 c).mode = u.mode := fun u => by
    unfold Viterbi.relax
    simp only []
    by_cases hi : u.index > 0
    all_goals
      simp only [hi, if_true, if_false]
      split <;> rfl
  have hg : ∀ u : Viterbi κ, (Viterbi.growStages u).mode = u.mode := fun u => by
    unfold Viterbi.growStages
    split <;> rfl
  unfold Viterbi.addTransition
  simp only [hr, hg]
  rfl

theorem Filled.foldl (st : Stage κ) : ∀ {lay : Nat → Option (κ × Nat)} {v : Viterbi κ},
    Filled K old rs lay v → v.mode = 1 → (∀ e ∈ st, e.src < K ∧ e.dst < K) →
    Filled K old rs (st.foldl (relaxStep (entryOver old rs)) lay)
        (st.foldl (fun v e => Viterbi.addTransition v e.src e.dst e.cost) v) ∧
      (st.foldl (fun v e => Viterbi.addTransition v e.src e.dst e.cost) v).mode = 1 := by
  induction st with
  | nil => exact fun h hm _ => ⟨h, hm⟩
  | cons e st ih =>
    intro lay v h _ hst
    obtain ⟨h0, h1⟩ := hst e (by simp)
    exact ih (h.addTransition h0 h1) (addTransition_mode v e.src e.dst e.cost)
      (fun f hf => hst f (List.mem_cons_of_mem _ hf))

/-- **One stage** of the lattice is one stage of the trellis. -/
theorem Filled.runStage (h : Filled K old rs (old rs.length) v) (st : Stage κ)
    (hst : ∀ e ∈ st, e.src < K ∧ e.dst < K) :
    Filled K old (st :: rs) (old (st :: rs).length) (runStage v st) := by
  have hb : Filled K old rs (old rs.length) (beginTransitions v) :=
    h.congr rfl rfl rfl rfl rfl rfl rfl rfl rfl
  obtain ⟨hf, hm⟩ := hb.foldl st rfl hst
  unfold Viterbi.runStage
  generalize st.foldl (fun v e => Viterbi.addTransition v e.src e.dst e.cost)
    (beginTransitions v) = u at hf hm
  have he : endTransitions u = { u with pathValid := false, index := u.index + 1, mode := 0 } := by
    unfold Viterbi.endTransitions assertMode
    simp [hm]
  rw [he]
  refine ⟨hf.states, hf.cost_w, hf.src_w, hf.path_w, hf.cost_zero, hf.src_zero, ?_,
    fun i hi => ?_, fun s hs => ?_, fun i hi => ?_⟩
  · show u.index + 1 = (st :: rs).length
    rw [hf.index, List.length_cons]
  · rcases Nat.lt_succ_iff_lt_or_eq.mp (by simpa using hi) with hlt | rfl
    · have hd : (st :: rs).drop ((st :: rs).length - 1 - i) = rs.drop (rs.length - 1 - i) := by
        rw [show (st :: rs).length - 1 - i = (rs.length - 1 - i) +
          1 by simp; omega, List.drop_succ_cons]
      rw [hd]
      exact hf.done i hlt
    · rw [show (st :: rs).length - 1 - rs.length = 0 by simp, List.drop_zero, cellsOver_cons]
      exact hf.current
  · exact hf.later (rs.length + 1) (by omega) s hs
  · exact hf.later i (by simp at hi; omega)

theorem Filled.runStages (stages : List (Stage κ)) : ∀ {rs : List (Stage κ)} {v : Viterbi κ},
    Filled K old rs (old rs.length) v → (∀ st ∈ stages, ∀ e ∈ st, e.src < K ∧ e.dst < K) →
    Filled K old (stages.reverse ++ rs) (old (stages.reverse ++ rs).length)
    (runStages v stages) := by
  induction stages with
  | nil => exact fun h _ => h
  | cons st stages ih =>
    intro rs v h hst
    have := ih (h.runStage st (hst st (by simp))) (fun t ht => hst t (List.mem_cons_of_mem _ ht))
    rwa [List.reverse_cons, List.append_assoc, List.singleton_append]

/-- Between stages the lattice is idle and its path not yet read. -/
theorem runStages_idle (stages : List (Stage κ)) : ∀ v : Viterbi κ, v.mode = 0 →
    v.pathValid = false →
    (runStages v stages).mode = 0 ∧ (runStages v stages).pathValid = false := by
  induction stages with
  | nil => exact fun v hm hp => ⟨hm, hp⟩
  | cons st stages ih =>
    intro v _ _
    have he : ∀ u : Viterbi κ, (endTransitions u).mode = 0 ∧ (endTransitions u).pathValid = false :=
      fun u => by
      unfold endTransitions assertMode
      by_cases hm : u.mode = 1 <;> simp [hm]
    exact ih _ (he _).1 (he _).2

/-! ## Reading the path back -/

/-- The best state so far as the loop of `calculatePath` keeps it. -/
def bestOf : Option (κ × Nat) → κ × Int
  | none => (0, -1)
  | some (c, j) => (c, j)

/-- The loop finds the cheapest state that was reached. -/
theorem bestState_eq (lay : Nat → Option (κ × Nat)) (v : Viterbi κ)
    (hv : EncodesRow v (v.index - 1) lay) : bestState v = bestOf (cheapest lay v.K) := by
  have key : ∀ (js : List Nat) (o : Option (κ × Nat)), (∀ j ∈ js, j < v.K) →
      js.foldl (fun b j =>
        if (v.cost.cell j (v.index - 1) < b.1 ∨ b.2 = -1) ∧ v.src.cell j (v.index - 1) ≠ -1 then
          (v.cost.cell j (v.index - 1), (j : Int)) else b) (bestOf o) =
        bestOf ((js.filterMap fun j => (lay j).map fun x => (x.1, j)).foldl
          (List.argAux fun b c => b.1 < c.1) o) := by
    intro js
    induction js with
    | nil => exact fun o _ => rfl
    | cons j js ih =>
      intro o hjs
      have hrow := hv j (hjs j List.mem_cons_self)
      have hjs' : ∀ k ∈ js, k < v.K := fun k hk => hjs k (List.mem_cons_of_mem _ hk)
      rw [List.foldl_cons]
      cases hl : lay j with
      | none =>
        rw [hl] at hrow
        rw [if_neg fun hh => hh.2 hrow, List.filterMap_cons_none (by rw [hl]; rfl)]
        exact ih o hjs'
      | some x =>
        rw [hl] at hrow
        obtain ⟨hs, hc⟩ :=
          (hrow : v.src.cell j (v.index - 1) = (x.2 : Int) ∧ v.cost.cell j (v.index - 1) = x.1)
        have hne : v.src.cell j (v.index - 1) ≠ -1 := by omega
        rw [List.filterMap_cons_some (by rw [hl]; rfl), List.foldl_cons, hc, ← ih _ hjs']
        congr 1
        cases o with
        | none => exact if_pos ⟨Or.inr rfl, hne⟩
        | some y =>
          have hy : ¬ (y.2 : Int) = -1 := by omega
          simp only [bestOf, hy, or_false, ne_eq, hne, not_false_eq_true, and_true, List.argAux]
          split <;> rfl
  exact key (List.range v.K) none fun j hj => List.mem_range.1 hj

/-- The states above the stages walked keep their place on the path. -/
theorem walkBack_spec (hback : Backed old K) (rs : List (Stage κ))
    (hst : ∀ st ∈ rs, ∀ e ∈ st, e.src < K) :
    ∀ (v : Viterbi κ) (j : Nat) (x : κ × Nat), v.K = K → v.path.w = 1 → j < K →
    (∀ i, i < rs.length → EncodesRow v i (cellsOver old (rs.drop (rs.length - 1 - i)))) →
    cellsOver old rs j = some x →
    ∃ p, walkBack v rs.length j = some { v with path := p } ∧
      p.w = 1 ∧
      (∀ i, i < rs.length → p.cell 0 i = ((traceOver old rs j).getD (rs.length - 1 - i) 0 : Nat)) ∧
      ∀ i, rs.length ≤ i → p.cell 0 i = v.path.cell 0 i := by
  induction rs with
  | nil => exact fun v j x _ _ _ _ h => nomatch h
  | cons st rs ih =>
    intro v j x hK hpw hj hrows hcell
    have hrow := hrows rs.length (by simp) j (by omega)
    rw [show (st :: rs).length - 1 - rs.length = 0 by simp, List.drop_zero, hcell] at hrow
    have hsrc : v.src.cell j rs.length = (x.2 : Int) := hrow.1
    have htr : traceOver old (st :: rs) j = j :: traceOver old rs x.2 := by
      rw [traceOver, hcell]
    have hguard : (j : Int) ≠ -1 ∧ 0 ≤ (j : Int) ∧ (j : Int) < v.K := by omega
    have hw : ∀ i, (v.path.write 0 rs.length (j : Int)).cell 0 i =
        if i = rs.length then (j : Int) else v.path.cell 0 i := fun i => by
      rw [SparseSheet.cell_write _ _ _ _ (by omega) (by omega)]
      simp
    show ∃ p, walkBack v (rs.length + 1) j = some { v with path := p } ∧ _
    unfold walkBack
    rw [if_pos hguard, Int.toNat_natCast, hsrc]
    -- a cell comes from a cell, unless this is the first stage
    cases rs with
    | nil =>
      refine ⟨_, rfl, hpw, fun i hi => ?_, fun i hi => ?_⟩
      · obtain rfl : i = 0 := by simpa using hi
        rw [hw 0, htr]
        simp
      · rw [hw i, if_neg (by simp at hi ⊢; omega)]
    | cons st' rs =>
      obtain ⟨hlt, y, hy⟩ := cellsOver_back hback (hst st (by simp)) hcell
      obtain ⟨p, hv', hpw', hp', hq'⟩ := ih (fun t ht => hst t (List.mem_cons_of_mem _ ht))
        { v with path := v.path.write 0 (st' :: rs).length (j : Int) } x.2 y hK hpw hlt
          (fun i hi => by
          have h2 := hrows i (by simp at hi ⊢; omega)
          rwa [show (st :: st' :: rs).length - 1 - i = ((st' :: rs).length - 1 - i) +
            1 by simp at hi ⊢; omega, List.drop_succ_cons] at h2)
        hy
      refine ⟨p, hv', hpw', fun i hi => ?_, fun i hi => ?_⟩
      · by_cases hlt : i < (st' :: rs).length
        · rw [hp' i hlt, htr, show (st :: st' :: rs).length - 1 - i =
            ((st' :: rs).length - 1 - i) + 1 by
            simp at hlt ⊢; omega, List.getD_cons_succ]
        · obtain rfl : i = (st' :: rs).length := by simp at hi hlt ⊢; omega
          rw [hq' _ (le_refl _), htr]
          show (v.path.write 0 (st' :: rs).length (j : Int)).cell 0 _ = _
          rw [hw, if_pos rfl]
          simp
      · rw [hq' i (by simp at hi ⊢; omega)]
        show (v.path.write 0 (st' :: rs).length (j : Int)).cell 0 i = _
        rw [hw, if_neg (by simp at hi ⊢; omega)]

/-- A lattice at rest, its stages filled over the leftovers. -/
structure Ready (K : Nat) (old : Leftovers κ) (rs : List (Stage κ)) (v : Viterbi κ) : Prop where
  filled : Filled K old rs (old rs.length) v
  idle : v.mode = 0
  unread : v.pathValid = false
  sources : ∀ st ∈ rs, ∀ e ∈ st, e.src < K
  backed : Backed old K

/-- The sheets hold the cells of the last stage. -/
theorem Ready.lastRow (h : Ready K old rs v) (hrs : rs ≠ []) :
    EncodesRow v (v.index - 1) (cellsOver old rs) := by
  have hidx : v.index = rs.length := h.filled.index
  have hpos : 0 < rs.length := List.length_pos_iff.2 hrs
  have := h.filled.done (v.index - 1) (by omega)
  rwa [hidx, Nat.sub_self, List.drop_zero, ← hidx] at this

theorem Ready.endTransitions (h : Ready K old rs v) : endTransitions v = v := by
  obtain ⟨K, T, index, mode, pathValid, bestCost, cost, src, path⟩ := v
  obtain rfl : mode = 0 := h.idle
  obtain rfl : pathValid = false := h.unread
  rfl

/-- `calculatePath` picks the cheapest state of the last stage and walks back from it. -/
theorem Ready.calculatePath_eq (h : Ready K old rs v) (hrs : rs ≠ []) :
    v.calculatePath =
    (walkBack { v with bestCost := (bestOf (cheapest (cellsOver old rs) K)).1 } rs.length
      (bestOf (cheapest (cellsOver old rs) K)).2).map fun v => { v with pathValid := true } := by
  have hidx : v.index = rs.length := h.filled.index
  have hpos : 0 < rs.length := List.length_pos_iff.2 hrs
  have hbest : bestState v = bestOf (cheapest (cellsOver old rs) K) := by
    rw [bestState_eq _ v (h.lastRow hrs), h.filled.states]
  unfold calculatePath
  refine (if_neg (by rw [h.unread]; exact Bool.false_ne_true)).trans ?_
  rw [h.endTransitions]
  refine (if_neg (by omega)).trans ?_
  rw [hbest, ← hidx]

/-- Nothing was reached in the last stage: the assertion fails. -/
theorem Ready.calculatePath_none (h : Ready K old rs v) (hrs : rs ≠ [])
    (hend : cheapest (cellsOver old rs) K = none) :
    v.calculatePath = none := by
  have hpos : 0 < rs.length := List.length_pos_iff.2 hrs
  rw [h.calculatePath_eq hrs, hend, show rs.length = rs.length - 1 + 1 by omega, walkBack, bestOf]
  rfl

/-- The cheapest state of the last stage, and the way back from it. -/
theorem Ready.calculatePath_some (h : Ready K old rs v) (hrs : rs ≠ []) {c : κ} {j : Nat}
    (hend : cheapest (cellsOver old rs) K = some (c, j)) :
    ∃ p, v.calculatePath = some { v with bestCost := c, path := p, pathValid := true } ∧ p.w = 1 ∧
      ∀ i, i < rs.length →
      p.cell 0 i = ((traceOver old rs j).getD (rs.length - 1 - i) 0 : Nat) := by
  obtain ⟨⟨hj, a, ha⟩, -⟩ := cheapest_eq_some_iff.1 hend
  obtain ⟨p, hwalk, hpw, hp, -⟩ :=
    walkBack_spec h.backed rs h.sources { v with bestCost := c } j (c, a)
    h.filled.states h.filled.path_w hj h.filled.done ha
  refine ⟨p, ?_, hpw, hp⟩
  rw [h.calculatePath_eq hrs, hend, bestOf, hwalk]
  rfl

/-- A run on a freshly sized lattice: there is nothing in its sheets. -/
theorem ready_fresh (K T : Nat) (v : Viterbi κ) (stages : List (Stage κ))
    (hst : ∀ st ∈ stages, ∀ e ∈ st, e.src < K ∧ e.dst < K) :
    Ready K (fun _ _ => none) stages.reverse (runStages (setSize v K T) stages) := by
  obtain ⟨hm, hp⟩ := runStages_idle stages (setSize v K T) rfl rfl
  have hf := (filled_setSize K T v).runStages stages hst
  rw [List.append_nil] at hf
  exact ⟨hf, hm, hp, fun st hs e he => (hst st (by simpa using hs) e he).1,
    fun _ _ _ _ h => nomatch h⟩

/-- Where a chain exists, the cheapest one ends in the cheapest state. -/
theorem cheapest_of_chain [AddLeftMono κ] {rs : List (Stage κ)}
    (hst : ∀ st ∈ rs, ∀ e ∈ st, e.dst < K) (hne : ∃ p c, Chain rs p c) :
    ∃ c j, cheapest (cells rs) K = some (c, j) ∧ Chain rs (trace rs j) c ∧ ∀ p' c', Chain rs p' c' →
    c ≤ c' := by
  have hend : ∀ p c, Chain rs p c → ∃ s < K, ∃ c' a, cells rs s = some (c', a) ∧ c' ≤ c := by
    intro p c h
    obtain ⟨st, rs', q, e, he, hrs, rfl⟩ := h.head
    obtain ⟨c', a, hcell, hle⟩ := cells_le h e.dst q rfl
    exact ⟨e.dst, hst st (by rw [hrs]; exact List.mem_cons_self) e he, c', a, hcell, hle⟩
  obtain ⟨p, c, hch⟩ := hne
  obtain ⟨s, hs, c₁, a₁, hcell, -⟩ := hend p c hch
  cases hb : cheapest (cells rs) K with
  | none =>
    rw [cheapest_eq_none_iff.1 hb s hs] at hcell
    cases hcell
  | some y =>
    obtain ⟨⟨hj, a, ha⟩, hmin⟩ := cheapest_eq_some_iff.1 hb
    refine ⟨y.1, y.2, rfl, trace_chain rs y.2 y.1 a ha, fun p' c' h' => ?_⟩
    obtain ⟨s', hs', c'', a'', hcell', hle⟩ := hend p' c' h'
    rcases hmin s' hs' c'' a'' hcell' with hlt | ⟨heq, -⟩
    · exact hlt.le.trans hle
    · exact heq.trans_le hle

/-- **The path of a run.**  On a freshly sized lattice whose stages have a chain
through them, `calculatePath` succeeds: the path is the way back from the cheapest
state of the last stage, a chain of least cost. -/
theorem runStages_path [AddLeftMono κ] (K T : Nat) (v : Viterbi κ) (stages : List (Stage κ))
    (hst : ∀ st ∈ stages, ∀ e ∈ st, e.src < K ∧ e.dst < K)
    (hne : ∃ p c, Chain stages.reverse p c) :
    ∃ (v' : Viterbi κ) (c : κ) (j : Nat),
      (runStages (setSize v K T) stages).calculatePath = some v' ∧
      v'.index = stages.length ∧ v'.pathValid = true ∧ v'.bestCost = c ∧
      cheapest (cells stages.reverse) K = some (c, j) ∧
      Chain stages.reverse (trace stages.reverse j) c ∧
      (∀ p' c', Chain stages.reverse p' c' → c ≤ c') ∧
      ∀ i, i < stages.length →
        v'.path.cell 0 i = ((trace stages.reverse j).getD (stages.length - 1 - i) 0 : Nat) := by
  have hr := ready_fresh K T v stages hst
  have hdst : ∀ st ∈ stages.reverse, ∀ e ∈ st, e.dst < K :=
    fun st hs e he => (hst st (by simpa using hs) e he).2
  obtain ⟨c, j, hend, hch, hmin⟩ := cheapest_of_chain hdst hne
  have hrs : stages.reverse ≠ [] := by
    obtain ⟨st, rs', -, -, -, hrs, -⟩ := hch.head
    rw [hrs]
    exact List.cons_ne_nil _ _
  have hover := hend
  rw [← cellsOver_nothing] at hover
  obtain ⟨p, hp, -, hcell⟩ := hr.calculatePath_some hrs hover
  refine ⟨_, c, j, hp, hr.filled.index.trans (by simp), rfl, rfl, hend, hch, hmin, fun i hi => ?_⟩
  have := hcell i (by simpa using hi)
  rwa [traceOver_nothing, List.length_reverse] at this

/-- The same through `length` and `getPath`, which is how callers read the path. -/
theorem runStages_read [AddLeftMono κ] (K T : Nat) (v : Viterbi κ) (stages : List (Stage κ))
    (hst : ∀ st ∈ stages, ∀ e ∈ st, e.src < K ∧ e.dst < K)
    (hne : ∃ p c, Chain stages.reverse p c) :
    ∃ (v' : Viterbi κ) (c : κ) (j : Nat),
      (runStages (setSize v K T) stages).length = some (v', stages.length) ∧
      cheapest (cells stages.reverse) K = some (c, j) ∧
      Chain stages.reverse (trace stages.reverse j) c ∧
      (∀ p' c', Chain stages.reverse p' c' → c ≤ c') ∧
      ∀ i, i < stages.length →
        v'.getPath i =
        some (v', (((trace stages.reverse j).getD (stages.length - 1 - i) 0 : Nat) : Int)) := by
  obtain ⟨v', c, j, hv, hidx, hvalid, -, hend, hch, hmin, hcell⟩ :=
    runStages_path K T v stages hst hne
  have hr := ready_fresh K T v stages hst
  have hpos : 0 < (runStages (setSize v K T) stages).index := by
    obtain ⟨st, rs', -, -, -, hrs, -⟩ := hch.head
    rw [hr.filled.index, hrs, List.length_cons]
    omega
  refine ⟨v', c, j, ?_, hend, hch, hmin, fun i hi => ?_⟩
  · unfold length
    rw [if_pos hpos, hv, Option.map_some, hidx]
  · unfold getPath calculatePath
    rw [if_pos hvalid, Option.bind_some, if_pos (by rw [hidx]; exact hi), hcell i hi]

end

end Viterbi

end Coopy
