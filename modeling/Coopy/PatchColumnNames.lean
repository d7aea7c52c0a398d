import Coopy.Patcher
import Mathlib.Data.List.Basic
import Mathlib.Data.List.Nodup
import Mathlib.Tactic.Common

/-!
# `PatchColumnNames`: a column change guessed from two lists of names

A patch gives the names before a change and the names after it; which column was inserted,
deleted, moved or renamed is found by the first difference of the two lists.  `none` is a failed
`COOPY_ASSERT`, a call of `exit`, or a read outside a vector.

    one name more, from place `k`       an identity more, fresh, at place `k`       (inferInsert_eq)
    one name less, from place `i`       the identity at place `i` goes              (inferDelete_eq)
    another name at place `i`           the identities stay                         (inferRename_eq)
    a name later by the names `b`       its identity goes one place too few,
                                        unless it goes to the end                  (inferMove_later)
    a name earlier by two or more       its identity goes along                  (inferMove_earlier)
-/

namespace Coopy

structure PatchColumnNames where
  lst : List String := []
  indices : List Int := []
deriving DecidableEq, Repr

namespace PatchColumnNames

/-- `read` of a list of names. -/
def read (vals : List String) : PatchColumnNames := ⟨vals, (List.range vals.length).map Int.ofNat⟩

/-- `autoStart`: a prior list that is empty is made up from the list after the change. -/
def autoStart (names prior : PatchColumnNames) (name : Option String) (add mv : Bool) :
    PatchColumnNames :=
  match name with
  | some name =>
    if prior.lst.length = 0 then
      let kept := names.lst.filter fun x => decide (x ≠ name) || mv
      let lst := if !add && !mv then kept ++ [name] else kept
      ⟨prior.lst ++ lst, prior.indices ++ (List.range lst.length).map Int.ofNat⟩
    else prior
  | none => prior

/-- The loop for the first place below `n` at which the lists differ; `n` if there is none. -/
def firstDifference (n : Nat) (xs ys : List String) : Nat :=
  ((List.range n).find? fun i => decide (xs[i]? ≠ ys[i]?)).getD n

/-- The number below zero and all of the indices. -/
def freshIndex (indices : List Int) : Int :=
  indices.foldl (fun neg j => if j < neg then j else neg) 0 - 1

/-- The lists as an inference leaves them, with the name of the column and its identity. -/
structure Inference where
  names : PatchColumnNames
  prior : PatchColumnNames
  mover : String
  subject : Int
deriving DecidableEq, Repr

def inferRename (names prior : PatchColumnNames) (_name : Option String) : Option Inference :=
  if names.lst.length = prior.lst.length then
    let i := firstDifference names.lst.length names.lst prior.lst
    prior.lst[i]?.bind fun mover => prior.indices[i]?.map fun subject =>
      { names := { names with indices := prior.indices }, prior, mover, subject }
  else none

def inferInsert (names prior : PatchColumnNames) (name : Option String) : Option Inference :=
  let prior := autoStart names prior name true false
  if names.lst.length = prior.lst.length + 1 then
    let i := firstDifference prior.lst.length names.lst prior.lst
    let neg := freshIndex prior.indices
    let indices := if i ≥ prior.lst.length then prior.indices ++ [neg]
      else prior.indices.insertIdx i neg
    names.lst[i]?.map fun mover => { names := { names with indices }, prior, mover, subject := neg }
  else none

def inferDelete (names prior : PatchColumnNames) (name : Option String) : Option Inference :=
  let prior := autoStart names prior name false false
  if names.lst.length + 1 = prior.lst.length then
    let i := firstDifference names.lst.length names.lst prior.lst
    prior.lst[i]?.bind fun mover => prior.indices[i]?.map fun subject =>
      { names := { names with indices := prior.indices.eraseIdx i }, prior, mover, subject }
  else none

/-- The name of the column that moved: where the lists are the same, the one that was given. -/
def findMover (names prior : PatchColumnNames) (name : Option String) : Option String :=
  let i := firstDifference names.lst.length names.lst prior.lst
  if i < names.lst.length then
    prior.lst[i + 1]?.bind fun next => if names.lst[i]? = some next then prior.lst[i]?
      else names.lst[i]?
  else name.filter fun name => decide (name ∈ names.lst)

def inferMove (names prior : PatchColumnNames) (name : Option String) : Option Inference :=
  let prior := autoStart names prior name false true
  if names.lst.length = prior.lst.length then
    (findMover names prior name).bind fun mover =>
      let rem := prior.lst.idxOf mover
      let add := names.lst.idxOf mover
      if add < names.lst.length then
        prior.indices[rem]?.map fun v =>
          let erased := prior.indices.eraseIdx rem
          let indices :=
            if add = names.lst.length - 1 then erased ++ [v]
            else erased.insertIdx (if add > rem then add - 1 else add) v
          { names := { names with indices }, prior, mover, subject := v }
      else none
  else none

def infer (names prior : PatchColumnNames) (mode : OrderChangeMode) (name : Option String) :
    Option Inference :=
  match mode with
  | .move => inferMove names prior name
  | .insert => inferInsert names prior name
  | .delete => inferDelete names prior name
  | .rename => inferRename names prior name

/-- The change a column line asks for, as `applyCsv` and `applyTdiff` put it together. -/
def inferChange (names prior : PatchColumnNames) (mode : OrderChangeMode) (name : Option String) :
    Option OrderChange :=
  (infer names prior mode name).map fun r =>
    { indicesBefore := r.prior.indices
      namesBefore := r.prior.lst
      indicesAfter := r.names.indices
      namesAfter := r.names.lst
      subject := r.subject
      object := if mode = .move then r.subject else -1
      mode := mode }

/-! ## The first difference -/

theorem firstDifference_eq {n k : Nat} {xs ys : List String} (hsame : ∀ i < k, xs[i]? = ys[i]?)
    (hk : k = n ∨ k < n ∧ xs[k]? ≠ ys[k]?) : firstDifference n xs ys = k := by
  unfold firstDifference
  rcases hk with rfl | ⟨hlt, hne⟩
  · have hnone : ((List.range k).find? fun i => decide (xs[i]? ≠ ys[i]?)) = none :=
      List.find?_eq_none.2 fun i hi => by simpa using hsame i (List.mem_range.1 hi)
    rw [hnone]
    rfl
  · have hsome : ((List.range n).find? fun i => decide (xs[i]? ≠ ys[i]?)) = some k := by
      refine List.find?_range_eq_some.2 ⟨by simpa using hne, List.mem_range.2 hlt, fun j hj => ?_⟩
      simpa using hsame j hj
    rw [hsome]
    rfl

/-- The lists share `a`, and then differ or end. -/
theorem firstDifference_append {n : Nat} {a xs ys : List String} (h : a.length = n ∨ a.length < n ∧
    xs.head? ≠ ys.head?) : firstDifference n (a ++ xs) (a ++ ys) = a.length := by
  refine firstDifference_eq (fun i hi => ?_) (h.imp id fun h => ⟨h.1, ?_⟩)
  · rw [List.getElem?_append_left hi, List.getElem?_append_left hi]
  · rw [List.getElem?_append_right (le_refl _), List.getElem?_append_right (le_refl _),
      Nat.sub_self]
    simpa [List.head?_eq_getElem?] using h.2

theorem freshIndex_lt (indices : List Int) :
    freshIndex indices < 0 ∧ ∀ j ∈ indices, freshIndex indices < j := by
  have hfold :
    ∀ (js : List Int) (neg : Int), js.foldl (fun neg j => if j < neg then j else neg) neg ≤ neg ∧
      ∀ j ∈ js, js.foldl (fun neg j => if j < neg then j else neg) neg ≤ j := by
    intro js
    induction js with
    | nil => exact fun neg => ⟨le_refl _, List.forall_mem_nil _⟩
    | cons j js ih =>
      intro neg
      obtain ⟨hneg, hjs⟩ := ih (if j < neg then j else neg)
      rw [List.foldl_cons]
      refine ⟨hneg.trans (by split <;> omega),
        List.forall_mem_cons.2 ⟨hneg.trans (by split <;> omega), hjs⟩⟩
  obtain ⟨h0, hj⟩ := hfold indices 0
  refine ⟨?_, fun j hjm => ?_⟩
  · unfold freshIndex
    omega
  · have := hj j hjm
    unfold freshIndex
    omega

theorem freshIndex_notMem (indices : List Int) : freshIndex indices ∉ indices :=
  fun h => lt_irrefl _ ((freshIndex_lt indices).2 _ h)

/-! ## The inferences -/

/-- A prior list with names is left alone. -/
theorem autoStart_eq {names prior : PatchColumnNames} {name : Option String} {add mv : Bool}
    (h : prior.lst ≠ []) : autoStart names prior name add mv = prior := by
  cases name with
  | none => rfl
  | some name => exact if_neg fun hlen => h (List.eq_nil_of_length_eq_zero hlen)

/-- The first column of all: there is nothing to make up. -/
theorem autoStart_insert {names prior : PatchColumnNames} {x : String} {name : Option String}
    (hlst : names.lst = [x]) (hname : ∀ y, name = some y → y = x) :
    autoStart names prior name true false = prior := by
  cases name with
  | none => rfl
  | some y =>
    obtain rfl := hname y rfl
    unfold autoStart
    rw [hlst]
    simp

variable (names prior : PatchColumnNames) (name : Option String)
  {a b c : List String} {x y : String}

theorem inferRename_eq (hnames : names.lst = a ++ x :: b)
    (hprior : prior.lst = a ++ y :: b) (hne : x ≠ y)
    (hlen : prior.indices.length = prior.lst.length) :
    ∃ v, prior.indices[a.length]? = some v ∧ inferRename names prior name =
      some { names := ⟨names.lst, prior.indices⟩, prior, mover := y, subject := v } := by
  have hlt : a.length < prior.indices.length := by simp [hlen, hprior]
  have hdiff : firstDifference names.lst.length names.lst prior.lst = a.length := by
    rw [hnames, hprior]
    exact firstDifference_append (Or.inr ⟨by simp, by simpa using hne⟩)
  refine ⟨prior.indices[a.length], List.getElem?_eq_getElem hlt, ?_⟩
  unfold inferRename
  rw [if_pos (by simp [hnames, hprior])]
  simp only [hdiff]
  rw [hprior, List.getElem?_append_right (le_refl _), Nat.sub_self, List.getElem?_eq_getElem hlt]
  rfl

theorem inferInsert_eq (hnames : names.lst = a ++ x :: b) (hprior : prior.lst = a ++ b)
    (hnew : x ∉ prior.lst) (hlen : prior.indices.length = prior.lst.length)
      (hname : prior.lst = [] → ∀ y, name = some y → y = x) :
    inferInsert names prior name =
      some { names := ⟨names.lst, prior.indices.insertIdx a.length (freshIndex prior.indices)⟩
             prior
             mover := x
             subject := freshIndex prior.indices } := by
  have hauto : autoStart names prior name true false = prior := by
    by_cases hnil : prior.lst = []
    · obtain ⟨rfl, rfl⟩ := List.append_eq_nil_iff.1 (hprior.symm.trans hnil)
      exact autoStart_insert hnames (hname hnil)
    · exact autoStart_eq hnil
  have hdiff : firstDifference prior.lst.length names.lst prior.lst = a.length := by
    rw [hprior, hnames]
    cases b with
    | nil => exact firstDifference_append (Or.inl (by simp))
    | cons z b =>
      refine firstDifference_append (Or.inr ⟨by simp, fun he => hnew ?_⟩)
      have hz : x = z := Option.some.inj he
      simp [hprior, hz]
  unfold inferInsert
  simp only [hauto, hdiff]
  rw [if_pos (by simp [hnames, hprior]; omega), hnames, List.getElem?_append_right (le_refl _),
    Nat.sub_self]
  by_cases hend : a.length ≥ prior.lst.length
  · have hat : a.length = prior.indices.length := by
      rw [hprior, List.length_append] at hend hlen
      omega
    rw [if_pos hend, hat, List.insertIdx_length_self]
    rfl
  · rw [if_neg hend]
    rfl

theorem inferDelete_eq (hnames : names.lst = a ++ b) (hprior : prior.lst = a ++ x :: b) (hx : x ∉ b)
    (hlen : prior.indices.length = prior.lst.length) :
    ∃ v, prior.indices[a.length]? = some v ∧ inferDelete names prior name =
      some { names := ⟨names.lst, prior.indices.eraseIdx a.length⟩, prior, mover := x, subject := v } := by
  have hlt : a.length < prior.indices.length := by simp [hlen, hprior]
  have hauto : autoStart names prior name false false = prior := autoStart_eq (by simp [hprior])
  have hdiff : firstDifference names.lst.length names.lst prior.lst = a.length := by
    rw [hprior, hnames]
    cases b with
    | nil => exact firstDifference_append (Or.inl (by simp))
    | cons z b =>
      refine firstDifference_append (Or.inr ⟨by simp, fun he => hx ?_⟩)
      have hz : z = x := Option.some.inj he
      simp [hz]
  refine ⟨prior.indices[a.length], List.getElem?_eq_getElem hlt, ?_⟩
  unfold inferDelete
  simp only [hauto, hdiff]
  rw [if_pos (by simp [hnames, hprior]; omega), hprior, List.getElem?_append_right (le_refl _),
    Nat.sub_self, List.getElem?_eq_getElem hlt]
  rfl

/-- The lists part at the old place of a name that went later, or at the new place of one that went
earlier. -/
theorem inferMove_eq {rem add : Nat} (hauto : prior.lst ≠ [])
    (hsize : names.lst.length = prior.lst.length)
    (hmover : findMover names prior name = some x) (hrem : prior.lst.idxOf x = rem)
    (hadd : names.lst.idxOf x = add)
    (hlt : add < names.lst.length) {v : Int} (hv : prior.indices[rem]? = some v) :
    inferMove names prior name = some
      { names := ⟨names.lst, if add = names.lst.length - 1 then prior.indices.eraseIdx rem ++ [v]
                             else (prior.indices.eraseIdx rem).insertIdx
                               (if add > rem then add - 1 else add) v⟩
        prior, mover := x, subject := v } := by
  unfold inferMove
  simp only [autoStart_eq hauto, hmover, Option.bind_some, hrem, hadd]
  rw [if_pos hsize, if_pos hlt, hv]
  rfl

theorem idxOf_append_cons {x : String} {a b : List String} (hx : x ∉ a) :
    (a ++ x :: b).idxOf x = a.length := by
  rw [List.idxOf_append_of_notMem hx, List.idxOf_cons_self, Nat.add_zero]

/-- A name that goes behind the names `b`. -/
theorem inferMove_later (hb : b ≠ []) (hnames : names.lst = a ++ b ++ x :: c)
    (hprior : prior.lst = a ++ x :: (b ++ c))
    (hnodup : prior.lst.Nodup) (hlen : prior.indices.length = prior.lst.length) :
    ∃ v, prior.indices[a.length]? = some v ∧ inferMove names prior name = some
      { names := ⟨names.lst, if c = [] then prior.indices.eraseIdx a.length ++ [v]
                             else (prior.indices.eraseIdx a.length).insertIdx
                               (a.length + b.length - 1) v⟩
        prior, mover := x, subject := v } := by
  have hlt : a.length < prior.indices.length := by simp [hlen, hprior]
  have hnodup' := hnodup
  rw [hprior] at hnodup'
  obtain ⟨-, hxbc, hdis⟩ := List.nodup_append.1 hnodup'
  have hxa : x ∉ a := fun h => hdis x h x List.mem_cons_self rfl
  have hxb : x ∉ b := fun h => (List.nodup_cons.1 hxbc).1 (List.mem_append_left c h)
  have hmover : findMover names prior name = some x := by
    obtain ⟨z, b, rfl⟩ := List.exists_cons_of_ne_nil hb
    have hzx : z ≠ x := fun h => hxb (h ▸ List.mem_cons_self)
    have hdiff : firstDifference names.lst.length names.lst prior.lst = a.length := by
      rw [hprior, hnames, List.append_assoc]
      exact firstDifference_append (Or.inr ⟨by simp, by simpa using hzx⟩)
    unfold findMover
    simp only [hdiff]
    rw [if_pos (by simp [hnames]), hprior, hnames]
    simp
  have hadd : names.lst.idxOf x = a.length + b.length := by
    rw [hnames, idxOf_append_cons fun h => (List.mem_append.1 h).elim hxa hxb, List.length_append]
  have hrem : prior.lst.idxOf x = a.length := by rw [hprior, idxOf_append_cons hxa]
  have hbpos : 0 < b.length := List.length_pos_iff.2 hb
  have hlast : a.length + b.length = names.lst.length - 1 ↔ c = [] := by
    rw [hnames, List.length_append, List.length_append, List.length_cons, ← List.length_eq_zero_iff]
    omega
  refine ⟨prior.indices[a.length], List.getElem?_eq_getElem hlt, ?_⟩
  rw [inferMove_eq names prior name (by simp [hprior]) (by simp [hnames, hprior]; omega) hmover hrem
    hadd (by simp [hnames])
    (List.getElem?_eq_getElem hlt), if_pos (show a.length + b.length > a.length by omega)]
  simp only [hlast]

/-- A name that goes before two names or more. -/
theorem inferMove_earlier (hb : 2 ≤ b.length) (hnames : names.lst = a ++ x :: (b ++ c))
    (hprior : prior.lst = a ++ b ++ x :: c)
    (hnodup : prior.lst.Nodup) (hlen : prior.indices.length = prior.lst.length) :
    ∃ v, prior.indices[a.length + b.length]? = some v ∧ inferMove names prior name = some
      { names := ⟨names.lst, (prior.indices.eraseIdx (a.length + b.length)).insertIdx a.length v⟩
        prior, mover := x, subject := v } := by
  have hlt : a.length + b.length < prior.indices.length := by simp [hlen, hprior]
  have hnodup' := hnodup
  rw [hprior] at hnodup'
  obtain ⟨-, -, hdis⟩ := List.nodup_append.1 hnodup'
  have hxab : x ∉ a ++ b := fun h => hdis x h x List.mem_cons_self rfl
  have hxa : x ∉ a := fun h => hxab (List.mem_append_left b h)
  have hmover : findMover names prior name = some x := by
    obtain ⟨z, b, rfl⟩ := List.exists_cons_of_length_pos (show 0 < b.length by omega)
    obtain ⟨z', b, rfl⟩ := List.exists_cons_of_length_pos (show 0 < b.length by simp at hb; omega)
    have hzx : x ≠ z := fun h => hxab (by simp [h])
    have hzx' : x ≠ z' := fun h => hxab (by simp [h])
    have hdiff : firstDifference names.lst.length names.lst prior.lst = a.length := by
      rw [hprior, hnames, List.append_assoc]
      exact firstDifference_append (Or.inr ⟨by simp, by simpa using hzx⟩)
    unfold findMover
    simp only [hdiff]
    rw [if_pos (by simp [hnames]), hprior, hnames]
    simp [hzx']
  have hadd : names.lst.idxOf x = a.length := by rw [hnames, idxOf_append_cons hxa]
  have hrem : prior.lst.idxOf x = a.length + b.length := by
    rw [hprior, idxOf_append_cons hxab, List.length_append]
  have hsize : names.lst.length = prior.lst.length := by
    rw [hnames, hprior, List.length_append, List.length_cons, List.length_append,
      List.length_append, List.length_append, List.length_cons]
    omega
  refine ⟨prior.indices[a.length + b.length], List.getElem?_eq_getElem hlt, ?_⟩
  have hlast : ¬a.length = names.lst.length - 1 := by
    rw [hnames, List.length_append, List.length_cons, List.length_append]
    omega
  rw [inferMove_eq names prior name (by simp [hprior]) hsize hmover hrem hadd (by simp [hnames])
    (List.getElem?_eq_getElem hlt),
    if_neg hlast, if_neg (show ¬a.length > a.length + b.length by omega)]

end PatchColumnNames

end Coopy
