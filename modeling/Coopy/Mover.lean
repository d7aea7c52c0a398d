import Coopy.Lib.Containers
import Mathlib.Data.List.GetD
import Mathlib.Data.List.Perm.Subperm

/-!
# `Mover`: a short list of moves that turns one order into another

`move` searches depth first: it takes an element of `dest` that does not follow its
predecessor, puts it behind that predecessor (or in front), and goes on from there.
The best order found so far is shared by all calls; calls that are too deep, and all
calls once a hundred solutions are known, give up.  Every element moves at most
once, so fuel above the number of elements is enough.

    src ~ dest → move returns true with an order whose replay on src is dest          (move_spec)

The outermost call clears what an earlier search has left behind, so this holds of a `Mover` in any
state (`move_solves`).
-/

namespace Coopy

open Lib

structure Mover where
  solutions : Nat
  globalSolved : Bool
  globalBestOrder : List Int
deriving DecidableEq, Repr

namespace Mover

def fresh : Mover := ⟨0, false, []⟩

/-- `dest[i]` taken out of `src` and put back after its predecessor in `dest`. -/
def place (dest src : List Int) (i : Nat) : List Int :=
  let nsrc := src.erase (dest.getD i 0)
  if i = 0 then dest.getD i 0 :: nsrc else insertAfter (dest.getD (i - 1) 0) (dest.getD i 0) nsrc

/-- `moving`: `dest[i]` does not stand where its predecessor wants it. -/
def moving (dest src : List Int) (i : Nat) : Bool :=
  let it := src.idxOf (dest.getD i 0)
  if it = 0 then i != 0
  else if i = 0 then true
  else src.getD (it - 1) 0 != dest.getD (i - 1) 0

/-- The variables of the loop over `dest`. -/
structure Search where
  mover : Mover
  bestOrder : List Int
  solved : Bool

/-- What the loop does with the answer of an inner call. -/
def Search.take (st : Search) (answer : Mover × Bool × List Int) : Search :=
  let (mover, ok, norder) := answer
  if ok = false then { st with mover := mover }
  else if norder.length < st.bestOrder.length ∨ st.solved = false then
    { mover :=
        if norder.length < mover.globalBestOrder.length ∨ mover.globalSolved = false then
          ⟨mover.solutions + 1, true, norder⟩
        else { mover with solutions := mover.solutions + 1 }
      bestOrder := norder
      solved := true }
  else { st with mover := mover }

def move (dest : List Int) : Nat → List Int → List Int → List Int → Nat → Mover →
    Option (Mover × Bool × List Int)
  | 0, _, _, _, _, _ => none
  | fuel + 1, src, order, forbidden, depth, mover =>
    let mover := if depth = 0 then { mover with globalSolved := false, solutions := 0 } else mover
    if mover.globalSolved = true ∧
      depth > mover.globalBestOrder.length then some (mover, false, order)
    else if mover.solutions > 100 then some (mover, false, order)
    else if src = dest then some (mover, true, order)
    else
      let body (st : Search) (i : Nat) : Option Search :=
        let x := dest.getD i 0
        if x ∈ forbidden ∨ moving dest src i = false then some st
        else (move dest fuel (place dest src i) (order ++ [x]) (forbidden ++ [x])
          (depth + 1) st.mover).map st.take
      ((List.range dest.length).foldlM body ⟨mover, [], false⟩).map fun st =>
        if st.solved then (st.mover, true, st.mover.globalBestOrder) else (st.mover, false, order)

/-! ## Replaying an order -/

/-- One element put where `dest` wants it. -/
def put (dest src : List Int) (x : Int) : List Int := place dest src (dest.idxOf x)

def replay (dest src order : List Int) : List Int := order.foldl (put dest) src

/-- `order` turns `src` into `dest`, moving no element twice. -/
structure Solution (src dest order : List Int) : Prop where
  nodup : order.Nodup
  subset : ∀ x ∈ order, x ∈ dest
  replay_eq : replay dest src order = dest

theorem put_getD {dest : List Int} (hd : dest.Nodup) (src : List Int) {i : Nat}
    (hi : i < dest.length) : put dest src (dest.getD i 0) = place dest src i := by
  unfold put
  rw [List.getD_eq_getElem _ _ hi, hd.idxOf_getElem]

theorem filter_place (dest src : List Int) (i : Nat) {p : Int → Bool}
    (hp : p (dest.getD i 0) = false) : (place dest src i).filter p = src.filter p := by
  unfold place
  simp only
  split
  · rw [List.filter_cons, hp, filter_erase hp]
    rfl
  · rw [filter_insertAfter hp, filter_erase hp]

theorem filter_put {dest : List Int} (src : List Int) {x : Int} (hx : x ∈ dest) {p : Int → Bool}
    (hp : p x = false) : (put dest src x).filter p = src.filter p := by
  unfold put
  refine filter_place dest src _ ?_
  have hlt := List.idxOf_lt_length_of_mem hx
  rw [List.getD_eq_getElem _ _ hlt, List.getElem_idxOf hlt]
  exact hp

/-- The elements an order leaves alone keep their relative order. -/
theorem Solution.filter_eq {src dest order : List Int} (h : Solution src dest order) :
    (src.filter fun x => decide (x ∉ order)) = dest.filter fun x => decide (x ∉ order) := by
  have key : ∀ (xs : List Int) (s : List Int), (∀ x ∈ xs, x ∈ order) →
      ((replay dest s xs).filter fun x => decide (x ∉ order)) = s.filter fun x =>
      decide (x ∉ order) := by
    intro xs
    induction xs with
    | nil => exact fun _ _ => rfl
    | cons x xs ih =>
      intro s hxs
      have hx := hxs x (by simp)
      show ((replay dest (put dest s x) xs).filter _) = _
      rw [ih _ fun y hy => hxs y (List.mem_cons_of_mem _ hy),
        filter_put s (h.subset x hx) (by simp [hx])]
  have := key order src fun x hx => hx
  rw [h.replay_eq] at this
  exact this.symm

/-! ## The search is sound and total -/

section
variable {src0 dest : List Int}

/-- The best order on record is a solution. -/
def Sound (src0 dest : List Int) (mover : Mover) : Prop :=
  mover.globalSolved = true → Solution src0 dest mover.globalBestOrder

/-- What a call leaves behind. -/
structure Answers (src0 dest : List Int) (before : Mover) (depth : Nat)
    (r : Mover × Bool × List Int) : Prop where
  sound : Sound src0 dest r.1
  kept : 0 < depth → before.globalSolved = true → r.1.globalSolved = true
  found : r.2.1 = true → Solution src0 dest r.2.2

/-- The invariant of the loop over `dest`. -/
structure LoopOk (src0 dest : List Int) (before : Mover) (st : Search) : Prop where
  sound : Sound src0 dest st.mover
  kept : before.globalSolved = true → st.mover.globalSolved = true
  solved : st.solved = true → st.mover.globalSolved = true

theorem LoopOk.take {before : Mover} {st : Search} (h : LoopOk src0 dest before st) {depth : Nat}
    (hd : 0 < depth) {r : Mover × Bool × List Int} (hr : Answers src0 dest st.mover depth r) :
    LoopOk src0 dest before (st.take r) := by
  obtain ⟨mover, ok, norder⟩ := r
  have hkeep : before.globalSolved = true → mover.globalSolved = true :=
    fun hb => hr.kept hd (h.kept hb)
  have hsolved : st.solved = true → mover.globalSolved = true := fun hs => hr.kept hd (h.solved hs)
  unfold Search.take
  simp only
  split
  · exact ⟨hr.sound, hkeep, hsolved⟩
  · next hok =>
    have hsol : Solution src0 dest norder := hr.found (by simpa using hok)
    split
    · split
      · exact ⟨fun _ => hsol, fun _ => rfl, fun _ => rfl⟩
      · next hbest =>
        have hgs : mover.globalSolved = true := by
          cases hm : mover.globalSolved with
          | true => rfl
          | false => exact absurd (Or.inr hm) hbest
        exact ⟨hr.sound, hkeep, fun _ => hgs⟩
    · exact ⟨hr.sound, hkeep, hsolved⟩

theorem Search.take_solved {st : Search} {r : Mover × Bool × List Int} (h : st.solved = true ∨
    r.2.1 = true) : (st.take r).solved = true := by
  obtain ⟨mover, ok, norder⟩ := r
  unfold Search.take
  simp only at h ⊢
  split
  · next hok => exact h.resolve_right (by rw [hok]; exact Bool.false_ne_true)
  · split
    · rfl
    · next hbest =>
      cases hs : st.solved with
      | true => rfl
      | false => exact absurd (Or.inr hs) hbest

/-- The answer that `move` gives with `fuel` from any place reached by replaying `order`. -/
def Total (src0 dest : List Int) (fuel : Nat) : Prop :=
  ∀ (src order : List Int) (depth : Nat) (mover : Mover),
    order.Nodup → (∀ x ∈ order, x ∈ dest) → replay dest src0 order = src → Sound src0 dest mover →
    dest.length < fuel + order.length →
    ∃ r, move dest fuel src order order depth mover = some r ∧ Answers src0 dest mover depth r

/-- What a call does to the record first. -/
def entered (depth : Nat) (mover : Mover) : Mover :=
  if depth = 0 then { mover with globalSolved := false, solutions := 0 } else mover

/-- One turn of the loop over `dest`, where what was moved is what is forbidden. -/
def visit (dest : List Int) (fuel : Nat) (src order : List Int) (depth : Nat) (st : Search)
    (i : Nat) : Option Search :=
  if dest.getD i 0 ∈ order ∨ moving dest src i = false then some st
  else (move dest fuel (place dest src i) (order ++ [dest.getD i 0]) (order ++ [dest.getD i 0])
    (depth + 1) st.mover).map st.take

theorem move_succ (fuel : Nat) (src order : List Int) (depth : Nat) (mover : Mover) :
    move dest (fuel + 1) src order order depth mover =
      if (entered depth mover).globalSolved = true ∧
      depth > (entered depth mover).globalBestOrder.length then
        some (entered depth mover, false, order)
      else if (entered depth mover).solutions > 100 then some (entered depth mover, false, order)
      else if src = dest then some (entered depth mover, true, order)
      else ((List.range dest.length).foldlM (visit dest fuel src order depth) ⟨entered depth mover,
        [], false⟩).map fun st =>
        if st.solved then (st.mover, true, st.mover.globalBestOrder)
          else (st.mover, false, order) := rfl

theorem entered_of_unsolved {mover : Mover} (hg : mover.globalSolved = false)
    (hs : mover.solutions = 0) (depth : Nat) : entered depth mover = mover := by
  unfold entered
  split
  · rw [← hg, ← hs]
  · rfl

/-- A call before any solution is known. -/
theorem move_unsolved {mover : Mover} (hg : mover.globalSolved = false)
    (hs : mover.solutions = 0) (fuel : Nat) (src order : List Int) (depth : Nat) :
    move dest (fuel + 1) src order order depth mover =
      if src = dest then some (mover, true, order)
      else ((List.range dest.length).foldlM (visit dest fuel src order depth)
        ⟨mover, [], false⟩).map fun st =>
        if st.solved then (st.mover, true, st.mover.globalBestOrder)
          else (st.mover, false, order) := by
  rw [move_succ, entered_of_unsolved hg hs, hg, hs, if_neg (fun h => Bool.noConfusion h.1),
    if_neg (by omega)]

/-- One turn of the loop over `dest`. -/
theorem loop_step (hd : dest.Nodup) {fuel : Nat} (H : Total src0 dest fuel)
    {src order : List Int} (depth : Nat)
    (hn : order.Nodup) (hsub : ∀ x ∈ order, x ∈ dest) (hrep : replay dest src0 order = src)
    (hf : dest.length < fuel + 1 + order.length) {mv : Mover} {st : Search}
    (hst : LoopOk src0 dest mv st) {i : Nat} (hi : i < dest.length) :
    ∃ st' : Search, visit dest fuel src order depth st i = some st' ∧ LoopOk src0 dest mv st' ∧
      (st.solved = true → st'.solved = true) := by
  unfold visit
  by_cases hskip : dest.getD i 0 ∈ order ∨ moving dest src i = false
  · exact ⟨st, if_pos hskip, hst, id⟩
  · rw [if_neg hskip]
    have hx : dest.getD i 0 ∉ order := fun h => hskip (Or.inl h)
    have hxd : dest.getD i 0 ∈ dest := by
      rw [List.getD_eq_getElem _ _ hi]
      exact List.getElem_mem hi
    have hrep' : replay dest src0 (order ++ [dest.getD i 0]) = place dest src i := by
      unfold replay at hrep ⊢
      rw [List.foldl_append, hrep]
      exact put_getD hd src hi
    obtain ⟨r, hr, hans⟩ := H (place dest src i) (order ++ [dest.getD i 0]) (depth + 1) st.mover
      (List.nodup_append.mpr ⟨hn, List.nodup_singleton _, fun a ha b hb hab => by
        rw [List.mem_singleton.mp hb] at hab; exact hx (hab ▸ ha)⟩)
      (fun x hx' => by
        rcases List.mem_append.mp hx' with h | h
        · exact hsub x h
        · rw [List.mem_singleton.mp h]; exact hxd)
      hrep' hst.sound (by rw [List.length_append, List.length_singleton]; omega)
    rw [hr]
    exact ⟨_, rfl, hst.take (Nat.succ_pos _) hans, fun h => Search.take_solved (Or.inl h)⟩

/-- **Soundness and termination.**  With one unit of fuel for each element not yet moved,
`move` answers, and what it reports as solved is a solution. -/
theorem move_sound (hd : dest.Nodup) (fuel : Nat) : Total src0 dest fuel := by
  induction fuel with
  | zero =>
    intro src order depth mover hn hsub _ _ hf
    have := (List.subperm_of_subset hn hsub).length_le
    omega
  | succ fuel ih =>
    intro src order depth mover hn hsub hrep hs hf
    have hs' : Sound src0 dest (entered depth mover) := by
      unfold entered
      split
      · exact fun h => by cases h
      · exact hs
    have hk' : 0 < depth → mover.globalSolved = true →
      (entered depth mover).globalSolved = true := by
      intro hdep hg
      rw [entered, if_neg (by omega)]
      exact hg
    rw [move_succ]
    generalize entered depth mover = mv at hs' hk'
    split
    · exact ⟨_, rfl, hs', hk', fun h => by cases h⟩
    split
    · exact ⟨_, rfl, hs', hk', fun h => by cases h⟩
    split
    · next he => exact ⟨_, rfl, hs', hk', fun _ => ⟨hn, hsub, hrep.trans he⟩⟩
    · obtain ⟨st, hst, hok⟩ := foldlM_invariant (LoopOk src0 dest mv) (List.range dest.length)
        (fun st hst i hi => by
          obtain ⟨st', h1, h2, -⟩ :=
            loop_step hd ih depth hn hsub hrep hf hst (List.mem_range.mp hi)
          exact ⟨st', h1, h2⟩)
        (s := ⟨mv, [], false⟩) ⟨hs', id, fun h => by cases h⟩
      rw [hst]
      simp only [Option.map_some]
      split
      · next hsolved =>
        exact ⟨_, rfl, hok.sound, fun hdep hg => hok.kept (hk' hdep hg),
          fun _ => hok.sound (hok.solved hsolved)⟩
      · exact ⟨_, rfl, hok.sound, fun hdep hg => hok.kept (hk' hdep hg), fun h => by cases h⟩

end

/-! ## The first descent finds a solution -/

section
variable {pre tail rest : List Int}

/-- Where the two orders agree up to an index, nothing there has to move. -/
theorem moving_prefix (hn : (pre ++ rest).Nodup) {j : Nat} (hj : j < pre.length) :
    moving (pre ++ tail) (pre ++ rest) j = false := by
  have hlt : ∀ (xs : List Int) (k : Nat), k < pre.length → (pre ++ xs).getD k 0 = pre.getD k 0 := by
    intro xs k hk
    rw [List.getD_append _ _ _ _ hk]
  have hidx : (pre ++ rest).idxOf (pre.getD j 0) = j := by
    have hj' : j < (pre ++ rest).length := by rw [List.length_append]; omega
    rw [← hlt rest j hj, List.getD_eq_getElem _ _ hj', hn.idxOf_getElem]
  unfold moving
  simp only
  rw [hlt tail j hj, hidx]
  by_cases h0 : j = 0
  · simp [h0]
  · rw [if_neg h0, if_neg h0, hlt tail (j - 1) (by omega), hlt rest (j - 1) (by omega)]
    simp

theorem getD_length_append (xs : List Int) (x : Int) (ys : List Int) :
    (xs ++ x :: ys).getD xs.length 0 = x := by
  rw [List.getD_append_right _ _ _ _ (Nat.le_refl _), Nat.sub_self]
  rfl

/-- The first element that is out of place has to move. -/
theorem moving_first {x y : Int} (hx : x ∉ pre) (hxy : x ≠ y) (hn : (pre ++ y :: rest).Nodup)
    (hm : x ∈ rest) : moving (pre ++ x :: tail) (pre ++ y :: rest) pre.length = true := by
  have hidx : (pre ++ y :: rest).idxOf x = pre.length + 1 + rest.idxOf x := by
    rw [List.idxOf_append_of_notMem hx, List.idxOf_cons_ne _ (Ne.symm hxy)]
    omega
  unfold moving
  simp only
  rw [getD_length_append, hidx, if_neg (by omega)]
  by_cases h0 : pre.length = 0
  · rw [if_pos h0]
  · have hrl := List.idxOf_lt_length_of_mem hm
    have hpred : (pre ++ x :: tail).getD (pre.length - 1) 0 ∈ pre := by
      rw [List.getD_append _ _ _ _ (by omega), List.getD_eq_getElem _ _ (by omega)]
      exact List.getElem_mem _
    have hleft : (pre ++ y :: rest).getD (pre.length + 1 + rest.idxOf x - 1) 0 ∈ y :: rest := by
      rw [List.getD_append_right _ _ _ _ (by omega),
        List.getD_eq_getElem _ _ (by rw [List.length_cons]; omega)]
      exact List.getElem_mem _
    rw [if_neg h0, bne_iff_ne]
    exact fun he => (List.nodup_append.mp hn).2.2 _ hpred _ hleft he.symm

/-- Moving it makes the two orders agree one element further. -/
theorem place_first {x : Int} (hx : x ∉ pre) (hn : (pre ++ x :: tail).Nodup) :
    place (pre ++ x :: tail) (pre ++ rest) pre.length = pre ++ x :: rest.erase x := by
  unfold place
  simp only
  rw [getD_length_append, List.erase_append_right _ hx]
  rcases List.eq_nil_or_concat' pre with rfl | ⟨pre', z, rfl⟩
  · rfl
  · have hlen : (pre' ++ [z]).length = pre'.length + 1 := by simp
    have hz : z ∉ pre' := by
      intro hm
      have := (List.nodup_append.mp hn).1
      exact (List.nodup_append.mp this).2.2 z hm z (by simp) rfl
    rw [if_neg (by omega), hlen, Nat.add_sub_cancel, List.append_assoc, List.append_assoc,
      show [z] ++ x :: tail = z :: (x :: tail) from rfl, getD_length_append,
      show [z] ++ rest.erase x = z :: rest.erase x from rfl, insertAfter_append hz]
    simp

end

theorem foldlM_skip {σ : Type} {f : σ → Nat → Option σ} {xs : List Nat} {s : σ}
    (h : ∀ x ∈ xs, f s x = some s) : xs.foldlM f s = some s := by
  induction xs with
  | nil => rfl
  | cons x xs ih =>
    rw [List.foldlM_cons, h x (by simp)]
    exact ih fun y hy => h y (List.mem_cons_of_mem _ hy)

section
variable {src0 dest : List Int}

/-- Before any solution is known, the search that works from the left finds one. -/
theorem move_finds (hd : dest.Nodup) (fuel : Nat) :
    ∀ (tail pre rest order : List Int) (depth : Nat) (mover : Mover) (r : Mover × Bool × List Int),
    dest = pre ++ tail → rest.Perm tail → (∀ x ∈ order, x ∈ pre) → order.Nodup →
    replay dest src0 order = pre ++ rest → mover.globalSolved = false → mover.solutions = 0 →
    dest.length < fuel + order.length →
    move dest fuel (pre ++ rest) order order depth mover = some r → r.2.1 = true := by
  induction fuel with
  | zero => intro tail pre rest order depth mover r _ _ _ _ _ _ _ _ h; cases h
  | succ fuel ih =>
    intro tail
    induction tail with
    | nil =>
      intro pre rest order depth mover r hdest hperm _ _ _ hg hs _ hr
      have hnil : rest = [] := hperm.eq_nil
      subst hnil
      rw [← hdest, move_unsolved hg hs, if_pos rfl] at hr
      rw [← Option.some.inj hr]
    | cons x tail ihtail =>
      intro pre rest order depth mover r hdest hperm hord hnd hrep hg hs hf hr
      cases rest with
      | nil => exact absurd hperm.length_eq (by simp)
      | cons y rest =>
        by_cases hxy : x = y
        · subst hxy
          refine ihtail (pre ++ [x]) rest order depth mover r (by rw [hdest]; simp) hperm.cons_inv
            (fun z hz => List.mem_append_left _ (hord z hz)) hnd (by rw [hrep]; simp) hg hs hf ?_
          rw [← hr, List.append_assoc]
          rfl
        · have hx : x ∉ pre := fun hm => by
            rw [hdest] at hd
            exact (List.nodup_append.mp hd).2.2 x hm x (by simp) rfl
          have hmem : x ∈ rest :=
            (List.mem_cons.mp (hperm.symm.subset (List.mem_cons_self (a := x)))).resolve_left hxy
          have hn : (pre ++ y :: rest).Nodup := by
            rw [hdest] at hd
            exact (hperm.append_left pre).nodup_iff.mpr hd
          have hne : pre ++ y :: rest ≠ dest := by
            rw [hdest]
            intro he
            exact hxy (List.cons.inj (List.append_cancel_left he)).1.symm
          have hxo : x ∉ order := fun hm => hx (hord x hm)
          have hget : dest.getD pre.length 0 = x := by rw [hdest, getD_length_append]
          have hplace :
            place dest (pre ++ y :: rest) pre.length = (pre ++ [x]) ++ (y :: rest).erase x := by
            rw [hdest, place_first hx (hdest ▸ hd)]
            simp
          have hnd' : (order ++ [x]).Nodup :=
            List.nodup_append.mpr ⟨hnd, List.nodup_singleton _, fun a ha b hb hab => by
              rw [List.mem_singleton.mp hb] at hab
              exact hxo (hab ▸ ha)⟩
          have hord' : ∀ z ∈ order ++ [x], z ∈ pre ++ [x] := by
            intro z hz
            rcases List.mem_append.mp hz with hz | hz
            · exact List.mem_append_left _ (hord z hz)
            · exact List.mem_append_right _ hz
          have hsub : ∀ z ∈ order ++ [x], z ∈ dest := by
            intro z hz
            rw [hdest]
            rcases List.mem_append.mp (hord' z hz) with hz | hz
            · exact List.mem_append_left _ hz
            · rw [List.mem_singleton.mp hz]
              simp
          have hplen : pre.length < dest.length := by rw [hdest]; simp
          have hrep' : replay dest src0 (order ++ [x]) = (pre ++ [x]) ++ (y :: rest).erase x := by
            have hput := put_getD hd (pre ++ y :: rest) hplen
            rw [hget, hplace] at hput
            unfold replay at hrep ⊢
            rw [List.foldl_append, hrep]
            exact hput
          have hflen : dest.length < fuel + (order ++ [x]).length := by
            rw [List.length_append, List.length_singleton]
            omega
          have hsound : Sound src0 dest mover := fun h => by rw [hg] at h; cases h
          -- the inner call at the first element out of place succeeds
          obtain ⟨r1, hr1, hans⟩ :=
            move_sound hd fuel _ (order ++ [x]) (depth + 1) mover hnd' hsub hrep'
            hsound hflen
          have hok1 : r1.2.1 = true :=
            ih tail (pre ++ [x]) ((y :: rest).erase x) (order ++ [x]) (depth + 1) mover r1
              (by rw [hdest]; simp) (by simpa using hperm.erase x) hord' hnd' hrep' hg hs hflen hr1
          have hloop : LoopOk src0 dest mover ⟨mover, [], false⟩ :=
            ⟨hsound, id, fun h => by cases h⟩
          have hsub0 : ∀ z ∈ order, z ∈ dest := fun z hz => hsub z (List.mem_append_left _ hz)
          -- everything before the first element out of place is skipped
          have hskip : ∀ i ∈ List.range pre.length,
              visit dest fuel (pre ++ y :: rest) order depth ⟨mover, [], false⟩ i =
              some ⟨mover, [], false⟩ := by
            intro i hi
            have hstill : moving dest (pre ++ y :: rest) i = false := by
              rw [hdest]
              exact moving_prefix hn (List.mem_range.mp hi)
            exact if_pos (Or.inr hstill)
          have hfirst :
            visit dest fuel (pre ++ y :: rest) order depth ⟨mover, [], false⟩ pre.length =
              some (Search.take ⟨mover, [], false⟩ r1) := by
            have hmove : moving dest (pre ++ y :: rest) pre.length = true := by
              rw [hdest]
              exact moving_first hx hxy hn hmem
            rw [visit, hget, if_neg (by rw [hmove]; simp [hxo]), hplace, hr1]
            rfl
          obtain ⟨st, hst, -, hsolved⟩ := foldlM_invariant
            (fun st => LoopOk src0 dest mover st ∧ st.solved = true)
            (List.range' (pre.length + 1) (dest.length - (pre.length + 1)))
            (fun st hst i hi => by
              rw [List.mem_range'_1] at hi
              obtain ⟨st', h1, h2, h3⟩ :=
                loop_step hd (move_sound hd fuel) depth hnd hsub0 hrep hf hst.1
                  (show i < dest.length by omega)
              exact ⟨st', h1, h2, h3 hst.2⟩)
            ⟨hloop.take (Nat.succ_pos _) hans, Search.take_solved (Or.inr hok1)⟩
          have hrange : List.range dest.length =
              List.range pre.length ++ pre.length :: List.range' (pre.length + 1)
              (dest.length - (pre.length + 1)) := by
            rw [List.range_eq_range', List.range_eq_range',
              show dest.length = pre.length + (dest.length - (pre.length + 1) + 1) by
                omega, ← List.range'_append_1,
              Nat.zero_add, List.range'_succ]
            congr 3
            omega
          rw [move_unsolved hg hs, if_neg hne, hrange, List.foldlM_append, foldlM_skip hskip] at hr
          simp only [Option.bind_eq_bind, Option.bind_some, List.foldlM_cons, hfirst, hst,
            Option.map_some, hsolved, if_true, Option.some.injEq] at hr
          rw [← hr]

/-- **The move list.**  For two orders of the same distinct elements, `move` succeeds, and
its order, replayed on `src`, gives `dest` with no element moved twice. -/
theorem move_spec {src dest : List Int} (hd : dest.Nodup) (hp : src.Perm dest) {fuel : Nat}
    (hf : dest.length < fuel) :
    ∃ mover order, move dest fuel src [] [] 0 fresh = some (mover, true, order) ∧
    Solution src dest order := by
  obtain ⟨⟨mover, ok, order⟩, hr, hans⟩ := move_sound hd fuel src [] 0 fresh List.nodup_nil
    (fun x hx => by simp at hx) rfl (fun h => by cases h) (by simpa using hf)
  have hok : ok = true :=
    move_finds hd fuel dest [] src [] 0 fresh _ rfl hp (fun x hx => by simp at hx)
    List.nodup_nil rfl rfl rfl (by simpa using hf) hr
  subst hok
  exact ⟨mover, order, hr, hans.found rfl⟩

/-- The outermost call starts from a clean record, but for the order of an earlier search. -/
theorem move_outermost (fuel : Nat) (src : List Int) (mover : Mover) :
    move dest fuel src [] [] 0 mover = move dest fuel src [] [] 0
      { mover with globalSolved := false, solutions := 0 } := by
  cases fuel with
  | zero => rfl
  | succ fuel => rfl

/-- **A correct move list**, whatever the `Mover` was used for before: on two orders of the same
distinct elements the search returns, with success, an order that moves each element at most once
and leads from `src` to `dest`. -/
theorem move_solves {src dest : List Int} (hs : src.Nodup) (hp : src.Perm dest) (before : Mover) :
    ∃ mover order, move dest (dest.length + 1) src [] [] 0 before = some (mover, true, order) ∧
      order.Nodup ∧ (∀ x ∈ order, x ∈ dest) ∧ replay dest src order = dest := by
  have hd : dest.Nodup := hp.nodup_iff.1 hs
  have hsound : Sound src dest { before with globalSolved := false, solutions := 0 } := fun h => by
    cases h
  rw [move_outermost]
  obtain ⟨⟨mover, ok, order⟩, hr, hans⟩ := move_sound hd (dest.length + 1) src [] 0 _ List.nodup_nil
    (fun x hx => by simp at hx) rfl hsound (by simp)
  have hok : ok = true :=
    move_finds hd (dest.length + 1) dest [] src [] 0 _ _ rfl hp (fun x hx => by simp at hx)
    List.nodup_nil rfl rfl rfl (by simp) hr
  have hsol : Solution src dest order := hans.found hok
  subst hok
  exact ⟨mover, order, hr, hsol.nodup, hsol.subset, hsol.replay_eq⟩

theorem move_solves_rotated :
    ∃ mover order, move [0, 1, 2] 4 [2, 0, 1] [] [] 0 fresh = some (mover, true, order) ∧
    order.Nodup ∧ (∀ x ∈ order, x ∈ [0, 1, 2]) ∧ replay [0, 1, 2] [2, 0, 1] order = [0, 1, 2] :=
  @move_solves [2, 0, 1] [0, 1, 2] (by decide) (by decide) fresh

end

end Mover

end Coopy
