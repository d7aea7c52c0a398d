import Coopy.Lib.Containers
import Mathlib.Data.List.Induction

/-!
# Two maps filled by overwriting

Pairs are entered in turn into a map from left to right and into one from right to left, each entry
replacing what stood there.

    last ps x = some y : the last pair with `x` on the left has `y` on the right
    the two maps are inverse ↔
      a pair is the last with its left side iff it is the last with its right          (inverse_iff)
-/

namespace Coopy.Lib.Overwrites

section
variable {α β : Type} [DecidableEq α] [DecidableEq β]

/-- What the map holds under `x` in the end. -/
def last : List (α × β) → α → Option β
  | [], _ => none
  | e :: ps, x => (last ps x).or (if e.1 = x then some e.2 else none)

/-- The pairs, read from right to left. -/
def turned (ps : List (α × β)) : List (β × α) := ps.map Prod.swap

/-- Each pair is the last with its left side exactly if it is the last with its right side. -/
def LastTogether : List (α × β) → Prop
  | [] => True
  | e :: ps => (e.1 ∈ ps.map Prod.fst ↔ e.2 ∈ ps.map Prod.snd) ∧ LastTogether ps

instance : (ps : List (α × β)) → Decidable (LastTogether ps)
  | [] => isTrue trivial
  | _ :: ps =>
    have := instDecidableLastTogether ps
    inferInstanceAs (Decidable (_ ∧ _))

omit [DecidableEq β] in
theorem mem_of_last {ps : List (α × β)} {x : α} {y : β} (h : last ps x = some y) : (x, y) ∈ ps := by
  induction ps with
  | nil => cases h
  | cons e ps ih =>
    rw [last] at h
    rcases Option.or_eq_some_iff.1 h with h | ⟨-, h⟩
    · exact List.mem_cons_of_mem _ (ih h)
    · split at h
      · next hx =>
        cases h
        exact hx ▸ List.mem_cons_self
      · cases h

omit [DecidableEq β] in
theorem last_eq_none_iff {ps : List (α × β)} {x : α} : last ps x = none ↔ x ∉ ps.map Prod.fst := by
  induction ps with
  | nil => simp [last]
  | cons e ps ih =>
    rw [last, Option.or_eq_none_iff, ih, List.map_cons, List.mem_cons, not_or, and_comm]
    by_cases hx : e.1 = x
    · simp [hx]
    · simp [hx, Ne.symm hx]

omit [DecidableEq α] [DecidableEq β] in
theorem map_fst_turned (ps : List (α × β)) : (turned ps).map Prod.fst = ps.map Prod.snd := by
  rw [turned, List.map_map]
  rfl

omit [DecidableEq α] [DecidableEq β] in
theorem turned_turned (ps : List (α × β)) : turned (turned ps) = ps := by
  rw [turned, turned, List.map_map, Prod.swap_swap_eq, List.map_id]

/-- What the first map holds, the second holds the other way. -/
def Answers (ps : List (α × β)) : Prop := ∀ x y, last ps x = some y → last (turned ps) y = some x

omit [DecidableEq β] in
theorem last_cons (e : α × β) (ps : List (α × β)) (x : α) :
    last (e :: ps) x = (last ps x).or (if e.1 = x then some e.2 else none) := rfl

omit [DecidableEq α] in
/-- A later entry under `y` hides the first one. -/
theorem last_turned_of_mem {e : α × β} {ps : List (α × β)} {x : α} {y : β}
    (hy : y ∈ ps.map Prod.snd)
    (h : last (turned (e :: ps)) y = some x) : last (turned ps) y = some x := by
  rw [turned, List.map_cons, last_cons] at h
  cases hr : last (turned ps) y with
  | none => exact absurd hy (by rw [← map_fst_turned]; exact last_eq_none_iff.1 hr)
  | some x' =>
    rw [turned] at hr
    rw [hr] at h
    exact h

theorem Answers.tail {e : α × β} {ps : List (α × β)} (h : Answers (e :: ps)) : Answers ps :=
    fun x y hx => by
  have hcons : last (e :: ps) x = some y := by rw [last_cons, hx, Option.some_or]
  exact last_turned_of_mem (List.mem_map.2 ⟨(x, y), mem_of_last hx, rfl⟩) (h x y hcons)

/-- Were the first pair the last one of its left side alone, the first map would hold what the
second does not. -/
theorem Answers.head {e : α × β} {ps : List (α × β)} (h : Answers (e :: ps))
    (hr : e.2 ∈ ps.map Prod.snd) : e.1 ∈ ps.map Prod.fst := by
  by_contra hl
  have hcons : last (e :: ps) e.1 = some e.2 := by
    rw [last_cons, last_eq_none_iff.2 hl, Option.none_or, if_pos rfl]
  have hmem := mem_of_last (last_turned_of_mem hr (h e.1 e.2 hcons))
  rw [turned, List.mem_map] at hmem
  obtain ⟨e', he', hswap⟩ := hmem
  exact hl (List.mem_map.2 ⟨e', he', (Prod.mk.inj hswap).2⟩)

theorem Answers.cons {e : α × β} {ps : List (α × β)} (h : Answers ps)
    (hhead : e.2 ∈ ps.map Prod.snd → e.1 ∈ ps.map Prod.fst) : Answers (e :: ps) := fun x y hx => by
  rw [turned, List.map_cons, last_cons]
  rw [last_cons] at hx
  rcases Option.or_eq_some_iff.1 hx with hx | ⟨hnone, hx⟩
  · have hy := h x y hx
    rw [turned] at hy
    rw [hy, Option.some_or]
  · split at hx
    · next he =>
      cases hx
      have hr : last (turned ps) e.2 = none := by
        rw [last_eq_none_iff, map_fst_turned]
        exact fun hmem => last_eq_none_iff.1 hnone (he ▸ hhead hmem)
      rw [turned] at hr
      rw [hr, Option.none_or]
      exact (if_pos rfl).trans (congrArg some he)
    · cases hx

/-- **Inverse maps.**  The two maps are inverse if and only if no pair is overwritten on one side
alone. -/
theorem inverse_iff (ps : List (α × β)) : (Answers ps ∧ Answers (turned ps)) ↔ LastTogether ps := by
  induction ps with
  | nil => exact iff_of_true ⟨(fun _ _ h => nomatch h), (fun _ _ h => nomatch h)⟩ trivial
  | cons e ps ih =>
    have hfst : ((turned ps).map Prod.fst) = ps.map Prod.snd := map_fst_turned ps
    have hsnd : ((turned ps).map Prod.snd) = ps.map Prod.fst := by
      rw [← map_fst_turned, turned_turned]
    constructor
    · rintro ⟨hl, hr⟩
      have hr : Answers (e.swap :: turned ps) := hr
      refine ⟨⟨fun hmem => ?_, hl.head⟩, ih.1 ⟨hl.tail, hr.tail⟩⟩
      rw [← hfst]
      exact hr.head (hsnd ▸ hmem)
    · rintro ⟨hhead, htail⟩
      obtain ⟨hl, hr⟩ := ih.2 htail
      refine ⟨hl.cons hhead.2, ?_⟩
      show Answers (e.swap :: turned ps)
      refine hr.cons fun hmem => ?_
      rw [hfst]
      exact hhead.1 (hsnd ▸ hmem)

omit [DecidableEq β] in
theorem last_append (ps qs : List (α × β)) (x : α) :
    last (ps ++ qs) x = (last qs x).or (last ps x) := by
  induction ps with
  | nil => exact (Option.or_none).symm
  | cons e ps ih => rw [List.cons_append, last_cons, ih, last_cons, Option.or_assoc]

end

/-! ## Maps and arrays that are filled so -/

section
variable {κ α : Type} [DecidableEq κ]

theorem get?_foldl_set_eq_last (es : List (κ × α)) (k : κ) : ∀ m : AssocMap κ α,
    (es.foldl (fun m e => m.set e.1 e.2) m).get? k = (last es k).or (m.get? k) := by
  induction es with
  | nil => exact fun m => rfl
  | cons e es ih =>
    intro m
    rw [List.foldl_cons, ih, last_cons, Option.or_assoc, AssocMap.get?_set]
    by_cases hk : e.1 = k
    · rw [if_pos hk, if_pos hk.symm, Option.some_or]
    · rw [if_neg hk, if_neg (Ne.symm hk), Option.none_or]

/-- Entries written into an array. -/
def fill (ps : List (Nat × α)) (xs : List α) : List α := ps.foldl (fun xs e => xs.set e.1 e.2) xs

@[simp] theorem length_fill (ps : List (Nat × α)) :
    ∀ xs : List α, (fill ps xs).length = xs.length := by
  induction ps with
  | nil => exact fun xs => rfl
  | cons e ps ih => exact fun xs => (ih _).trans List.length_set

theorem getElem?_fill (ps : List (Nat × α)) {i : Nat} : ∀ xs : List α, i < xs.length →
    (fill ps xs)[i]? = (last ps i).or xs[i]? := by
  induction ps with
  | nil => exact fun xs _ => rfl
  | cons e ps ih =>
    intro xs hi
    have hlen : i < (xs.set e.1 e.2).length := by rwa [List.length_set]
    rw [show fill (e :: ps) xs = fill ps (xs.set e.1 e.2) from rfl, ih _ hlen, last_cons,
      Option.or_assoc, List.getElem?_set]
    by_cases hk : e.1 = i
    · subst hk
      rw [if_pos rfl, if_pos rfl, if_pos hi, Option.some_or]
    · rw [if_neg hk, if_neg hk, Option.none_or]

/-- The place of each key, the last one where it stands at several. -/
def indexBy (keys : List κ) : AssocMap κ Nat := keys.zipIdx.foldl (fun m e => m.set e.1 e.2) []

theorem indexBy_eq_some_iff {keys : List κ} {k : κ} {i : Nat} :
    (indexBy keys).get? k = some i ↔ keys[i]? = some k ∧ ∀ j, i < j → keys[j]? ≠ some k := by
  have hlast : (indexBy keys).get? k = last keys.zipIdx k := by
    rw [indexBy, get?_foldl_set_eq_last, AssocMap.get?_nil, Option.or_none]
  rw [hlast]
  clear hlast
  induction keys using List.reverseRecOn with
  | nil => exact iff_of_false (fun h => nomatch h) fun h => nomatch h.1
  | append_singleton keys k' ih =>
    have hzip : (keys ++ [k']).zipIdx = keys.zipIdx ++ [(k', keys.length)] := by
      rw [List.zipIdx_append, List.zipIdx_singleton, Nat.zero_add]
    have hnew : (keys ++ [k'])[keys.length]? = some k' := by
      rw [List.getElem?_append_right (Nat.le_refl _), Nat.sub_self]
      rfl
    have hold : ∀ j, j < keys.length → (keys ++ [k'])[j]? = keys[j]? :=
      fun j hj => List.getElem?_append_left hj
    have hlt : ∀ j, (keys ++ [k'])[j]? = some k → j < keys.length ∨ j = keys.length :=
      fun j hj => by
      have := (List.getElem?_eq_some_iff.1 hj).1
      rw [List.length_append, List.length_singleton] at this
      omega
    rw [hzip, last_append]
    by_cases hk : k' = k
    · subst hk
      rw [show last [(k', keys.length)] k' =
        some keys.length by simp [last], Option.some_or, Option.some.injEq]
      constructor
      · rintro rfl
        refine ⟨hnew, fun j hj he => ?_⟩
        have := hlt j he
        omega
      · rintro ⟨hi, hlater⟩
        rcases hlt i hi with h | h
        · exact absurd hnew (hlater _ h)
        · exact h.symm
    · rw [show last [(k', keys.length)] k = none by simp [last, hk], Option.none_or]
      refine ih.trans ?_
      constructor
      · rintro ⟨hi, hlater⟩
        have hi' := (List.getElem?_eq_some_iff.1 hi).1
        refine ⟨(hold i hi').trans hi, fun j hj he => ?_⟩
        rcases hlt j he with h | h
        · exact hlater j hj ((hold j h).symm.trans he)
        · rw [h, hnew] at he
          exact hk (Option.some.inj he)
      · rintro ⟨hi, hlater⟩
        rcases hlt i hi with h | h
        · refine ⟨(hold i h).symm.trans hi, fun j hj he => ?_⟩
          have hj' := (List.getElem?_eq_some_iff.1 he).1
          exact hlater j hj ((hold j hj').trans he)
        · rw [h, hnew] at hi
          exact absurd (Option.some.inj hi) hk

theorem indexBy_eq_none_iff {keys : List κ} {k : κ} : (indexBy keys).get? k = none ↔ k ∉ keys := by
  rw [indexBy, get?_foldl_set_eq_last, AssocMap.get?_nil, Option.or_none, last_eq_none_iff]
  simp

end

end Coopy.Lib.Overwrites
