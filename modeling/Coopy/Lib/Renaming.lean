import Mathlib.Data.List.Nodup
import Mathlib.Data.List.Basic

/-!
# Renaming by name

A list of names, and renamings that are carried out one after the other.  Each says an old name
and a new one, and changes the entry that bears the old name first.  An earlier renaming may have
given that name to another entry.  Every entry ends with the name meant for it exactly when that
other entry stands behind the one that is still to be renamed:

    (∀ e ∈ es, final[start.idxOf e.1]? = some e.2) ↔ es.Pairwise (Meets start)      (renames_iff)
-/

namespace Coopy.Lib

variable {α : Type} [DecidableEq α]

/-- The entry that bears the old name first gets the new one. -/
def renameFirst (names : List α) (e : α × α) : List α := names.set (names.idxOf e.1) e.2

/-- The entry that bore the old name at the start gets the new one. -/
def renameHeld (start names : List α) (e : α × α) : List α := names.set (start.idxOf e.1) e.2

/-- If the new name of `e` is the old one of `e'`, the entry of `e'` comes first. -/
def Meets (start : List α) (e e' : α × α) : Prop := e.2 = e'.1 → start.idxOf e'.1 < start.idxOf e.1

theorem renameFirst_self (names : List α) (a : α) : renameFirst names (a, a) = names := by
  show names.set (names.idxOf a) a = names
  by_cases h : a ∈ names
  · have hlt := List.idxOf_lt_length_of_mem h
    apply List.ext_getElem
    · exact List.length_set
    · intro i h1 h2
      rw [List.getElem_set]
      split
      · next he =>
        subst he
        exact (List.getElem_idxOf hlt).symm
      · rfl
  · rw [List.idxOf_eq_length h]
    exact List.set_eq_of_length_le (Nat.le_refl _)

theorem renameFirst_of_not_mem {names : List α} {e : α × α} (h : e.1 ∉ names) :
    renameFirst names e = names := by
  unfold renameFirst
  rw [List.idxOf_eq_length h]
  exact List.set_eq_of_length_le (Nat.le_refl _)

@[simp]
theorem length_renameFirst (names : List α) (e : α × α) :
    (renameFirst names e).length = names.length :=
  List.length_set

theorem idxOf_le_of_getElem? {names : List α} {a : α} {j : Nat} (h : names[j]? = some a) :
    names.idxOf a ≤ j := by
  induction names generalizing j with
  | nil => simp at h
  | cons x names ih =>
    rw [List.idxOf_cons]
    cases j with
    | zero =>
      rw [List.getElem?_cons_zero, Option.some.injEq] at h
      subst h
      simp
    | succ j =>
      rw [List.getElem?_cons_succ] at h
      have := ih h
      cases hx : x == a with
      | true => exact Nat.zero_le _
      | false =>
        simp only [cond_false]
        omega

theorem getElem?_idxOf_of_mem {names : List α} {a : α} (h : a ∈ names) :
    names[names.idxOf a]? = some a := by
  have hlt := List.idxOf_lt_length_of_mem h
  rw [List.getElem?_eq_getElem hlt, List.getElem_idxOf hlt]

/-! ## Every entry by its place -/

section
variable {start : List α}

theorem length_foldl_renameHeld (done : List (α × α)) : ∀ names : List α,
    (done.foldl (renameHeld start) names).length = names.length := by
  induction done with
  | nil => exact fun names => rfl
  | cons e done ih =>
    intro names
    rw [List.foldl_cons, ih]
    exact List.length_set

theorem foldl_renameHeld_other (done : List (α × α)) {k : Nat}
    (hk : ∀ e ∈ done, start.idxOf e.1 ≠ k) :
    ∀ names : List α, (done.foldl (renameHeld start) names)[k]? = names[k]? := by
  induction done with
  | nil => exact fun names => rfl
  | cons e done ih =>
    intro names
    rw [List.foldl_cons, ih fun d hd => hk d (List.mem_cons_of_mem _ hd)]
    exact List.getElem?_set_ne (hk e List.mem_cons_self)

theorem idxOf_ne_of_ne {a b : α} (ha : a ∈ start) (h : a ≠ b) : start.idxOf a ≠ start.idxOf b := by
  intro he
  exact h ((List.idxOf_inj ha).1 he)

theorem foldl_renameHeld_self (done : List (α × α)) (hmem : ∀ e ∈ done, e.1 ∈ start)
    (hold : (done.map Prod.fst).Nodup) {e : α × α} (he : e ∈ done) :
    ∀ names : List α, names.length = start.length →
    (done.foldl (renameHeld start) names)[start.idxOf e.1]? = some e.2 := by
  induction done with
  | nil => exact absurd he List.not_mem_nil
  | cons d done ih =>
    intro names hlen
    rw [List.map_cons, List.nodup_cons] at hold
    rw [List.foldl_cons]
    rcases List.mem_cons.1 he with rfl | he
    · rw [foldl_renameHeld_other]
      · exact List.getElem?_set_self
          (by rw [hlen]; exact List.idxOf_lt_length_of_mem (hmem _ List.mem_cons_self))
      · intro d hd
        apply idxOf_ne_of_ne (hmem d (List.mem_cons_of_mem _ hd))
        intro heq
        exact hold.1 (List.mem_map.2 ⟨d, hd, heq⟩)
    · exact ih (fun d hd => hmem d (List.mem_cons_of_mem _ hd)) hold.2 he _
        (by rw [renameHeld, List.length_set, hlen])

section
variable {done : List (α × α)} {a : α} (hmem : ∀ e ∈ done, e.1 ∈ start) (ha : a ∈ start)
  (hout : a ∉ done.map Prod.fst)

include hmem ha hout

theorem getElem?_held : (done.foldl (renameHeld start) start)[start.idxOf a]? = some a := by
  rw [foldl_renameHeld_other done, getElem?_idxOf_of_mem ha]
  intro e he
  exact idxOf_ne_of_ne (hmem e he) fun heq => hout (List.mem_map.2 ⟨e, he, heq⟩)

/-- An old name that is met elsewhere is the new name of an entry that is done. -/
theorem idxOf_held (hold : (done.map Prod.fst).Nodup)
    (h : (done.foldl (renameHeld start) start).idxOf a ≠ start.idxOf a) :
    ∃ d ∈ done, d.2 = a ∧ start.idxOf d.1 = (done.foldl (renameHeld start) start).idxOf a := by
  have hown := getElem?_held hmem ha hout
  have hle := idxOf_le_of_getElem? hown
  have hat := getElem?_idxOf_of_mem (List.mem_of_getElem? hown)
  apply Classical.byContradiction
  intro hno
  have hother : ∀ d ∈ done, start.idxOf d.1 ≠ (done.foldl (renameHeld start) start).idxOf a := by
    intro d hd heq
    have hself := foldl_renameHeld_self done hmem hold hd start rfl
    rw [heq, hat] at hself
    exact hno ⟨d, hd, (Option.some.inj hself).symm, heq⟩
  rw [foldl_renameHeld_other done hother] at hat
  have hge := idxOf_le_of_getElem? hat
  omega

/-- The old name is met at its own place, unless an earlier renaming left it further ahead. -/
theorem idxOf_held_iff (hold : (done.map Prod.fst).Nodup) :
    (done.foldl (renameHeld start) start).idxOf a = start.idxOf a ↔
      ∀ e ∈ done, e.2 = a → start.idxOf a < start.idxOf e.1 := by
  constructor
  · intro hidx e he hea
    have hat := foldl_renameHeld_self done hmem hold he start rfl
    rw [hea] at hat
    have hle := idxOf_le_of_getElem? hat
    have hne := idxOf_ne_of_ne (hmem e he) fun heq => hout (List.mem_map.2 ⟨e, he, heq⟩)
    omega
  · intro hfirst
    apply Classical.byContradiction
    intro hne
    obtain ⟨d, hd, hda, hdk⟩ := idxOf_held hmem ha hout hold hne
    have hlt := hfirst d hd hda
    have hle := idxOf_le_of_getElem? (getElem?_held hmem ha hout)
    omega

end

/-- A name that no later renaming gives does not come back. -/
theorem foldl_renameFirst_ne {x : α} {j : Nat} (es : List (α × α)) (hx : x ∉ es.map Prod.snd) :
    ∀ names : List α, names[j]? ≠ some x → (es.foldl renameFirst names)[j]? ≠ some x := by
  induction es with
  | nil => exact fun names h => h
  | cons e es ih =>
    intro names h
    rw [List.map_cons, List.mem_cons, not_or] at hx
    rw [List.foldl_cons]
    refine ih hx.2 _ ?_
    unfold renameFirst
    rw [List.getElem?_set]
    split
    · split
      · exact fun heq => hx.1 (Option.some.inj heq).symm
      · nofun
    · exact h

theorem renames_iff_of_done (es : List (α × α)) : ∀ done : List (α × α),
    (∀ e ∈ done ++ es, e.1 ∈ start) → ((done ++ es).map Prod.fst).Nodup →
    ((done ++ es).map Prod.snd).Nodup → ((∀ e ∈ done ++ es,
        (es.foldl renameFirst (done.foldl (renameHeld start) start))[start.idxOf e.1]? = some e.2) ↔
      (∀ e ∈ done, ∀ e' ∈ es, Meets start e e') ∧ es.Pairwise (Meets start)) := by
  induction es with
  | nil =>
    intro done hmem hold hnew
    rw [List.append_nil] at hmem hold ⊢
    refine iff_of_true (fun e he => foldl_renameHeld_self done hmem hold he start rfl)
      ⟨fun e _ e' he' => ?_, ?_⟩
    · exact absurd he' List.not_mem_nil
    · exact List.Pairwise.nil
  | cons e es ih =>
    intro done hmem hold hnew
    have hmem' : ∀ d ∈ done, d.1 ∈ start := fun d hd => hmem d (List.mem_append_left _ hd)
    have ha : e.1 ∈ start := hmem e (List.mem_append_right _ List.mem_cons_self)
    have hold' : (done.map Prod.fst).Nodup := by
      rw [List.map_append] at hold
      exact hold.of_append_left
    have hout : e.1 ∉ done.map Prod.fst := by
      rw [List.map_append, List.map_cons] at hold
      intro hin
      exact (List.nodup_append.1 hold).2.2 _ hin _ List.mem_cons_self rfl
    have hidx := idxOf_held_iff hmem' ha hout hold'
    rw [List.foldl_cons]
    by_cases hk : (done.foldl (renameHeld start) start).idxOf e.1 = start.idxOf e.1
    · -- the right entry is renamed, and `e` is done
      have hstep : renameFirst (done.foldl (renameHeld start) start) e =
          (done ++ [e]).foldl (renameHeld start) start := by
        rw [List.foldl_append]
        show List.set _ _ _ = List.set _ _ _
        rw [hk]
      have happ : done ++ e :: es = done ++ [e] ++ es := by
        rw [List.append_assoc, List.singleton_append]
      rw [hstep, happ, ih (done ++ [e]) (by rwa [← happ]) (by rwa [← happ]) (by rwa [← happ]),
        List.pairwise_cons]
      have hmeets := hidx.1 hk
      constructor
      · rintro ⟨hcross, hpair⟩
        refine ⟨fun d hd e' he' => ?_, fun e' he' => ?_, hpair⟩
        · rcases List.mem_cons.1 he' with rfl | he'
          · exact hmeets d hd
          · exact hcross d (List.mem_append_left _ hd) e' he'
        · exact hcross e (List.mem_append_right _ List.mem_cons_self) e' he'
      · rintro ⟨hcross, hfirst, hpair⟩
        refine ⟨fun d hd e' he' => ?_, hpair⟩
        rcases List.mem_append.1 hd with hd | hd
        · exact hcross d hd e' (List.mem_cons_of_mem _ he')
        · obtain rfl := List.mem_singleton.1 hd
          exact hfirst e' he'
    · -- an entry that is done is renamed, and never gets its name back
      obtain ⟨d, hd, hde, hdk⟩ := idxOf_held hmem' ha hout hold' hk
      refine iff_of_false (fun h => ?_) fun h => ?_
      · refine foldl_renameFirst_ne es ?_ _ ?_ (h d (List.mem_append_left _ hd))
        · intro hin
          rw [List.map_append, List.map_cons] at hnew
          exact (List.nodup_append.1 hnew).2.2 _ (List.mem_map_of_mem hd) _
            (List.mem_cons_of_mem _ hin) rfl
        · unfold renameFirst
          rw [hdk, List.getElem?_set_self]
          · intro heq
            rw [List.map_append, List.map_cons] at hnew
            exact (List.nodup_append.1 hnew).2.2 _ (List.mem_map_of_mem hd) _ List.mem_cons_self
              (Option.some.inj heq).symm
          · rw [← hdk, length_foldl_renameHeld]
            exact List.idxOf_lt_length_of_mem (hmem' d hd)
      · exact hk (hidx.2 fun d hd => h.1 d hd e List.mem_cons_self)

/-- **Renaming by name.**  Every entry gets its name, exactly when no renaming meets an earlier
one's. -/
theorem renames_iff {es : List (α × α)} (hmem : ∀ e ∈ es, e.1 ∈ start)
    (hold : (es.map Prod.fst).Nodup) (hnew : (es.map Prod.snd).Nodup) :
    (∀ e ∈ es, (es.foldl renameFirst start)[start.idxOf e.1]? = some e.2) ↔
    es.Pairwise (Meets start) := by
  have h := renames_iff_of_done es [] hmem hold hnew
  rw [List.nil_append] at h
  refine h.trans ⟨And.right, fun hp => ⟨fun e he => absurd he List.not_mem_nil, hp⟩⟩

/-- As long as this is so, the name to be changed is there. -/
theorem mem_foldl_renameFirst {pre post : List (α × α)} {e : α × α}
    (hmem : ∀ d ∈ pre ++ e :: post, d.1 ∈ start) (hold : ((pre ++ e :: post).map Prod.fst).Nodup)
    (hpair : (pre ++ e :: post).Pairwise (Meets start)) :
    e.1 ∈ pre.foldl renameFirst start := by
  have hsame : ∀ (rest done : List (α × α)), pre = done ++ rest →
      rest.foldl renameFirst (done.foldl (renameHeld start) start) =
      pre.foldl (renameHeld start) start := by
    intro rest
    induction rest with
    | nil => intro done h; rw [h, List.append_nil]; rfl
    | cons d rest ih =>
      intro done h
      subst h
      rw [List.append_assoc, List.cons_append] at hmem hold hpair
      have hold' := hold
      rw [List.map_append, List.map_cons] at hold'
      have hk : (done.foldl (renameHeld start) start).idxOf d.1 = start.idxOf d.1 := by
        rw [idxOf_held_iff (fun x hx => hmem x (List.mem_append_left _ hx))
          (hmem d (List.mem_append_right _ List.mem_cons_self)) ?_ hold'.of_append_left]
        · intro x hx
          exact (List.pairwise_append.1 hpair).2.2 x hx d List.mem_cons_self
        · exact fun hin => (List.nodup_append.1 hold').2.2 _ hin _ List.mem_cons_self rfl
      rw [List.foldl_cons, ← ih (done ++ [d]) (by rw [List.append_assoc, List.singleton_append]),
        List.foldl_append]
      congr 1
      show List.set _ _ _ = List.set _ _ _
      rw [hk]
  have hown := hsame pre [] rfl
  rw [show pre.foldl renameFirst start = pre.foldl (renameHeld start) start from hown]
  rw [List.map_append, List.map_cons] at hold
  refine List.mem_of_getElem? (getElem?_held (fun d hd => hmem d (List.mem_append_left _ hd))
    (hmem e (List.mem_append_right _ List.mem_cons_self)) ?_)
  exact fun hin => (List.nodup_append.1 hold).2.2 _ hin _ List.mem_cons_self rfl

end

end Coopy.Lib
