import Mathlib.Data.List.Nodup
import Mathlib.Tactic.Common

/-!
# Differences of keyed tables

A table is a list of rows, of which each is told by its key.  The rows that only one of two tables
has, and those under one key that differ, are the changes that make one table out of the other, in
any order, and none of them can be left out.

    changes of distinct keys, applied one by one: the new rows and the rows untouched
                                                                                      (mem_applyAll)
    with rows the remote table ↔ every change of the two tables is among them
                                                                            (applyAll_eq_remote_iff)
    the same of changes that only stand for those of the tables          (mem_of_applyAll_eq_remote)
-/

namespace Coopy.Lib

inductive Change (ρ : Type)
  | insert (row : ρ)
  | update (old new : ρ)
  | delete (row : ρ)
deriving DecidableEq, Repr

namespace Change

variable {ρ κ : Type}

/-- The row by whose key the change is told. -/
def row : Change ρ → ρ
  | insert r => r
  | update old _ => old
  | delete r => r

def old : Change ρ → Option ρ
  | insert _ => none
  | update old _ => some old
  | delete r => some r

def new : Change ρ → Option ρ
  | insert r => some r
  | update _ new => some new
  | delete _ => none

theorem row_of_old {c : Change ρ} {a : ρ} (h : c.old = some a) : c.row = a := by
  cases c with
  | insert r => cases h
  | update _ _ => exact Option.some.inj h
  | delete _ => exact Option.some.inj h

section
variable [DecidableEq ρ]

def apply : Change ρ → List ρ → List ρ
  | insert r, t => t ++ [r]
  | update old new, t => t.map fun r => if r = old then new else r
  | delete r, t => t.filter fun s => decide (s ≠ r)

def applyAll (cs : List (Change ρ)) (t : List ρ) : List ρ := cs.foldl (fun t c => c.apply t) t

theorem mem_apply (c : Change ρ) (t : List ρ) (hold : ∀ a ∈ c.old, a ∈ t) (r : ρ) :
    r ∈ c.apply t ↔ c.new = some r ∨ (r ∈ t ∧ c.old ≠ some r) := by
  cases c with
  | insert s => simp [apply, new, old, or_comm, eq_comm]
  | delete s =>
    simp only [apply, new, old, List.mem_filter, decide_eq_true_eq, Option.some.injEq, reduceCtorEq,
      false_or, ne_eq]
    rw [eq_comm]
  | update a b =>
    have ha : a ∈ t := hold a rfl
    simp only [apply, List.mem_map, new, old, Option.some.injEq, ne_eq]
    constructor
    · rintro ⟨s, hs, rfl⟩
      split
      · exact Or.inl rfl
      · next h => exact Or.inr ⟨hs, fun h' => h h'.symm⟩
    · rintro (rfl | ⟨hr, hne⟩)
      · exact ⟨a, ha, if_pos rfl⟩
      · exact ⟨r, hr, if_neg fun h => hne h.symm⟩

end

variable (key : ρ → κ)

/-- A change of a table: its old row is in it, its new one has the same key, or one that no row
has. -/
structure Fits (t : List ρ) (c : Change ρ) : Prop where
  old : ∀ a ∈ c.old, a ∈ t
  same : ∀ a ∈ c.old, ∀ b ∈ c.new, key b = key a
  fresh : c.old = none → ∀ a ∈ t, key a ≠ key c.row

variable {key}

theorem key_new {t : List ρ} {c : Change ρ} (h : Fits key t c) {b : ρ} (hb : c.new = some b) :
    key b = key c.row := by
  cases c with
  | insert r =>
    cases hb
    rfl
  | update a b' => exact h.same a rfl b hb
  | delete r => cases hb

variable [DecidableEq ρ]

/-- A change leaves the others as they are. -/
theorem Fits.apply {t : List ρ} {c d : Change ρ} (hc : Fits key t c) (hd : Fits key t d)
    (hne : key c.row ≠ key d.row) : Fits key (c.apply t) d := by
  have hmem := mem_apply c t hc.old
  refine ⟨fun a ha => (hmem a).2 (Or.inr ⟨hd.old a ha, fun hold => hne ?_⟩), hd.same,
    fun hnone a ha => ?_⟩
  · rw [row_of_old hold, row_of_old ha]
  · rcases (hmem a).1 ha with hnew | ⟨hin, -⟩
    · rw [key_new hc hnew]
      exact hne
    · exact hd.fresh hnone a hin

theorem nodup_apply {t : List ρ} {c : Change ρ} (h : Fits key t c) (hn : (t.map key).Nodup) :
    ((c.apply t).map key).Nodup := by
  cases c with
  | insert r =>
    show ((t ++ [r]).map key).Nodup
    rw [List.map_append, List.nodup_append]
    refine ⟨hn, List.nodup_singleton _, ?_⟩
    rintro k hk k' hk' rfl
    obtain ⟨a, ha, rfl⟩ := List.mem_map.1 hk
    exact h.fresh rfl a ha (List.mem_singleton.1 hk')
  | update a b =>
    have hsame : (t.map fun r => if r = a then b else r).map key = t.map key := by
      rw [List.map_map]
      refine List.map_congr_left fun r _ => ?_
      show key (if r = a then b else r) = key r
      split
      · next he => rw [he, h.same a rfl b rfl]
      · rfl
    show ((t.map fun r => if r = a then b else r).map key).Nodup
    rwa [hsame]
  | delete r => exact hn.sublist (List.filter_sublist.map key)

/-- **The rows after some changes** of distinct keys. -/
theorem mem_applyAll {cs : List (Change ρ)} {t : List ρ} (hfits : ∀ c ∈ cs, Fits key t c)
    (hapart : cs.Pairwise fun c d => key c.row ≠ key d.row) (r : ρ) :
    r ∈ applyAll cs t ↔ (∃ c ∈ cs, c.new = some r) ∨ (r ∈ t ∧ ∀ c ∈ cs, c.old ≠ some r) := by
  induction cs generalizing t with
  | nil => simp [applyAll]
  | cons c cs ih =>
    obtain ⟨hhead, htail⟩ := List.pairwise_cons.1 hapart
    have hc := hfits c List.mem_cons_self
    have hrest : ∀ d ∈ cs, Fits key (c.apply t) d := fun d hd =>
      hc.apply (hfits d (List.mem_cons_of_mem _ hd)) (hhead d hd)
    have hstep := mem_apply c t hc.old r
    -- what `c` puts in is not taken out again
    have hstays : c.new = some r → ∀ d ∈ cs, d.old ≠ some r := by
      intro hnew d hd hold
      refine hhead d hd ?_
      rw [row_of_old hold, key_new hc hnew]
    rw [show applyAll (c :: cs) t = applyAll cs (c.apply t) from rfl, ih hrest htail, hstep]
    simp only [List.mem_cons, exists_eq_or_imp, forall_eq_or_imp]
    constructor
    · rintro (h | ⟨hnew | ⟨hr, hold⟩, hall⟩)
      · exact Or.inl (Or.inr h)
      · exact Or.inl (Or.inl hnew)
      · exact Or.inr ⟨hr, hold, hall⟩
    · rintro ((hnew | h) | ⟨hr, hold, hall⟩)
      · exact Or.inr ⟨Or.inl hnew, hstays hnew⟩
      · exact Or.inl h
      · exact Or.inr ⟨Or.inr ⟨hr, hold⟩, hall⟩

end Change

/-! ## The changes of two tables -/

section
variable {ρ κ : Type} [DecidableEq κ] (key : ρ → κ)

/-- Rows with one key are one row. -/
def Keyed (t : List ρ) : Prop := ∀ a ∈ t, ∀ b ∈ t, key a = key b → a = b

/-- The rows whose key the other table does not have. -/
def unmatched (t other : List ρ) : List ρ := t.filter fun a => !other.any fun b =>
    decide (key b = key a)

theorem mem_unmatched {key : ρ → κ} {t other : List ρ} {a : ρ} :
    a ∈ unmatched key t other ↔ a ∈ t ∧ ∀ b ∈ other, key b ≠ key a := by
  simp [unmatched]

variable [DecidableEq ρ]

/-- The pairs under one key that differ. -/
def mismatched (t other : List ρ) : List (ρ × ρ) :=
  t.flatMap fun a => (other.filter fun b => decide (key a = key b) && decide (a ≠ b)).map fun b =>
  (a, b)

def changes (t remote : List ρ) : List (Change ρ) :=
  (unmatched key remote t).map .insert ++ (mismatched key t remote).map
  (fun p => .update p.1 p.2) ++
    (unmatched key t remote).map .delete

variable {key}

theorem mem_mismatched {t other : List ρ} {a b : ρ} :
    (a, b) ∈ mismatched key t other ↔ a ∈ t ∧ b ∈ other ∧ key a = key b ∧ a ≠ b := by
  simp only [mismatched, List.mem_flatMap, List.mem_map, List.mem_filter, Bool.and_eq_true,
    decide_eq_true_eq]
  constructor
  · rintro ⟨a', ha, b', ⟨hb, hk⟩, he⟩
    cases he
    exact ⟨ha, hb, hk⟩
  · rintro ⟨ha, hb, hk⟩
    exact ⟨a, ha, b, ⟨hb, hk⟩, rfl⟩

theorem mem_changes {t remote : List ρ} {c : Change ρ} : c ∈ changes key t remote ↔
    (∃ b, c = .insert b ∧ b ∈ remote ∧ ∀ a ∈ t, key a ≠ key b) ∨
    (∃ a b, c = .update a b ∧ a ∈ t ∧ b ∈ remote ∧ key a = key b ∧ a ≠ b) ∨
    (∃ a, c = .delete a ∧ a ∈ t ∧ ∀ b ∈ remote, key b ≠ key a) := by
  simp only [changes, List.mem_append, List.mem_map, or_assoc, Prod.exists, mem_unmatched,
    mem_mismatched]
  refine or_congr ?_ (or_congr ?_ ?_)
  · exact ⟨fun ⟨b, h, hc⟩ => ⟨b, hc.symm, h⟩, fun ⟨b, hc, h⟩ => ⟨b, h, hc.symm⟩⟩
  · exact ⟨fun ⟨a, b, h, hc⟩ => ⟨a, b, hc.symm, h⟩, fun ⟨a, b, hc, h⟩ => ⟨a, b, h, hc.symm⟩⟩
  · exact ⟨fun ⟨a, h, hc⟩ => ⟨a, hc.symm, h⟩, fun ⟨a, hc, h⟩ => ⟨a, h, hc.symm⟩⟩

theorem fits_changes {t remote : List ρ} {c : Change ρ} (hc : c ∈ changes key t remote) :
    Change.Fits key t c := by
  rcases mem_changes.1 hc with ⟨b, rfl, -, hfresh⟩ | ⟨a, b, rfl, ha, -, hk, -⟩ | ⟨a, rfl, ha, -⟩
  · exact ⟨nofun, nofun, fun _ => hfresh⟩
  · refine ⟨fun x hx => ?_, fun x hx y hy => ?_, nofun⟩
    · cases hx
      exact ha
    · cases hx
      cases hy
      exact hk.symm
  · refine ⟨fun x hx => ?_, nofun, nofun⟩
    cases hx
    exact ha

/-- Two changes under one key are one change. -/
theorem changes_keyed {t remote : List ρ} (ht : Keyed key t) (hr : Keyed key remote)
    {c d : Change ρ}
    (hc : c ∈ changes key t remote) (hd : d ∈ changes key t remote) (hk : key c.row = key d.row) :
    c = d := by
  rcases mem_changes.1 hc with ⟨b, rfl, hb, hfresh⟩ | ⟨a, b, rfl, ha, hb, hab, -⟩
    | ⟨a, rfl, ha, hgone⟩ <;>
    rcases mem_changes.1 hd with ⟨b', rfl, hb', hfresh'⟩ | ⟨a', b', rfl, ha', hb', hab', -⟩ | ⟨a',
      rfl, ha', hgone'⟩ <;>
    simp only [Change.row] at hk
  · rw [hr b hb b' hb' hk]
  · exact absurd hk.symm (hfresh a' ha')
  · exact absurd hk.symm (hfresh a' ha')
  · exact absurd hk (hfresh' a ha)
  · rw [ht a ha a' ha' hk, hr b hb b' hb' (hab.symm.trans (hk.trans hab'))]
  · exact absurd (hab.symm.trans hk) (hgone' b hb)
  · exact absurd hk (hfresh' a ha)
  · exact absurd (hab'.symm.trans hk.symm) (hgone b' hb')
  · rw [ht a ha a' ha' hk]

/-- Where two keys tell the same rows apart, the changes are the same. -/
theorem changes_congr {μ : Type} [DecidableEq μ] {key' : ρ → μ} {t remote : List ρ}
    (h : ∀ a ∈ t, ∀ b ∈ remote, key a = key b ↔ key' a = key' b) :
    changes key t remote = changes key' t remote := by
  have hins : unmatched key remote t = unmatched key' remote t := List.filter_congr fun b hb => by
    have hany : (t.any fun a => decide (key a = key b)) = t.any fun a =>
      decide (key' a = key' b) := by
      rw [Bool.eq_iff_iff, List.any_eq_true, List.any_eq_true]
      simp only [decide_eq_true_eq]
      exact exists_congr fun a => and_congr_right fun ha => h a ha b hb
    rw [hany]
  have hdel : unmatched key t remote = unmatched key' t remote := List.filter_congr fun a ha => by
    have hany : (remote.any fun b => decide (key b = key a)) = remote.any fun b =>
      decide (key' b = key' a) := by
      rw [Bool.eq_iff_iff, List.any_eq_true, List.any_eq_true]
      simp only [decide_eq_true_eq]
      exact exists_congr fun b => and_congr_right fun hb =>
        eq_comm.trans ((h a ha b hb).trans eq_comm)
    rw [hany]
  have hupd : mismatched key t remote = mismatched key' t remote := by
    refine List.flatMap_congr fun a ha => congrArg _ (List.filter_congr fun b hb => ?_)
    rw [decide_eq_decide.2 (h a ha b hb)]
  rw [changes, changes, hins, hdel, hupd]

theorem nodup_changes {t remote : List ρ} (ht : t.Nodup) (hr : remote.Nodup) :
    (changes key t remote).Nodup := by
  have hmis : (mismatched key t remote).Nodup := by
    refine List.nodup_flatMap.2 ⟨fun a _ => (hr.filter _).map fun _ _ h => (Prod.mk.inj h).2, ?_⟩
    refine ht.imp fun {a a'} hne => ?_
    refine List.disjoint_left.2 fun p hp hp' => ?_
    obtain ⟨b, -, rfl⟩ := List.mem_map.1 hp
    obtain ⟨b', -, he⟩ := List.mem_map.1 hp'
    exact hne (congrArg Prod.fst he).symm
  have hmapInsert : ((unmatched key remote t).map Change.insert).Nodup :=
    (hr.filter _).map fun _ _ h => Change.insert.inj h
  have hmapUpdate : ((mismatched key t remote).map fun p => Change.update p.1 p.2).Nodup :=
    hmis.map fun p q h => Prod.ext (Change.update.inj h).1 (Change.update.inj h).2
  have hmapDelete : ((unmatched key t remote).map Change.delete).Nodup :=
    (ht.filter _).map fun _ _ h => Change.delete.inj h
  have hkinds : ∀ {c : Change ρ}, c ∈ (unmatched key remote t).map Change.insert →
      c ∉ (mismatched key t remote).map (fun p => Change.update p.1 p.2) ∧
      c ∉ (unmatched key t remote).map Change.delete := by
    intro c hc
    obtain ⟨b, -, rfl⟩ := List.mem_map.1 hc
    simp
  refine List.nodup_append.2 ⟨List.nodup_append.2 ⟨hmapInsert, hmapUpdate, ?_⟩, hmapDelete, ?_⟩
  · rintro c hc d hd rfl
    exact (hkinds hc).1 hd
  · rintro c hc d hd rfl
    rcases List.mem_append.1 hc with hc | hc
    · exact (hkinds hc).2 hd
    · obtain ⟨p, -, rfl⟩ := List.mem_map.1 hc
      simp at hd

theorem pairwise_of_nodup {t remote : List ρ} (ht : Keyed key t) (hr : Keyed key remote)
    {cs : List (Change ρ)} (hsub : ∀ c ∈ cs, c ∈ changes key t remote) (hn : cs.Nodup) :
    cs.Pairwise fun c d => key c.row ≠ key d.row :=
  hn.imp_of_mem fun {_ _} hc hd hne hk => hne (changes_keyed ht hr (hsub _ hc) (hsub _ hd) hk)

/-- **Changes that stand for changes of the tables**, with the same old rows and new rows under the
same keys, make the remote table only if each change of the tables is among them. -/
theorem mem_of_applyAll_eq_remote {t remote : List ρ} (ht : Keyed key t) (hr : Keyed key remote)
    {ds : List (Change ρ)}
    (hlike : ∀ d ∈ ds, Change.Fits key t d ∧ ∃ c ∈ changes key t remote, d.old = c.old ∧
      d.new.map key = c.new.map key)
    (hapart : ds.Pairwise fun c d => key c.row ≠ key d.row)
      (h : ∀ r, r ∈ Change.applyAll ds t ↔ r ∈ remote) :
    ∀ c ∈ changes key t remote, c ∈ ds := by
  intro c hc
  have hmem := Change.mem_applyAll (fun d hd => (hlike d hd).1) hapart
  -- what stands for another change is not under the key of this one
  have hsame : ∀ d ∈ ds, key c.row = key d.row → d.old = c.old ∧ d.new.map key = c.new.map key := by
    intro d hd hk
    obtain ⟨c', hc', hold, hnew⟩ := (hlike d hd).2
    have hrow : key d.row = key c'.row := by
      cases d with
      | insert b =>
        cases c' with
        | insert b' => exact Option.some.inj hnew
        | update _ _ => cases hold
        | delete _ => cases hold
      | update a b => exact congrArg key (Change.row_of_old hold.symm).symm
      | delete a => exact congrArg key (Change.row_of_old hold.symm).symm
    rw [changes_keyed ht hr hc hc' (hk.trans hrow)]
    exact ⟨hold, hnew⟩
  rcases mem_changes.1 hc with ⟨b, rfl, hb, hfresh⟩ | ⟨a, b, rfl, ha, hb, hab, hne⟩
    | ⟨a, rfl, ha, hgone⟩
  · -- a row that only the remote table has can only come from its insert
    rcases (hmem b).1 ((h b).2 hb) with ⟨d, hd, hnew⟩ | ⟨hin, -⟩
    · have hold := (hsame d hd (Change.key_new (hlike d hd).1 hnew)).1
      cases d with
      | insert b' => cases hnew; exact hd
      | update _ _ => cases hold
      | delete _ => cases hnew
    · exact absurd rfl (hfresh b hin)
  · rcases (hmem b).1 ((h b).2 hb) with ⟨d, hd, hnew⟩ | ⟨hin, -⟩
    · have hold := (hsame d hd (hab.trans (Change.key_new (hlike d hd).1 hnew))).1
      cases d with
      | insert _ => cases hold
      | update a' b' => cases hold; cases hnew; exact hd
      | delete _ => cases hnew
    · exact absurd (ht a ha b hin hab) hne
  · by_contra hnot
    have hstay : a ∈ Change.applyAll ds t := by
      refine (hmem a).2 (Or.inr ⟨ha, fun d hd hold => hnot ?_⟩)
      have hnew := (hsame d hd (by rw [Change.row_of_old hold]; rfl)).2
      cases d with
      | insert _ => cases hold
      | update _ _ => cases hnew
      | delete a' => cases hold; exact hd
    exact hgone a ((h a).1 hstay) rfl

/-- **Some of the changes** make the remote table if and only if they are all of them. -/
theorem applyAll_eq_remote_iff {t remote : List ρ} (ht : Keyed key t) (hr : Keyed key remote)
    {cs : List (Change ρ)} (hsub : ∀ c ∈ cs, c ∈ changes key t remote) (hn : cs.Nodup) :
    (∀ r, r ∈ Change.applyAll cs t ↔ r ∈ remote) ↔ ∀ c ∈ changes key t remote, c ∈ cs := by
  have hapart := pairwise_of_nodup ht hr hsub hn
  have hmem := Change.mem_applyAll (fun c hc => fits_changes (hsub c hc)) hapart
  constructor
  · exact mem_of_applyAll_eq_remote ht hr
      (fun c hc => ⟨fits_changes (hsub c hc), c, hsub c hc, rfl, rfl⟩) hapart
  · intro hall r
    rw [hmem r]
    constructor
    · rintro (⟨c, hc, hnew⟩ | ⟨hin, hnot⟩)
      · rcases mem_changes.1 (hsub c hc) with ⟨b, rfl, hb, -⟩ | ⟨a, b, rfl, -, hb, -⟩ | ⟨a, rfl, -⟩
        · cases hnew
          exact hb
        · cases hnew
          exact hb
        · cases hnew
      · -- untouched, the row has a partner that does not differ
        by_contra hr'
        by_cases hk : ∃ b ∈ remote, key r = key b
        · obtain ⟨b, hb, hk⟩ := hk
          have hne : r ≠ b := fun h => hr' (h ▸ hb)
          exact hnot _
            (hall (.update r b) (mem_changes.2 (Or.inr (Or.inl ⟨r, b, rfl, hin, hb, hk, hne⟩)))) rfl
        · exact hnot _ (hall (.delete r) (mem_changes.2 (Or.inr (Or.inr
            ⟨r, rfl, hin, fun b hb h => hk ⟨b, hb, h.symm⟩⟩)))) rfl
    · intro hr'
      by_cases hk : ∃ a ∈ t, key a = key r
      · obtain ⟨a, ha, hk⟩ := hk
        by_cases he : a = r
        · refine Or.inr ⟨he ▸ ha, fun c hc hold => ?_⟩
          rcases mem_changes.1 (hsub c hc) with ⟨b, rfl, -⟩ | ⟨a', b, rfl, -, hb, hab, hne⟩ | ⟨a',
            rfl, -, hgone⟩
          · cases hold
          · cases hold
            exact hne (hr r hr' b hb hab)
          · cases hold
            exact hgone r hr' rfl
        · exact Or.inl
            ⟨.update a r, hall _ (mem_changes.2 (Or.inr (Or.inl ⟨a, r, rfl, ha, hr', hk, he⟩))),
              rfl⟩
      · exact Or.inl
          ⟨.insert r, hall _ (mem_changes.2 (Or.inl ⟨r, rfl, hr', fun a ha h => hk ⟨a, ha, h⟩⟩)),
            rfl⟩

end

end Coopy.Lib
