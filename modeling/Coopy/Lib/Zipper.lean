import Coopy.Lib.Containers

/-!
# A list with a place in it, edited by search

A `Zipper` is a list cut in two; the cut is the place at hand.  An `Edit` puts an item
in at the place, or looks for the first item that passes a test and then deletes it,
changes it, goes behind it, or fetches it to the place.

    cut m xs = some (a, x, b) ↔ xs = a ++ x :: b ∧ m x ∧ no item of a passes m     (cut_eq_some_iff)
-/

namespace Coopy.Lib

variable {α : Type}

/-! ## The first item that passes a test -/

/-- What stands before the first item that passes, the item, and what stands behind it. -/
def cut (m : α → Bool) : List α → Option (List α × α × List α)
  | [] => none
  | x :: xs => if m x then some ([], x, xs) else (cut m xs).map fun c => (x :: c.1, c.2)

theorem cut_append {m : α → Bool} {a b : List α} {x : α} (ha : ∀ y ∈ a, m y = false)
    (hx : m x = true) : cut m (a ++ x :: b) = some (a, x, b) := by
  induction a with
  | nil => simp [cut, hx]
  | cons y a ih =>
    rw [List.cons_append, cut, if_neg (by simp [ha y (by simp)]), ih fun z hz =>
      ha z (List.mem_cons_of_mem _ hz)]
    rfl

theorem cut_eq_none_iff {m : α → Bool} {xs : List α} : cut m xs = none ↔ ∀ y ∈ xs, m y = false := by
  induction xs with
  | nil => simp [cut]
  | cons x xs ih =>
    unfold cut
    cases hx : m x with
    | true => simp [hx]
    | false => simp [hx, ih]

theorem cut_eq_some_iff {m : α → Bool} {xs a b : List α} {x : α} :
    cut m xs = some (a, x, b) ↔ xs = a ++ x :: b ∧ m x = true ∧ ∀ y ∈ a, m y = false := by
  constructor
  · intro h
    induction xs generalizing a with
    | nil => cases h
    | cons y xs ih =>
      unfold cut at h
      split at h
      · next hy =>
        obtain ⟨rfl, rfl, rfl⟩ : [] = a ∧ y = x ∧ xs = b := by simpa using h
        exact ⟨rfl, hy, by simp⟩
      · next hy =>
        obtain ⟨c, hc, he⟩ := Option.map_eq_some_iff.mp h
        obtain ⟨a', c'⟩ := c
        obtain ⟨rfl, rfl⟩ : y :: a' = a ∧ c' = (x, b) := by simpa using he
        obtain ⟨h1, h2, h3⟩ := ih hc
        refine ⟨by rw [h1]; rfl, h2, fun z hz => ?_⟩
        rcases List.mem_cons.mp hz with rfl | hz
        · simpa using hy
        · exact h3 z hz
  · rintro ⟨rfl, hx, ha⟩
    exact cut_append ha hx

theorem exists_cut {m : α → Bool} {xs : List α} {x : α} (hx : x ∈ xs) (hm : m x = true) :
    ∃ c, cut m xs = some c := by
  cases hc : cut m xs with
  | some c => exact ⟨c, rfl⟩
  | none => exact absurd (cut_eq_none_iff.mp hc x hx) (by simp [hm])

/-- Tests that agree on the items find the same one. -/
theorem cut_congr {m m' : α → Bool} {xs : List α} (h : ∀ x ∈ xs, m x = m' x) :
    cut m xs = cut m' xs := by
  induction xs with
  | nil => rfl
  | cons x xs ih =>
    unfold cut
    rw [h x (by simp), ih fun y hy => h y (List.mem_cons_of_mem _ hy)]

/-! ## Edits -/

/-- A list cut in two at the place at hand. -/
structure Zipper (α : Type) where
  before : List α
  after : List α

namespace Zipper

def items (z : Zipper α) : List α := z.before ++ z.after

/-- The place behind the last item. -/
def atEnd (xs : List α) : Zipper α := ⟨xs, []⟩

@[simp] theorem items_mk (a b : List α) : items ⟨a, b⟩ = a ++ b := rfl

@[simp] theorem items_atEnd (xs : List α) : (atEnd xs).items = xs := List.append_nil xs

end Zipper

inductive Edit (α : Type)
  | insert (x : α)
  | delete (m : α → Bool)
  | seek (m : α → Bool)
  | top
  | update (m : α → Bool) (f : α → α)
  | move (m : α → Bool) (f : α → α)

namespace Edit

/-- A search that fails leaves everything in place, but for `update`, which goes to the end. -/
def apply : Edit α → Zipper α → Zipper α
  | insert x, z => ⟨z.before ++ [x], z.after⟩
  | delete m, z => match cut m z.items with
    | some (a, _, b) => ⟨a, b⟩
    | none => z
  | seek m, z => match cut m z.items with
    | some (a, x, b) => ⟨a ++ [x], b⟩
    | none => z
  | top, z => ⟨[], z.items⟩
  | update m f, z => match cut m z.items with
    | some (a, x, b) => ⟨a ++ [f x], b⟩
    | none => Zipper.atEnd z.items
  | move m f, z => match cut m z.before with
    | some (a, x, b) => ⟨a ++ b ++ [f x], z.after⟩
    | none => match cut m z.after with
      | some (a, x, b) => ⟨z.before ++ [f x], a ++ b⟩
      | none => z

section
variable {m : α → Bool} {z : Zipper α} {a b : List α} {x : α}

theorem insert_apply (x : α) (z : Zipper α) : (insert x).apply z = ⟨z.before ++ [x], z.after⟩ := rfl

theorem top_apply (z : Zipper α) : top.apply z = ⟨[], z.items⟩ := rfl

theorem delete_found (h : cut m z.items = some (a, x, b)) : (delete m).apply z = ⟨a, b⟩ := by
  simp only [apply, h]

theorem delete_missed (h : cut m z.items = none) : (delete m).apply z = z := by
  simp only [apply, h]

theorem seek_found (h : cut m z.items = some (a, x, b)) : (seek m).apply z = ⟨a ++ [x], b⟩ := by
  simp only [apply, h]

theorem seek_missed (h : cut m z.items = none) : (seek m).apply z = z := by
  simp only [apply, h]

theorem update_found (f : α → α) (h : cut m z.items = some (a, x, b)) :
    (update m f).apply z = ⟨a ++ [f x], b⟩ := by
  simp only [apply, h]

theorem update_missed (f : α → α) (h : cut m z.items = none) :
    (update m f).apply z = Zipper.atEnd z.items := by
  simp only [apply, h]

theorem move_back (f : α → α) (h : cut m z.before = some (a, x, b)) :
    (move m f).apply z = ⟨a ++ b ++ [f x], z.after⟩ := by
  simp only [apply, h]

theorem move_forth (f : α → α) (hb : cut m z.before = none) (h : cut m z.after = some (a, x, b)) :
    (move m f).apply z = ⟨z.before ++ [f x], a ++ b⟩ := by
  simp only [apply, hb, h]

theorem move_missed (f : α → α) (hb : cut m z.before = none) (h : cut m z.after = none) :
    (move m f).apply z = z := by
  simp only [apply, hb, h]

end

/-- A script of edits, in order. -/
def run (es : List (Edit α)) (z : Zipper α) : Zipper α := es.foldl (fun z e => e.apply z) z

@[simp] theorem run_nil (z : Zipper α) : run [] z = z := rfl

theorem run_cons (e : Edit α) (es : List (Edit α)) (z : Zipper α) :
    run (e :: es) z = run es (e.apply z) := rfl

theorem run_append (es fs : List (Edit α)) (z : Zipper α) : run (es ++ fs) z = run fs (run es z) :=
  List.foldl_append

/-- Only a deletion takes an item away. -/
theorem length_apply_le {e : Edit α} (h : ∀ m, e ≠ delete m) (z : Zipper α) :
    z.items.length ≤ (e.apply z).items.length := by
  have hlen : ∀ {m : α → Bool} {xs a b : List α} {x : α}, cut m xs = some (a, x, b) →
      xs.length = a.length + 1 + b.length := by
    intro m xs a b x hc
    rw [(cut_eq_some_iff.mp hc).1, List.length_append, List.length_cons]
    omega
  cases e with
  | insert x => simp [insert_apply, Zipper.items]
  | delete m => exact absurd rfl (h m)
  | top => exact Nat.le_refl _
  | seek m =>
    cases hc : cut m z.items with
    | none =>
      apply Nat.le_of_eq
      rw [seek_missed hc]
    | some c =>
      have := hlen hc
      simp only [seek_found hc, Zipper.items_mk, List.length_append, List.length_singleton]
      omega
  | update m f =>
    cases hc : cut m z.items with
    | none =>
      apply Nat.le_of_eq
      rw [update_missed f hc, Zipper.items_atEnd]
    | some c =>
      have := hlen hc
      simp only [update_found f hc, Zipper.items_mk, List.length_append, List.length_singleton]
      omega
  | move m f =>
    cases hc : cut m z.before with
    | some c =>
      have := hlen hc
      simp only [move_back f hc, Zipper.items, List.length_append, List.length_singleton]
      omega
    | none =>
      cases hc' : cut m z.after with
      | none =>
        apply Nat.le_of_eq
        rw [move_missed f hc hc']
      | some c =>
        have := hlen hc'
        simp only [move_forth f hc hc', Zipper.items, List.length_append, List.length_singleton]
        omega

theorem length_run_le (es : List (Edit α)) (h : ∀ e ∈ es, ∀ m, e ≠ delete m) : ∀ z : Zipper α,
    z.items.length ≤ (run es z).items.length := by
  induction es with
  | nil => exact fun z => Nat.le_refl _
  | cons e es ih =>
    intro z
    exact Nat.le_trans (length_apply_le (h e (by simp)) z)
      (ih (fun e he => h e (List.mem_cons_of_mem _ he)) _)

/-! ## Items an edit leaves alone -/

/-- The edit looks for none of these items. -/
def Spares (xs : List α) : Edit α → Prop
  | delete m => ∀ x ∈ xs, m x = false
  | update m _ => ∀ x ∈ xs, m x = false
  | move m _ => ∀ x ∈ xs, m x = false
  | _ => True

/-- Going to a place changes no item. -/
theorem items_seek (m : α → Bool) (z : Zipper α) : ((seek m).apply z).items = z.items := by
  cases hc : cut m z.items with
  | none => rw [seek_missed hc]
  | some c =>
    obtain ⟨a, x, b⟩ := c
    rw [seek_found hc, Zipper.items_mk, (cut_eq_some_iff.mp hc).1, List.append_assoc,
      List.singleton_append]

/-- Spared items stay in their order. -/
theorem Spares.apply {xs : List α} {e : Edit α} (h : Spares xs e) {z : Zipper α}
    (hz : xs.Sublist z.items) : xs.Sublist (e.apply z).items := by
  have hcut : ∀ {m : α → Bool} {ys zs a b : List α} {x : α}, (∀ y ∈ ys, m y = false) →
    ys.Sublist zs →
      cut m zs = some (a, x, b) → ys.Sublist (a ++ b) := by
    intro m ys zs a b x hys hsub hc
    obtain ⟨rfl, hx, -⟩ := cut_eq_some_iff.mp hc
    refine sublist_without hsub fun hmem => ?_
    rw [hys x hmem] at hx
    cases hx
  have hput : ∀ (a b : List α) (x : α), (a ++ b).Sublist (a ++ [x] ++ b) := by
    intro a b x
    rw [List.append_assoc]
    exact (List.Sublist.refl a).append (List.sublist_cons_self x b)
  cases e with
  | insert x => exact hz.trans (hput _ _ _)
  | top => exact hz
  | seek m =>
    rw [items_seek]
    exact hz
  | delete m =>
    cases hc : cut m z.items with
    | none =>
      rw [delete_missed hc]
      exact hz
    | some c =>
      rw [delete_found hc]
      exact hcut h hz hc
  | update m f =>
    cases hc : cut m z.items with
    | none =>
      rw [update_missed f hc, Zipper.items_atEnd]
      exact hz
    | some c =>
      rw [update_found f hc]
      exact (hcut h hz hc).trans (hput _ _ _)
  | move m f =>
    obtain ⟨l1, l2, rfl, h1, h2⟩ := List.sublist_append_iff.mp hz
    cases hc : cut m z.before with
    | some c =>
      rw [move_back f hc]
      have := hcut (fun y hy => h y (List.mem_append_left _ hy)) h1 hc
      exact (this.append h2).trans (hput _ _ _)
    | none =>
      cases hc' : cut m z.after with
      | none =>
        rw [move_missed f hc hc']
        exact hz
      | some c =>
        rw [move_forth f hc hc']
        have := hcut (fun y hy => h y (List.mem_append_right _ hy)) h2 hc'
        exact (h1.append this).trans (hput _ _ _)

theorem Spares.run {xs : List α} (es : List (Edit α)) (h : ∀ e ∈ es, Spares xs e) :
    ∀ {z : Zipper α}, xs.Sublist z.items → xs.Sublist (run es z).items := by
  induction es with
  | nil => exact fun hz => hz
  | cons e es ih =>
    intro z hz
    exact ih (fun e he => h e (List.mem_cons_of_mem _ he)) ((h e (by simp)).apply hz)

/-! ## Items exchanged -/

/-- One item turned into another, put in, or taken out. -/
def exchange [DecidableEq α] : Option α → Option α → List (Edit α)
  | none, none => []
  | none, some y => [insert y]
  | some x, none => [delete fun z => decide (z = x)]
  | some x, some y => if x = y then [] else [update (fun z => decide (z = x)) fun _ => y]

theorem exchange_pair [DecidableEq α] (x y : α) : exchange (some x) (some y) =
    if x = y then [] else [update (fun z => decide (z = x)) fun _ => y] := rfl

theorem cut_item [DecidableEq α] {x : α} {items : List α} (h : x ∈ items) :
    ∃ a b, cut (fun z => decide (z = x)) items = some (a, x, b) ∧ items = a ++ x :: b := by
  obtain ⟨⟨a, y, b⟩, hc⟩ := @exists_cut α (fun z => decide (z = x)) items x h (decide_eq_true rfl)
  obtain ⟨heq, hy, -⟩ := cut_eq_some_iff.mp hc
  obtain rfl : y = x := of_decide_eq_true hy
  exact ⟨a, b, hc, heq⟩

/-- The items without the one that is looked for. -/
theorem perm_without {x : α} {items done todo a b : List α} (h : items.Perm (done ++ x :: todo))
    (heq : items = a ++ x :: b) : (a ++ b).Perm (done ++ todo) := by
  have hx : (x :: (a ++ b)).Perm (x :: (done ++ todo)) :=
    List.perm_middle.symm.trans ((List.Perm.of_eq heq.symm).trans (h.trans List.perm_middle))
  exact hx.cons_inv

/-- **Exchanges.**  Wherever the place is, the old items turn into the new ones. -/
theorem run_exchange_perm [DecidableEq α] (ps : List (Option α × Option α)) :
    ∀ (z : Zipper α) (done : List α), z.items.Perm (done ++ ps.filterMap Prod.fst) →
      (run (ps.flatMap fun p => exchange p.1 p.2) z).items.Perm
        (done ++ ps.filterMap Prod.snd) := by
  induction ps with
  | nil => exact fun z done h => h
  | cons p ps ih =>
    intro z done h
    have happ : ∀ (x : α) (todo : List α), done ++ x :: todo = (done ++ [x]) ++ todo :=
      fun x todo => by rw [List.append_assoc, List.singleton_append]
    obtain ⟨old, new⟩ := p
    rw [List.flatMap_cons, run_append]
    cases old with
    | none =>
      rw [List.filterMap_cons_none rfl] at h
      cases new with
      | none =>
        rw [List.filterMap_cons_none rfl]
        exact ih z done h
      | some y =>
        rw [List.filterMap_cons_some (f := Prod.snd) rfl, happ]
        refine ih _ _ ?_
        calc (z.before ++ [y] ++ z.after).Perm (y :: z.items) := by
              rw [List.append_assoc, List.singleton_append]
              exact List.perm_middle
          List.Perm _ (y :: (done ++ ps.filterMap Prod.fst)) := h.cons _
          List.Perm _ (done ++ [y] ++ ps.filterMap Prod.fst) := by
              rw [← happ]
              exact List.perm_middle.symm
    | some x =>
      rw [List.filterMap_cons_some (f := Prod.fst) rfl] at h
      obtain ⟨a, b, hc, heq⟩ := cut_item (h.symm.subset (show x ∈ _ by simp))
      cases new with
      | none =>
        rw [List.filterMap_cons_none rfl]
        show (run _ ((delete fun z => decide (z = x)).apply z)).items.Perm _
        rw [delete_found hc]
        exact ih _ _ (perm_without h heq)
      | some y =>
        rw [List.filterMap_cons_some (f := Prod.snd) rfl, happ]
        rw [exchange_pair]
        by_cases hxy : x = y
        · rw [if_pos hxy]
          rw [hxy, happ] at h
          exact ih z _ h
        · rw [if_neg hxy]
          show (run _ ((update (fun z => decide (z = x)) fun _ => y).apply z)).items.Perm _
          rw [update_found _ hc]
          refine ih _ _ ?_
          calc (a ++ [y] ++ b).Perm (y :: (a ++ b)) := by
                rw [List.append_assoc, List.singleton_append]
                exact List.perm_middle
            List.Perm _ (y :: (done ++ ps.filterMap Prod.fst)) := (perm_without h heq).cons _
            List.Perm _ (done ++ [y] ++ ps.filterMap Prod.fst) := by
                rw [← happ]
                exact List.perm_middle.symm

/-! ## Edits that come to the same -/

/-- The edits do the same to items that satisfy `P`, and keep to such items. -/
def Alike (P : α → Prop) : Edit α → Edit α → Prop
  | insert x, insert y => x = y ∧ P x
  | delete m, delete m' => ∀ x, P x → m x = m' x
  | seek m, seek m' => ∀ x, P x → m x = m' x
  | top, top => True
  | update m f, update m' f' => ∀ x, P x → m x = m' x ∧ (m x = true → f x = f' x ∧ P (f x))
  | move m f, move m' f' => ∀ x, P x → m x = m' x ∧ (m x = true → f x = f' x ∧ P (f x))
  | _, _ => False

theorem Alike.apply {P : α → Prop} {e e' : Edit α} (h : Alike P e e') {z : Zipper α}
    (hz : ∀ x ∈ z.items, P x) : e.apply z = e'.apply z ∧ ∀ x ∈ (e.apply z).items, P x := by
  have hpart : ∀ {m : α → Bool} {xs a b : List α} {x : α}, (∀ y ∈ xs, P y) →
    cut m xs = some (a, x, b) →
      m x = true ∧ P x ∧ ∀ y ∈ a ++ b, P y := by
    intro m xs a b x hxs hc
    obtain ⟨rfl, hm, -⟩ := cut_eq_some_iff.mp hc
    refine ⟨hm, hxs x (by simp), fun y hy => hxs y ?_⟩
    rw [List.mem_append] at hy
    rw [List.mem_append, List.mem_cons]
    exact hy.imp_right Or.inr
  have hput : ∀ {a b : List α} {x : α}, P x → (∀ y ∈ a ++ b, P y) → ∀ y ∈ a ++ [x] ++ b, P y := by
    intro a b x hx hab y hy
    rw [List.mem_append, List.mem_append, List.mem_singleton] at hy
    rcases hy with (hy | rfl) | hy
    · exact hab y (List.mem_append_left _ hy)
    · exact hx
    · exact hab y (List.mem_append_right _ hy)
  cases e with
  | insert x =>
    cases e' with
    | insert y =>
      obtain ⟨rfl, hx⟩ := h
      exact ⟨rfl, hput hx hz⟩
    | _ => exact h.elim
  | top =>
    cases e' with
    | top => exact ⟨rfl, hz⟩
    | _ => exact h.elim
  | delete m =>
    cases e' with
    | delete m' =>
      have hcut : cut m z.items = cut m' z.items := cut_congr fun x hx => h x (hz x hx)
      cases hc : cut m z.items with
      | none =>
        exact ⟨by rw [delete_missed hc, delete_missed (hcut ▸ hc)], by rw [delete_missed hc]; exact hz⟩
      | some c =>
        obtain ⟨a, x, b⟩ := c
        rw [delete_found hc, delete_found (hcut ▸ hc)]
        exact ⟨rfl, (hpart hz hc).2.2⟩
    | _ => exact h.elim
  | seek m =>
    cases e' with
    | seek m' =>
      have hcut : cut m z.items = cut m' z.items := cut_congr fun x hx => h x (hz x hx)
      cases hc : cut m z.items with
      | none =>
        exact ⟨by rw [seek_missed hc, seek_missed (hcut ▸ hc)], by rw [seek_missed hc]; exact hz⟩
      | some c =>
        obtain ⟨a, x, b⟩ := c
        rw [seek_found hc, seek_found (hcut ▸ hc)]
        exact ⟨rfl, hput (hpart hz hc).2.1 (hpart hz hc).2.2⟩
    | _ => exact h.elim
  | update m f =>
    cases e' with
    | update m' f' =>
      have hcut : cut m z.items = cut m' z.items := cut_congr fun x hx => (h x (hz x hx)).1
      cases hc : cut m z.items with
      | none =>
        rw [update_missed f hc, update_missed f' (hcut ▸ hc)]
        exact ⟨rfl, by rw [Zipper.items_atEnd]; exact hz⟩
      | some c =>
        obtain ⟨a, x, b⟩ := c
        obtain ⟨hm, hx, hab⟩ := hpart hz hc
        obtain ⟨hf, hP⟩ := (h x hx).2 hm
        rw [update_found f hc, update_found f' (hcut ▸ hc), hf]
        exact ⟨rfl, hput (hf ▸ hP) hab⟩
    | _ => exact h.elim
  | move m f =>
    cases e' with
    | move m' f' =>
      have hzb : ∀ x ∈ z.before, P x := fun x hx => hz x (List.mem_append_left _ hx)
      have hza : ∀ x ∈ z.after, P x := fun x hx => hz x (List.mem_append_right _ hx)
      have hcb : cut m z.before = cut m' z.before := cut_congr fun x hx => (h x (hzb x hx)).1
      have hca : cut m z.after = cut m' z.after := cut_congr fun x hx => (h x (hza x hx)).1
      cases hc : cut m z.before with
      | some c =>
        obtain ⟨a, x, b⟩ := c
        obtain ⟨hm, hx, hab⟩ := hpart hzb hc
        obtain ⟨hf, hP⟩ := (h x hx).2 hm
        rw [move_back f hc, move_back f' (hcb ▸ hc), hf]
        refine ⟨rfl, hput (hf ▸ hP) fun y hy => ?_⟩
        exact (List.mem_append.mp hy).elim (hab y) (hza y)
      | none =>
        cases hc' : cut m z.after with
        | none => exact ⟨by rw [move_missed f hc hc', move_missed f' (hcb ▸ hc) (hca ▸ hc')],
            by rw [move_missed f hc hc']; exact hz⟩
        | some c =>
          obtain ⟨a, x, b⟩ := c
          obtain ⟨hm, hx, hab⟩ := hpart hza hc'
          obtain ⟨hf, hP⟩ := (h x hx).2 hm
          rw [move_forth f hc hc', move_forth f' (hcb ▸ hc) (hca ▸ hc'), hf]
          refine ⟨rfl, hput (hf ▸ hP) fun y hy => ?_⟩
          exact (List.mem_append.mp hy).elim (hzb y) (hab y)
    | _ => exact h.elim

/-- Scripts that come to the same, edit by edit. -/
theorem run_alike {P : α → Prop} {es es' : List (Edit α)} (h : List.Forall₂ (Alike P) es es') :
    ∀ {z : Zipper α}, (∀ x ∈ z.items, P x) → run es z = run es' z := by
  induction h with
  | nil => exact fun _ => rfl
  | cons he _ ih =>
    intro z hz
    obtain ⟨h1, h2⟩ := he.apply hz
    rw [run_cons, run_cons, ← h1]
    exact ih h2

end Edit

end Coopy.Lib
