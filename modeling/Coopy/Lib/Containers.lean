import Mathlib.Data.List.Nodup
import Mathlib.Order.Lattice
import Mathlib.Tactic.Common

/-!
# Keyed maps and ordered sets as lists

`AssocMap κ α` is a finite map held as an association list: `set` replaces the
value of a key that is there and adds the key otherwise, `get?` reads it.
`setInsert` keeps a list strictly increasing and without repetitions, and
`nextIn` gives the element that follows a member, as an ordered-set iterator does.

    (m.set k v).get? k' = if k' = k then some v else m.get? k'            (AssocMap.get?_set)
    nextIn s x = some y → x < y ∧ y ∈ s                                     (nextIn_spec)
-/

namespace Coopy.Lib

/-! ## Finite maps -/

/-- A finite map, as the list of its entries. -/
abbrev AssocMap (κ α : Type) := List (κ × α)

namespace AssocMap

variable {κ α β : Type} [DecidableEq κ]

def get? : AssocMap κ α → κ → Option α
  | [], _ => none
  | e :: m, k => if e.1 = k then some e.2 else get? m k

def set : AssocMap κ α → κ → α → AssocMap κ α
  | [], k, v => [(k, v)]
  | e :: m, k, v => if e.1 = k then (k, v) :: m else e :: set m k v

def contains (m : AssocMap κ α) (k : κ) : Bool := (m.get? k).isSome

@[simp] theorem get?_nil (k : κ) : get? ([] : AssocMap κ α) k = none := rfl

theorem get?_cons (e : κ × α) (m : AssocMap κ α) (k : κ) :
    get? (e :: m) k = if e.1 = k then some e.2 else get? m k := rfl

theorem get?_set (m : AssocMap κ α) (k k' : κ) (v : α) :
    (m.set k v).get? k' = if k' = k then some v else m.get? k' := by
  induction m with
  | nil => simp only [set, get?, eq_comm]
  | cons e m ih =>
    unfold set
    by_cases he : e.1 = k
    · rw [if_pos he]
      simp only [get?_cons]
      by_cases h : k' = k
      · simp [h]
      · rw [if_neg (fun e' => h e'.symm), if_neg h, if_neg (fun e' => h (e'.symm.trans he))]
    · rw [if_neg he]
      simp only [get?_cons, ih]
      by_cases h1 : e.1 = k'
      · rw [if_pos h1, if_neg (fun h => he (h1.trans h)), if_pos h1]
      · rw [if_neg h1, if_neg h1]

@[simp] theorem get?_set_self (m : AssocMap κ α) (k : κ) (v : α) : (m.set k v).get? k = some v := by
  rw [get?_set, if_pos rfl]

theorem get?_set_ne (m : AssocMap κ α) {k k' : κ} (v : α) (h : k' ≠ k) :
    (m.set k v).get? k' = m.get? k' := by
  rw [get?_set, if_neg h]

/-- Every value read back is the value of an entry. -/
theorem mem_of_get? {m : AssocMap κ α} {k : κ} {v : α} (h : m.get? k = some v) : (k, v) ∈ m := by
  induction m with
  | nil => cases h
  | cons e m ih =>
    rw [get?_cons] at h
    split at h
    · next he =>
      cases h
      rw [← he]
      exact List.mem_cons_self
    · exact List.mem_cons_of_mem _ (ih h)

theorem get?_isSome_of_mem {m : AssocMap κ α} {k : κ} {v : α} (h : (k, v) ∈ m) :
    ∃ w, m.get? k = some w := by
  induction m with
  | nil => cases h
  | cons e m ih =>
    rw [get?_cons]
    by_cases he : e.1 = k
    · exact ⟨e.2, if_pos he⟩
    · rw [if_neg he]
      rcases List.mem_cons.mp h with h | h
      · exact absurd (congrArg Prod.fst h).symm he
      · exact ih h

/-- The keys of a map. -/
def keys (m : AssocMap κ α) : List κ := m.map Prod.fst

theorem get?_eq_none_iff {m : AssocMap κ α} {k : κ} : m.get? k = none ↔ k ∉ m.keys := by
  induction m with
  | nil => simp [keys]
  | cons e m ih =>
    rw [get?_cons]
    show _ ↔ k ∉ e.1 :: keys m
    rw [List.mem_cons, not_or, ← ih]
    by_cases he : e.1 = k
    · simp [he]
    · rw [if_neg he]
      exact ⟨fun h => ⟨fun hk => he hk.symm, h⟩, And.right⟩

theorem get?_of_mem {m : AssocMap κ α} (hn : m.keys.Nodup) {k : κ} {v : α} (h : (k, v) ∈ m) :
    m.get? k = some v := by
  induction m with
  | nil => cases h
  | cons e m ih =>
    obtain ⟨he, hn⟩ := List.nodup_cons.mp hn
    rw [get?_cons]
    rcases List.mem_cons.mp h with rfl | h
    · rw [if_pos rfl]
    · rw [if_neg, ih hn h]
      rintro rfl
      exact he (List.mem_map.mpr ⟨_, h, rfl⟩)

theorem set_of_not_mem {m : AssocMap κ α} {k : κ} (v : α) (h : k ∉ m.keys) :
    m.set k v = m ++ [(k, v)] := by
  induction m with
  | nil => rfl
  | cons e m ih =>
    have hne : e.1 ≠ k := fun he => h (by simp [keys, he])
    rw [set, if_neg hne, ih fun hm => h (List.mem_cons_of_mem _ hm), List.cons_append]

theorem mem_of_mem_set {m : AssocMap κ α} {k : κ} {v : α} {e : κ × α} (h : e ∈ m.set k v) :
    e = (k, v) ∨ e ∈ m := by
  induction m with
  | nil => exact Or.inl (List.mem_singleton.mp h)
  | cons d m ih =>
    unfold set at h
    split at h
    · exact (List.mem_cons.mp h).imp_right (List.mem_cons_of_mem _)
    · rcases List.mem_cons.mp h with rfl | h
      · exact Or.inr List.mem_cons_self
      · exact (ih h).imp_right (List.mem_cons_of_mem _)

theorem mem_keys_set {m : AssocMap κ α} {k k' : κ} {v : α} : k' ∈ (m.set k v).keys ↔ k' = k ∨
    k' ∈ m.keys := by
  rw [← not_iff_not, ← get?_eq_none_iff, get?_set, not_or, ← get?_eq_none_iff]
  by_cases h : k' = k
  · simp [h]
  · simp [h]

theorem nodup_keys_set {m : AssocMap κ α} (hn : m.keys.Nodup) (k : κ) (v : α) :
    (m.set k v).keys.Nodup := by
  induction m with
  | nil => simp [set, keys]
  | cons e m ih =>
    obtain ⟨he, hn⟩ := List.nodup_cons.mp hn
    unfold set
    split
    · next hk =>
      subst hk
      exact List.nodup_cons.mpr ⟨he, hn⟩
    · next hk =>
      refine List.nodup_cons.mpr ⟨fun hm => ?_, ih hn⟩
      rcases mem_keys_set.mp hm with h | h
      · exact hk h
      · exact he h

/-- The keys of entries written over a map, and its own. -/
theorem mem_keys_foldl_set (es : AssocMap κ α) {k : κ} : ∀ m : AssocMap κ α,
    k ∈ (es.foldl (fun m e => m.set e.1 e.2) m).keys ↔ k ∈ es.keys ∨ k ∈ m.keys := by
  induction es with
  | nil => exact fun m => ⟨Or.inr, fun h => h.resolve_left List.not_mem_nil⟩
  | cons e es ih =>
    intro m
    have hcons : k ∈ keys (e :: es) ↔ k = e.1 ∨ k ∈ keys es := List.mem_cons
    rw [List.foldl_cons, ih, mem_keys_set, hcons]
    exact or_left_comm.trans or_assoc.symm

/-- Entries under new keys are added one after the other. -/
theorem foldl_set (es : AssocMap κ α) : ∀ m : AssocMap κ α, es.keys.Nodup →
    (∀ k ∈ es.keys, k ∉ m.keys) → es.foldl (fun m e => m.set e.1 e.2) m = m ++ es := by
  induction es with
  | nil => exact fun m _ _ => (List.append_nil m).symm
  | cons e es ih =>
    intro m hn hm
    obtain ⟨he, hn⟩ := List.nodup_cons.mp hn
    have hset : m.set e.1 e.2 = m ++ [e] := set_of_not_mem e.2 (hm e.1 (by simp [keys]))
    rw [List.foldl_cons, hset, ih _ hn, List.append_assoc, List.singleton_append]
    intro k hk
    have hk' : k ∉ m.keys := hm k (List.mem_cons_of_mem _ hk)
    unfold keys at hk' ⊢
    rw [List.map_append, List.mem_append, not_or]
    refine ⟨hk', fun h => he ?_⟩
    rw [List.map_singleton, List.mem_singleton] at h
    exact h ▸ hk

/-- Entries written over a map: theirs where they have one. -/
theorem get?_foldl_set (es : AssocMap κ α) (k : κ) : ∀ m : AssocMap κ α, es.keys.Nodup →
    (es.foldl (fun m e => m.set e.1 e.2) m).get? k = (es.get? k).or (m.get? k) := by
  induction es with
  | nil => exact fun m _ => rfl
  | cons e es ih =>
    intro m hn
    obtain ⟨he, hn⟩ := List.nodup_cons.mp hn
    rw [List.foldl_cons, ih _ hn, get?_cons, get?_set]
    by_cases hk : e.1 = k
    · have hnone : get? es k = none := get?_eq_none_iff.mpr (hk ▸ he)
      rw [hnone, if_pos hk, if_pos hk.symm]
      rfl
    · rw [if_neg hk, if_neg fun h => hk h.symm]

theorem get?_zip_map (ks : List κ) (f : κ → α) (k : κ) :
    get? (ks.zip (ks.map f)) k = if k ∈ ks then some (f k) else none := by
  induction ks with
  | nil => simp
  | cons k' ks ih =>
    rw [List.map_cons, List.zip_cons_cons, get?_cons]
    by_cases h : k' = k
    · subst h
      simp
    · rw [if_neg h, ih]
      have hne : ¬ k = k' := fun he => h he.symm
      simp only [List.mem_cons, hne, false_or]

theorem get?_filter (m : AssocMap κ α) (p : κ → Bool) (k : κ) :
    get? (List.filter (fun e => p e.1) m) k = if p k then m.get? k else none := by
  induction m with
  | nil => simp
  | cons e m ih =>
    rw [List.filter_cons, get?_cons]
    by_cases he : e.1 = k
    · subst he
      cases hp : p e.1 with
      | true => simp [get?_cons]
      | false =>
        rw [hp] at ih
        simpa using ih
    · cases hp : p e.1 with
      | true => rw [if_pos rfl, get?_cons, if_neg he, if_neg he, ih]
      | false => rw [if_neg (by simp), ih, if_neg he]

/-- A value read after some were written is one of them, or was there before. -/
theorem mem_of_get?_foldl_set (es : AssocMap κ α) {k : κ} {v : α} : ∀ m : AssocMap κ α,
    (es.foldl (fun m e => m.set e.1 e.2) m).get? k = some v → (k, v) ∈ es ∨ m.get? k = some v := by
  induction es with
  | nil => exact fun m h => Or.inr h
  | cons e es ih =>
    intro m h
    rcases ih _ h with h | h
    · exact Or.inl (List.mem_cons_of_mem _ h)
    · rw [get?_set] at h
      split at h
      · next hk =>
        cases h
        exact Or.inl (hk ▸ List.mem_cons_self)
      · exact Or.inr h

/-- Entries written over a map of images. -/
theorem get?_foldl_set_map (f : α → β) (es : AssocMap κ α) (k : κ) :
    ∀ (m : AssocMap κ α) (m' : AssocMap κ β), (∀ k, m'.get? k = (m.get? k).map f) →
    ((es.map fun e => (e.1, f e.2)).foldl (fun m e => m.set e.1 e.2) m').get? k =
      ((es.foldl (fun m e => m.set e.1 e.2) m).get? k).map f := by
  induction es with
  | nil => exact fun m m' h => h k
  | cons e es ih =>
    intro m m' h
    rw [List.map_cons, List.foldl_cons, List.foldl_cons]
    refine ih _ _ fun k => ?_
    rw [get?_set, get?_set]
    split
    · rfl
    · exact h k

/-- The entries that are met under some keys, each taken out when it is met. -/
def drain (m : AssocMap κ α) : List κ → AssocMap κ α
  | [] => []
  | k :: ks =>
    match m.get? k with
    | some v => (k, v) :: drain (m.filter fun e => e.1 != k) ks
    | none => drain m ks

theorem mem_drain {m : AssocMap κ α} {ks : List κ} {k : κ} {v : α} : (k, v) ∈ m.drain ks ↔ k ∈ ks ∧
    m.get? k = some v := by
  induction ks generalizing m with
  | nil => simp [drain]
  | cons k' ks ih =>
    rw [drain]
    cases hget : m.get? k' with
    | none =>
      simp only [ih, List.mem_cons]
      refine ⟨fun h => ⟨Or.inr h.1, h.2⟩, fun h => ⟨h.1.resolve_left fun he => ?_, h.2⟩⟩
      rw [he, hget] at h
      cases h.2
    | some w =>
      have hrest := ih (m := m.filter fun e => e.1 != k')
      rw [get?_filter m (fun i => i != k') k] at hrest
      simp only [List.mem_cons, Prod.mk.injEq, hrest, bne_iff_ne, ne_eq]
      by_cases hk : k = k'
      · simp [hk, hget, eq_comm]
      · simp [hk]

theorem nodup_drain (m : AssocMap κ α) (ks : List κ) : (m.drain ks).keys.Nodup := by
  induction ks generalizing m with
  | nil => exact List.nodup_nil
  | cons k ks ih =>
    rw [drain]
    split
    · refine List.nodup_cons.mpr ⟨fun hm => ?_, ih _⟩
      obtain ⟨e, he, hk⟩ := List.mem_map.mp hm
      have hget := (mem_drain.mp he).2
      rw [get?_filter m (fun i => i != k), if_neg (by simp [hk])] at hget
      cases hget
    · exact ih m

/-- One entry for each of the keys. -/
def setAll (f : κ → α) (ks : List κ) (m : AssocMap κ α) : AssocMap κ α :=
  ks.foldl (fun m k => m.set k (f k)) m

theorem get?_setAll (f : κ → α) (ks : List κ) (k : κ) : ∀ m : AssocMap κ α,
    (m.setAll f ks).get? k = if k ∈ ks then some (f k) else m.get? k := by
  induction ks with
  | nil => intro m; simp [setAll]
  | cons k' ks ih =>
    intro m
    show (setAll f ks (m.set k' (f k'))).get? k = _
    rw [ih, get?_set]
    by_cases h : k = k'
    · simp [h]
    · simp [h]

/-- `m[k]` of a map to `bool`, which makes an entry `false` for a new key. -/
def holds (m : AssocMap κ Bool) (k : κ) : Bool := (m.get? k).getD false

theorem holds_setAll (f : κ → Bool) (ks : List κ) (m : AssocMap κ Bool) (k : κ) :
    (m.setAll f ks).holds k = if k ∈ ks then f k else m.holds k := by
  unfold holds
  rw [get?_setAll]
  split
  · rfl
  · rfl

/-- Two maps with the same entries, in whatever order. -/
def same [DecidableEq α] (m m' : AssocMap κ α) : Bool :=
  (m.keys ++ m'.keys).all fun k => m.get? k == m'.get? k

theorem same_iff [DecidableEq α] {m m' : AssocMap κ α} :
    m.same m' = true ↔ ∀ k, m.get? k = m'.get? k := by
  simp only [same, List.all_eq_true, List.mem_append, beq_iff_eq]
  refine ⟨fun h k => ?_, fun h k _ => h k⟩
  by_cases hk : k ∈ m.keys ∨ k ∈ m'.keys
  · exact h k hk
  · rw [not_or, ← get?_eq_none_iff, ← get?_eq_none_iff] at hk
    rw [hk.1, hk.2]

end AssocMap

/-! ## Ordered sets -/

section
variable {α : Type} [LinearOrder α]

/-- Insertion into a strictly increasing list. -/
def setInsert (x : α) : List α → List α
  | [] => [x]
  | y :: ys => if x < y then x :: y :: ys else if x = y then y :: ys else y :: setInsert x ys

theorem mem_setInsert (x z : α) (s : List α) : z ∈ setInsert x s ↔ z = x ∨ z ∈ s := by
  induction s with
  | nil => simp [setInsert]
  | cons y ys ih =>
    unfold setInsert
    split
    · simp
    · split
      · next h => subst h; simp
      · simp only [List.mem_cons, ih]
        tauto

theorem setInsert_pairwise (x : α) (s : List α) (h : s.Pairwise (· < ·)) :
    (setInsert x s).Pairwise (· < ·) := by
  induction s with
  | nil => simp [setInsert]
  | cons y ys ih =>
    obtain ⟨hy, hys⟩ := List.pairwise_cons.mp h
    unfold setInsert
    split
    · next hxy =>
      refine List.pairwise_cons.mpr ⟨fun z hz => ?_, h⟩
      rcases List.mem_cons.mp hz with rfl | hz
      · exact hxy
      · exact hxy.trans (hy z hz)
    · split
      · exact h
      · next hxy hne =>
        refine List.pairwise_cons.mpr ⟨fun z hz => ?_, ih hys⟩
        rcases (mem_setInsert x z ys).mp hz with rfl | hz
        · exact lt_of_le_of_ne (not_lt.mp hxy) (Ne.symm hne)
        · exact hy z hz

/-- The elements, in order. -/
def toSet (xs : List α) : List α := xs.foldl (fun s x => setInsert x s) []

theorem foldl_setInsert (xs : List α) : ∀ s : List α, s.Pairwise (· < ·) →
    (xs.foldl (fun s x => setInsert x s) s).Pairwise (· < ·) ∧
      ∀ z, z ∈ xs.foldl (fun s x => setInsert x s) s ↔ z ∈ s ∨ z ∈ xs := by
  induction xs with
  | nil => intro s hs; exact ⟨hs, fun z => by simp⟩
  | cons x xs ih =>
    intro s hs
    obtain ⟨h1, h2⟩ := ih _ (setInsert_pairwise x s hs)
    refine ⟨h1, fun z => ?_⟩
    rw [List.foldl_cons, h2, mem_setInsert, List.mem_cons]
    tauto

theorem mem_toSet (xs : List α) (z : α) : z ∈ toSet xs ↔ z ∈ xs := by
  simp [toSet, (foldl_setInsert xs [] List.Pairwise.nil).2 z]

theorem toSet_pairwise (xs : List α) : (toSet xs).Pairwise (· < ·) :=
  (foldl_setInsert xs [] List.Pairwise.nil).1

/-- In an ordered list a place is given by what stands there. -/
theorem eq_filter_lt {s pre suf : List α} {x : α} (h : s.Pairwise (· < ·))
    (he : s = pre ++ x :: suf) : pre = s.filter (· < x) := by
  subst he
  obtain ⟨-, hsuf, hcross⟩ := List.pairwise_append.1 h
  have hpre : ∀ y ∈ pre, y < x := fun y hy => hcross y hy x List.mem_cons_self
  have hrest : ∀ y ∈ x :: suf, ¬ y < x := by
    intro y hy
    rcases List.mem_cons.1 hy with rfl | hy
    · exact lt_irrefl y
    · exact lt_asymm ((List.pairwise_cons.1 hsuf).1 y hy)
  rw [List.filter_append, List.filter_eq_self.2 (by simpa using hpre),
    List.filter_eq_nil_iff.2 (by simpa using hrest),
    List.append_nil]

/-- The element after `x`, if `x` is a member and not the last one. -/
def nextIn : List α → α → Option α
  | [], _ => none
  | y :: ys, x => if y = x then ys.head? else nextIn ys x

theorem nextIn_append (pre suf : List α) (x : α) (h : x ∉ pre) :
    nextIn (pre ++ x :: suf) x = suf.head? := by
  induction pre with
  | nil => simp [nextIn]
  | cons y pre ih =>
    have hne : y ≠ x := fun he => h (by simp [he])
    rw [List.cons_append, nextIn, if_neg hne, ih (fun hm => h (List.mem_cons_of_mem _ hm))]

theorem nextIn_spec (s : List α) (h : s.Pairwise (· < ·)) (x y : α) (hn : nextIn s x = some y) :
    x < y ∧ y ∈ s := by
  induction s with
  | nil => cases hn
  | cons z zs ih =>
    obtain ⟨hz, hzs⟩ := List.pairwise_cons.mp h
    unfold nextIn at hn
    split at hn
    · next hzx =>
      have hy : y ∈ zs := List.mem_of_mem_head? hn
      exact ⟨hzx ▸ hz y hy, List.mem_cons_of_mem _ hy⟩
    · obtain ⟨h1, h2⟩ := ih hzs hn
      exact ⟨h1, List.mem_cons_of_mem _ h2⟩

end

/-! ## Lists -/

section
variable {α β : Type}

theorem mapM_eq_some_map {f : α → Option β} {g : α → β} {xs : List α}
    (h : ∀ x ∈ xs, f x = some (g x)) : xs.mapM f = some (xs.map g) := by
  induction xs with
  | nil => rfl
  | cons x xs ih =>
    rw [List.mapM_cons, h x (by simp), ih (fun y hy => h y (List.mem_cons_of_mem _ hy))]
    rfl

theorem length_of_mapM {f : α → Option β} {xs : List α} : ∀ {ys : List β}, xs.mapM f = some ys →
    ys.length = xs.length := by
  induction xs with
  | nil =>
    intro ys h
    cases h
    rfl
  | cons x xs ih =>
    intro ys h
    rw [List.mapM_cons] at h
    obtain ⟨y, -, h⟩ := Option.bind_eq_some_iff.1 h
    obtain ⟨zs, hzs, h⟩ := Option.bind_eq_some_iff.1 h
    cases h
    exact congrArg (· + 1) (ih hzs)

theorem exists_of_mapM {f : α → Option β} {xs : List α} : ∀ {ys : List β}, xs.mapM f = some ys →
    ∀ x ∈ xs, ∃ y, f x = some y := by
  induction xs with
  | nil => exact fun _ x hx => nomatch hx
  | cons a xs ih =>
    intro ys h x hx
    rw [List.mapM_cons] at h
    obtain ⟨y, hy, h⟩ := Option.bind_eq_some_iff.1 h
    obtain ⟨zs, hzs, -⟩ := Option.bind_eq_some_iff.1 h
    rcases List.mem_cons.1 hx with rfl | hx
    · exact ⟨y, hy⟩
    · exact ih hzs x hx

/-- Two ways to expand a list, equally long at each element, give the same if they do so at each
element. -/
theorem flatMap_eq_flatMap_iff {f g : α → List β} {l : List α}
    (h : ∀ x ∈ l, (f x).length = (g x).length) :
    l.flatMap f = l.flatMap g ↔ ∀ x ∈ l, f x = g x := by
  induction l with
  | nil => exact iff_of_true rfl (List.forall_mem_nil _)
  | cons x l ih =>
    obtain ⟨hx, hl⟩ := List.forall_mem_cons.1 h
    rw [List.flatMap_cons, List.flatMap_cons, List.forall_mem_cons, ← ih hl]
    constructor
    · exact fun heq => List.append_inj heq hx
    · rintro ⟨hhead, hrest⟩
      rw [hhead, hrest]

/-- Each element changed in turn. -/
theorem foldl_modify (g : Nat → α → α) (row : List α) : ∀ n : Nat,
    (List.range n).foldl (fun row c => row.modify c (g c)) row = row.mapIdx fun i x =>
    if i < n then g i x else x := by
  intro n
  induction n with
  | zero =>
    refine (List.ext_getElem? fun i => ?_ : row = _)
    rw [List.getElem?_mapIdx]
    simp
  | succ n ih =>
    rw [List.range_succ, List.foldl_append, ih, List.foldl_cons, List.foldl_nil]
    refine List.ext_getElem? fun i => ?_
    rw [List.getElem?_modify, List.getElem?_mapIdx, List.getElem?_mapIdx, Option.map_eq_map,
      Option.map_map]
    refine congrArg (fun f => Option.map f row[i]?) (funext fun x => ?_)
    simp only [Function.comp]
    by_cases hin : n = i
    · subst hin
      simp
    · have hlt : i < n + 1 ↔ i < n := by omega
      simp [hin, hlt]

theorem getD_set (xs : List α) (i j : Nat) (v d : α) :
    (xs.set i v).getD j d = if i = j ∧ j < xs.length then v else xs.getD j d := by
  rw [List.getD_eq_getElem?_getD, List.getD_eq_getElem?_getD, List.getElem?_set]
  by_cases h : i = j
  · subst h
    by_cases hl : i < xs.length
    · simp [hl]
    · simp [hl]
  · simp [h]

/-- Taking out an element by a key that no other one has. -/
theorem filter_ne_eq_eraseIdx [DecidableEq β] {f : α → β} {xs : List α} (h : (xs.map f).Nodup)
    {i : Nat} (hi : i < xs.length) : xs.filter (fun x => f x ≠ f xs[i]) = xs.eraseIdx i := by
  induction xs generalizing i with
  | nil => cases hi
  | cons x xs ih =>
    obtain ⟨hx, hxs⟩ := List.nodup_cons.1 h
    cases i with
    | zero =>
      rw [List.filter_cons_of_neg (by simp), List.eraseIdx_cons_zero, List.filter_eq_self.2]
      intro y hy
      have hne : f y ≠ f x := fun he => hx (he ▸ List.mem_map_of_mem hy)
      simpa using hne
    | succ i =>
      have hi' : i < xs.length := Nat.lt_of_succ_lt_succ hi
      have hne : f x ≠ f xs[i] := fun he => hx (he ▸ List.mem_map_of_mem (List.getElem_mem hi'))
      rw [List.getElem_cons_succ, List.filter_cons_of_pos (by simpa using hne), ih hxs hi',
        List.eraseIdx_cons_succ]

theorem mapM_eq_none {f : α → Option β} {xs : List α} (h : ∃ x ∈ xs, f x = none) :
    xs.mapM f = none := by
  obtain ⟨x, hx, hf⟩ := h
  induction xs with
  | nil => cases hx
  | cons y ys ih =>
    rw [List.mapM_cons]
    rcases List.mem_cons.1 hx with rfl | hx
    · rw [hf]
      rfl
    · rw [ih hx]
      cases f y <;> rfl

/-- A list of values of a function is a list of arguments, mapped. -/
theorem exists_map_eq {f : α → β} {s : List α} {ys : List β} (h : ∀ y ∈ ys, ∃ x ∈ s, f x = y) :
    ∃ xs : List α, (∀ x ∈ xs, x ∈ s) ∧ xs.map f = ys := by
  induction ys with
  | nil => exact ⟨[], by simp, rfl⟩
  | cons y ys ih =>
    obtain ⟨x, hx, rfl⟩ := h y List.mem_cons_self
    obtain ⟨xs, hxs, rfl⟩ := ih fun z hz => h z (List.mem_cons_of_mem _ hz)
    exact ⟨x :: xs, List.forall_mem_cons.2 ⟨hx, hxs⟩, rfl⟩

theorem map_idxOf_self [DecidableEq α] {xs : List α} (h : xs.Nodup) :
    xs.map (xs.idxOf ·) = List.range xs.length := by
  refine List.ext_getElem (by simp) fun i hi hi' => ?_
  rw [List.getElem_map, List.getElem_range, h.idxOf_getElem]

theorem foldl_eq_self {σ : Type} {f : σ → α → σ} {s : σ} (xs : List α) (h : ∀ x ∈ xs, f s x = s) :
    xs.foldl f s = s := by
  induction xs with
  | nil => rfl
  | cons x xs ih =>
    rw [List.foldl_cons, h x List.mem_cons_self]
    exact ih fun y hy => h y (List.mem_cons_of_mem x hy)

/-- An invariant of a loop whose body cannot fail. -/
theorem foldlM_invariant {σ : Type} {f : σ → α → Option σ} (P : σ → Prop) (xs : List α)
    (step : ∀ s, P s → ∀ x ∈ xs, ∃ s', f s x = some s' ∧ P s') {s : σ} (hs : P s) :
    ∃ s', xs.foldlM f s = some s' ∧ P s' := by
  induction xs generalizing s with
  | nil => exact ⟨s, rfl, hs⟩
  | cons x xs ih =>
    obtain ⟨s1, h1, hs1⟩ := step s hs x (by simp)
    obtain ⟨s2, h2, hs2⟩ := ih (fun t ht y hy => step t ht y (List.mem_cons_of_mem _ hy)) hs1
    refine ⟨s2, ?_, hs2⟩
    rw [List.foldlM_cons, h1]
    exact h2

theorem map_inj_on {f : α → β} {xs ys : List α} (h : ∀ x ∈ xs, ∀ y ∈ ys, f x = f y → x = y)
    (heq : xs.map f = ys.map f) : xs = ys := by
  induction xs generalizing ys with
  | nil => exact (List.map_eq_nil_iff.1 heq.symm).symm
  | cons x xs ih =>
    cases ys with
    | nil => cases heq
    | cons y ys =>
      obtain ⟨hhead, htail⟩ := List.cons.inj heq
      rw [h x List.mem_cons_self y List.mem_cons_self hhead,
        ih (fun x hx y hy => h x (List.mem_cons_of_mem _ hx) y (List.mem_cons_of_mem _ hy)) htail]

theorem map_eq_self_iff {f : α → α} {xs : List α} : xs.map f = xs ↔ ∀ x ∈ xs, f x = x := by
  conv_lhs => rhs; rw [← List.map_id xs]
  exact List.map_inj_left

/-- Lists that are not empty, and not longer together than they are many, have one item each. -/
theorem length_eq_one_of_flatMap {f : α → List β} {xs : List α} (hne : ∀ x ∈ xs, f x ≠ [])
    (h : (xs.flatMap f).length ≤ xs.length) : ∀ x ∈ xs, (f x).length = 1 := by
  induction xs with
  | nil => intro x hx; cases hx
  | cons x xs ih =>
    have hx := List.length_pos_of_ne_nil (hne x List.mem_cons_self)
    have hxs : xs.length ≤ (xs.flatMap f).length := by
      clear ih h
      induction xs with
      | nil => exact Nat.zero_le _
      | cons y ys ih =>
        have hy := List.length_pos_of_ne_nil (hne y (by simp))
        have := ih fun z hz => hne z (by simp only [List.mem_cons] at hz ⊢; tauto)
        rw [List.flatMap_cons, List.length_append, List.length_cons]
        omega
    rw [List.flatMap_cons, List.length_append, List.length_cons] at h
    intro y hy
    rcases List.mem_cons.1 hy with rfl | hy
    · omega
    · exact ih (fun z hz => hne z (List.mem_cons_of_mem _ hz)) (by omega) y hy

/-- `x` put in right after the first `y`. -/
def insertAfter [DecidableEq α] (y x : α) : List α → List α
  | [] => []
  | z :: zs => if z = y then z :: x :: zs else z :: insertAfter y x zs

theorem insertAfter_append [DecidableEq α] {y x : α} {pre suf : List α} (h : y ∉ pre) :
    insertAfter y x (pre ++ y :: suf) = pre ++ y :: x :: suf := by
  induction pre with
  | nil => simp [insertAfter]
  | cons z pre ih =>
    have hne : z ≠ y := fun he => h (by simp [he])
    rw [List.cons_append, insertAfter, if_neg hne, ih (fun hm => h (List.mem_cons_of_mem _ hm)),
      List.cons_append]

theorem filter_insertAfter [DecidableEq α] {y x : α} {p : α → Bool} (hp : p x = false)
    (xs : List α) : (insertAfter y x xs).filter p = xs.filter p := by
  induction xs with
  | nil => rfl
  | cons z zs ih =>
    unfold insertAfter
    split
    · simp [List.filter_cons, hp]
    · rw [List.filter_cons, List.filter_cons, ih]

theorem filter_erase [DecidableEq α] {x : α} {p : α → Bool} (hp : p x = false) (xs : List α) :
    (xs.erase x).filter p = xs.filter p := by
  induction xs with
  | nil => rfl
  | cons z zs ih =>
    rw [List.erase_cons]
    split
    · next he =>
      have : z = x := by simpa using he
      simp [this, hp]
    · rw [List.filter_cons, List.filter_cons, ih]

/-- A test that exactly one element of a duplicate-free list passes. -/
theorem countP_eq_one_of_iff [DecidableEq α] {xs : List α} (hn : xs.Nodup) {p : α → Bool}
    {x : α} (hx : x ∈ xs) (hp : ∀ y ∈ xs, p y = true ↔ y = x) : xs.countP p = 1 := by
  have hcongr : xs.countP p = xs.countP (· == x) :=
    List.countP_congr fun y hy => by simpa using hp y hy
  rw [hcongr]
  exact List.nodup_iff_count_eq_one.mp hn x hx

/-- An item that is not needed is taken out. -/
theorem sublist_without {xs a b : List α} {x : α} (h : xs.Sublist (a ++ x :: b)) (hx : x ∉ xs) :
    xs.Sublist (a ++ b) := by
  obtain ⟨l1, l2, rfl, h1, h2⟩ := List.sublist_append_iff.mp h
  refine h1.append ?_
  cases h2 with
  | cons _ h2 => exact h2
  | cons_cons _ _ => exact absurd (by simp) hx

/-- What stands behind the last item is not needed. -/
theorem sublist_upto {xs a b : List α} {y : α} (h : (xs ++ [y]).Sublist (a ++ y :: b))
    (hy : y ∉ b) : (xs ++ [y]).Sublist (a ++ [y]) := by
  have h' : (xs ++ [y]).Sublist ((a ++ [y]) ++ b) := by
    rw [List.append_assoc, List.singleton_append]
    exact h
  obtain ⟨l1, l2, heq, h1, h2⟩ := List.sublist_append_iff.mp h'
  rcases List.eq_nil_or_concat l2 with rfl | ⟨l3, w, rfl⟩
  · rw [heq, List.append_nil]
    exact h1
  · rw [List.concat_eq_append, ← List.append_assoc] at heq
    obtain ⟨-, hw⟩ := List.append_inj' heq rfl
    obtain rfl : y = w := by simpa using hw
    exact absurd (h2.subset (by simp)) hy

theorem mem_of_pair_sublist {a b : List α} {x y : α} (h : [x, y].Sublist (a ++ x :: b))
    (hx : x ∉ a) : y ∈ b := by
  induction a with
  | nil =>
    cases h with
    | cons _ h => exact h.subset (by simp)
    | cons_cons _ h => exact h.subset (by simp)
  | cons z a ih =>
    cases h with
    | cons _ h => exact ih h fun hm => hx (List.mem_cons_of_mem _ hm)
    | cons_cons _ h => exact absurd List.mem_cons_self hx

theorem insertIdx_append (a b : List α) (x : α) : (a ++ b).insertIdx a.length x = a ++ x :: b := by
  induction a with
  | nil => rfl
  | cons y a ih =>
    rw [List.cons_append, List.length_cons, List.insertIdx_succ_cons, ih, List.cons_append]

theorem eraseIdx_append_cons (a b : List α) (x : α) : (a ++ x :: b).eraseIdx a.length = a ++ b := by
  rw [List.eraseIdx_append_of_length_le (Nat.le_refl _), Nat.sub_self, List.eraseIdx_cons_zero]

theorem getD_append_cons (a b : List α) (x d : α) : (a ++ x :: b).getD a.length d = x := by
  rw [List.getD_eq_getElem?_getD, List.getElem?_append_right (Nat.le_refl _), Nat.sub_self]
  rfl

theorem filterMap_getElem?_range (xs : List α) :
    (List.range xs.length).filterMap (fun k => xs[k]?) = xs := by
  induction xs with
  | nil => rfl
  | cons x xs ih =>
    rw [List.length_cons, List.range_succ_eq_map, List.filterMap_cons, List.filterMap_map]
    exact congrArg (x :: ·) ih

/-- Picking some elements by their indices and then the others permutes a list. -/
theorem filterMap_getElem?_perm (xs : List α) (ks : List Nat) (hn : ks.Nodup)
    (hk : ∀ k ∈ ks, k < xs.length) : (ks.filterMap (fun k => xs[k]?) ++
      ((List.range xs.length).filter fun k => decide (k ∉ ks)).filterMap fun k => xs[k]?).Perm
      xs := by
  have hidx :
    (ks ++ (List.range xs.length).filter fun k => decide (k ∉ ks)).Perm (List.range xs.length) := by
    refine (List.perm_ext_iff_of_nodup ?_ List.nodup_range).mpr fun k => ?_
    · refine List.nodup_append.mpr ⟨hn, List.nodup_range.filter _, fun a ha b hb hab => ?_⟩
      subst hab
      exact of_decide_eq_true (List.mem_filter.mp hb).2 ha
    · simp only [List.mem_append, List.mem_filter, List.mem_range, decide_eq_true_eq]
      constructor
      · rintro (h | ⟨h, -⟩)
        · exact hk k h
        · exact h
      · intro h
        by_cases hm : k ∈ ks
        · exact Or.inl hm
        · exact Or.inr ⟨h, hm⟩
  rw [← List.filterMap_append]
  exact (hidx.filterMap _).trans (List.Perm.of_eq (filterMap_getElem?_range xs))

end

end Coopy.Lib
