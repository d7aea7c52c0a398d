import Mathlib.Data.List.Basic

/-!
# Cutting a sequence at breaks

An automaton reads a sequence and says, from its state, where the sequence is cut.  The tokens are
what stands in front of the breaks; behind the last one nothing is kept.

    the tokens are the items of a list, up to what a measure does not count
      ↔ no break falls within the items, and one at the end                        (cuts_joined_iff)
-/

namespace Coopy.Lib

variable {σ α : Type} (next : σ → α → σ) (breaks : σ → α → Bool)

/-- The tokens of a sequence; `token` is what has been read since the last break. -/
def cuts : σ → List α → List α → List (List α)
  | _, _, [] => []
  | k, token, c :: cs =>
    if breaks k c then token :: cuts (next k c) [] cs else cuts (next k c) (token ++ [c]) cs

/-- The state behind a sequence that is read without a break. -/
def quiet : σ → List α → Option σ
  | k, [] => some k
  | k, c :: cs => if breaks k c then none else quiet (next k c) cs

/-- Items with a separator between them and a mark at the end. -/
def joined (sep last : α) : List (List α) → List α
  | [] => []
  | [d] => d ++ [last]
  | d :: ds => d ++ sep :: joined sep last ds

variable {next breaks}

theorem quiet_append (x y : List α) :
    ∀ k : σ, quiet next breaks k (x ++ y) = (quiet next breaks k x).bind fun k =>
    quiet next breaks k y := by
  induction x with
  | nil => exact fun k => rfl
  | cons c x ih =>
    intro k
    rw [List.cons_append, quiet, quiet]
    split
    · rfl
    · exact ih _

theorem cuts_of_quiet (rest x : List α) :
    ∀ {k k' : σ} (token : List α), quiet next breaks k x = some k' →
    cuts next breaks k token (x ++ rest) = cuts next breaks k' (token ++ x) rest := by
  induction x with
  | nil =>
    intro k k' token h
    rw [List.append_nil, List.nil_append, Option.some.inj h]
  | cons c x ih =>
    intro k k' token h
    rw [quiet] at h
    split at h
    · cases h
    · rename_i hc
      rw [List.cons_append, cuts, if_neg hc, ih _ h, List.append_assoc]
      rfl

/-- The first token goes up to the first break. -/
theorem cuts_eq_cons (x : List α) :
    ∀ {k : σ} {token s : List α} {rest : List (List α)}, cuts next breaks k token x = s :: rest →
    ∃ m b y k', x = m ++ b :: y ∧ s = token ++ m ∧ quiet next breaks k m = some k' ∧
    breaks k' b = true ∧
      rest = cuts next breaks (next k' b) [] y := by
  induction x with
  | nil => exact fun h => by cases h
  | cons c x ih =>
    intro k token s rest h
    rw [cuts] at h
    split at h
    · rename_i hc
      obtain ⟨rfl, rfl⟩ := List.cons.inj h
      exact ⟨[], c, x, k, rfl, (List.append_nil _).symm, rfl, hc, rfl⟩
    · rename_i hc
      obtain ⟨m, b, y, k', rfl, rfl, hm, hb, hrest⟩ := ih h
      refine ⟨c :: m, b, y, k', rfl, ?_, ?_, hb, hrest⟩
      · rw [List.append_assoc]
        rfl
      · rw [quiet, if_neg hc, hm]

/-- Two ways to split a sequence at something that counts are one, if as much stands in front. -/
theorem split_unique {p : α → Bool} {d z : List α} {b c : α} (hb : p b = true) (hc : p c = true) :
    ∀ {s y : List α},
    s ++ b :: y = d ++ c :: z → s.countP p = d.countP p → s = d ∧ b = c ∧ y = z := by
  induction d with
  | nil =>
    intro s y h hcount
    cases s with
    | nil =>
      obtain ⟨rfl, rfl⟩ := List.cons.inj h
      exact ⟨rfl, rfl, rfl⟩
    | cons a s =>
      obtain ⟨rfl, -⟩ := List.cons.inj h
      rw [List.countP_cons_of_pos hc, List.countP_nil] at hcount
      cases hcount
  | cons a d ih =>
    intro s y h hcount
    cases s with
    | nil =>
      obtain ⟨rfl, -⟩ := List.cons.inj h
      rw [List.countP_cons_of_pos hb, List.countP_nil] at hcount
      cases hcount
    | cons a' s =>
      obtain ⟨rfl, hrest⟩ := List.cons.inj h
      rw [List.countP_cons, List.countP_cons, Nat.add_right_cancel_iff] at hcount
      obtain ⟨rfl, hbc, hyz⟩ := ih hrest hcount
      exact ⟨rfl, hbc, hyz⟩

section
variable {β : Type} {f : List α → β} {p : α → Bool} {sep last : α}
  (hf : ∀ x y, f x = f y → x.countP p = y.countP p) (hp : ∀ k c, breaks k c = true → p c = true)
include hf hp

/-- A first token that is `d` for the measure ends where `d` does. -/
theorem cuts_first {k : σ} {d z s : List α} {c : α} {rest : List (List α)} (hc : p c = true)
    (h : cuts next breaks k [] (d ++ c :: z) = s :: rest) (hs : f s = f d) :
    ∃ k', quiet next breaks k d = some k' ∧ breaks k' c = true ∧ s = d ∧
    rest = cuts next breaks (next k' c) [] z := by
  obtain ⟨m, b, y, k', hsplit, rfl, hquiet, hbreak, hrest⟩ := cuts_eq_cons _ h
  obtain ⟨rfl, rfl, rfl⟩ := split_unique hc (hp k' b hbreak) hsplit (hf d s hs.symm)
  exact ⟨k', hquiet, hbreak, rfl, hrest⟩

/-- **The tokens are the items** if the automaton is quiet within them and breaks at the end; a
separator breaks, and the state is as before. -/
theorem cuts_joined_iff (hsep : ∀ k, breaks k sep = true ∧ next k sep = k) (hlast : p last = true)
    (ds : List (List α))
    (hne : ds ≠ []) : ∀ k : σ, (cuts next breaks k [] (joined sep last ds)).map f = ds.map f ↔
      ∃ k', quiet next breaks k ds.flatten = some k' ∧ breaks k' last = true := by
  induction ds with
  | nil => exact absurd rfl hne
  | cons d ds ih =>
    intro k
    cases ds with
    | nil =>
      rw [List.flatten_cons, List.flatten_nil, List.append_nil]
      constructor
      · intro h
        obtain ⟨s, rest, hcuts, hs, -⟩ := List.map_eq_cons_iff.1 h
        obtain ⟨k', hquiet, hbreak, -⟩ := cuts_first hf hp hlast hcuts hs
        exact ⟨k', hquiet, hbreak⟩
      · rintro ⟨k', hquiet, hbreak⟩
        rw [joined, cuts_of_quiet _ _ _ hquiet, cuts, if_pos hbreak]
        rfl
    | cons d' ds =>
      rw [List.flatten_cons, quiet_append, joined.eq_3 _ _ _ _ (by simp)]
      constructor
      · intro h
        obtain ⟨s, rest, hcuts, hs, htail⟩ := List.map_eq_cons_iff.1 h
        obtain ⟨k', hquiet, -, -, hrest⟩ := cuts_first hf hp (hp k sep (hsep k).1) hcuts hs
        rw [hrest, (hsep k').2] at htail
        rw [hquiet]
        exact (ih (by simp) k').1 htail
      · rintro ⟨k'', hquiet, hbreak⟩
        obtain ⟨k', hd, hds⟩ := Option.bind_eq_some_iff.1 hquiet
        rw [cuts_of_quiet _ _ _ hd, cuts, if_pos (hsep k').1, (hsep k').2, List.map_cons,
          (ih (by simp) k').2 ⟨k'', hds, hbreak⟩]
        rfl

end

/-- The tokens themselves, where no break falls within the items. -/
theorem cuts_joined {sep last : α} (hsep : ∀ k, breaks k sep = true ∧ next k sep = k)
    (ds : List (List α)) (hne : ds ≠ [])
    {k k' : σ} (hquiet : quiet next breaks k ds.flatten = some k')
    (hbreak : breaks k' last = true) : cuts next breaks k [] (joined sep last ds) = ds := by
  have h :=
    (cuts_joined_iff (f := id) (p := fun _ => true) (fun x y h => congrArg _ h)
      (fun _ _ _ => rfl) hsep rfl ds hne k).2
    ⟨k', hquiet, hbreak⟩
  rwa [List.map_id, List.map_id] at h

end Coopy.Lib
