import Coopy.Lib.Containers
import Mathlib.Data.List.Chain
import Mathlib.Data.List.DropRight

/-!
# Changes with some items around them

A sequence of changes and plain items is passed on with the plain items near the changes, and a
marker where others are left out.  The loop keeps the last `n` plain items in a history, for a
change to come, and passes on the next `n` after a change.

    what the loop passes on is a selection, with a marker for each gap next to something
      ↔ no change, or not between `n + 1` and `2n` plain items at the end          (withContext_iff)
-/

namespace Coopy.Lib

inductive Item (α β : Type)
  | change (c : α)
  | plain (r : β)
deriving DecidableEq, Repr

namespace Hunks

variable {α β : Type}

def isPlain : Item α β → Bool
  | .change _ => false
  | .plain _ => true

/-- A marker is `none`. -/
structure State (α β : Type) where
  hist : List β := []
  pending : Nat := 0
  skipped : Bool := false
  noted : Bool := false
  out : List (Option (Item α β)) := []

variable (n : Nat)

def step (s : State α β) : Item α β → State α β
  | .change c =>
    { hist := []
      pending := n
      skipped := false
      noted := true
      out := s.out ++ (if s.skipped then [none] else []) ++ s.hist.map (fun r => some (.plain r)) ++
        [some (.change c)] }
  | .plain r =>
    if 0 < s.pending then
      { s with
        out := s.out ++ (if s.skipped then [none] else []) ++ [some (.plain r)]
        pending := s.pending - 1
        skipped := false }
    else if n < (s.hist ++ [r]).length then { s with skipped := true, hist := (s.hist ++ [r]).tail }
    else { s with hist := s.hist ++ [r] }

def State.finish (s : State α β) : List (Option (Item α β)) :=
  s.out ++ if s.skipped && s.noted then [none] else []

def withContext (items : List (Item α β)) : List (Option (Item α β)) :=
  (items.foldl (step n) {}).finish

/-! ## A selection -/

/-- One item of a selection: it is passed on, with a marker in front of it if items were left out
since the last one. -/
def emit (s : List (Option (Item α β)) × Bool) (x : Item α β × Bool) :
    List (Option (Item α β)) × Bool :=
  if x.2 then (s.1 ++ (if s.2 then [none] else []) ++ [some x.1], false) else (s.1, true)

/-- A selection with its markers: one for each gap that is next to an item passed on. -/
def render (xs : List (Item α β × Bool)) : List (Option (Item α β)) :=
  let s := xs.foldl emit ([], false)
  s.1 ++ if s.2 && !s.1.isEmpty then [none] else []

/-- A change is before or behind, with less than `n` plain items between. -/
def Near (before behind : List (Item α β)) : Prop :=
  (∃ a c b, behind = a ++ .change c :: b ∧ a.countP isPlain < n) ∨
  ∃ b c a, before = b ++ .change c :: a ∧ a.countP isPlain < n

/-- All changes, and plain items only near them. -/
structure Selects (xs : List (Item α β × Bool)) : Prop where
  changes : ∀ c b, (Item.change c, b) ∈ xs → b = true
  near : ∀ before r behind, xs = before ++ (.plain r, true) :: behind →
    Near n (before.map Prod.fst) (behind.map Prod.fst)

/-- The plain items behind the last change. -/
def trailing (items : List (Item α β)) : Nat := (items.rtakeWhile isPlain).length

/-! ## What a selection passes on -/

variable {n}

theorem emit_append (xs : List (Item α β × Bool)) : ∀ s : List (Option (Item α β)) × Bool,
    (xs.foldl emit s).1 = s.1 ++ (xs.foldl emit ([], s.2)).1 ∧
    (xs.foldl emit s).2 = (xs.foldl emit ([], s.2)).2 := by
  induction xs with
  | nil => exact fun s => ⟨(List.append_nil _).symm, rfl⟩
  | cons x xs ih =>
    intro s
    rw [List.foldl_cons, List.foldl_cons]
    obtain ⟨hout, hrun⟩ := ih (emit s x)
    obtain ⟨hout', hrun'⟩ := ih (emit ([], s.2) x)
    rw [hout, hrun, hout', hrun']
    unfold emit
    cases x.2 with
    | true => simp
    | false => simp

/-- Without the markers it is what was selected. -/
theorem filterMap_emit (xs : List (Item α β × Bool)) : ∀ s : List (Option (Item α β)) × Bool,
    (xs.foldl emit s).1.filterMap id = s.1.filterMap id ++ (xs.filter Prod.snd).map Prod.fst := by
  induction xs with
  | nil => exact fun s => (List.append_nil _).symm
  | cons x xs ih =>
    intro s
    rw [List.foldl_cons, ih]
    unfold emit
    cases hx : x.2 with
    | true =>
      rw [if_pos rfl, List.filter_cons_of_pos hx, List.map_cons]
      cases s.2 <;> simp
    | false => rw [if_neg (by decide), List.filter_cons_of_neg (by simp [hx])]

theorem filterMap_marker (b : Bool) :
    ((if b then [none] else []) : List (Option (Item α β))).filterMap id = [] := by
  cases b <;> rfl

theorem filterMap_render (xs : List (Item α β × Bool)) :
    (render xs).filterMap id = (xs.filter Prod.snd).map Prod.fst := by
  have hemit := filterMap_emit xs ([], false)
  unfold render
  simp only [List.filterMap_append, filterMap_marker, List.append_nil]
  exact hemit

/-- A marker stands in front of an item behind a gap. -/
theorem render_gap (before behind : List (Item α β × Bool)) (y x : Item α β) : ∃ a b,
    render (before ++ (y, false) :: (x, true) :: behind) = a ++ none :: some x :: b := by
  have htwo : ∀ s : List (Option (Item α β)) × Bool, emit (emit s (y, false)) (x, true) =
    (s.1 ++ [none, some x], false) := by
    intro s
    simp [emit]
  unfold render
  simp only [List.foldl_append, List.foldl_cons, htwo]
  obtain ⟨hout, -⟩ :=
    emit_append behind ((before.foldl emit ([], false)).1 ++ [none, some x], false)
  rw [hout, List.append_assoc, List.append_assoc]
  exact ⟨_, _, rfl⟩

/-! ## The loop -/

/-- No marker stands directly in front of a change. -/
def Apart (out : List (Option (Item α β))) : Prop := out.IsChain fun x y => x = none →
    ∀ c, y ≠ some (.change c)

theorem apart_of_plain {out : List (Option (Item α β))} (h : ∀ c, some (Item.change c) ∉ out) :
    Apart out := by
  induction out with
  | nil => exact .nil
  | cons x out ih =>
    refine List.isChain_cons.2 ⟨fun y hy _ c he => ?_, ih fun c hc =>
      h c (List.mem_cons_of_mem _ hc)⟩
    exact h c (List.mem_cons_of_mem _ (he ▸ List.mem_of_mem_head? hy))

theorem Apart.append {out more : List (Option (Item α β))} (h : Apart out)
    (hmore : ∀ c, some (Item.change c) ∉ more) : Apart (out ++ more) :=
  List.IsChain.append h (apart_of_plain hmore) fun _ _ _ hy _ c he =>
    hmore c (he ▸ List.mem_of_mem_head? hy)

theorem Apart.change {out : List (Option (Item α β))} (h : Apart out)
    (hlast : ∀ m, out.getLast? = some m → m ≠ none) (c : α) :
    Apart (out ++ [some (.change c)]) :=
  List.IsChain.append h (.singleton _) fun x hx _ _ he => absurd he (hlast x hx)

/-- What the loop has done: the selection `xs` is passed on, and the history is still open. -/
structure Runs (n : Nat) (items : List (Item α β)) (s : State α β)
    (xs : List (Item α β × Bool)) : Prop where
  seen : items = xs.map Prod.fst ++ s.hist.map .plain
  emitted : xs.foldl emit ([], false) = (s.out, s.skipped)
  noted : s.noted = true ↔ s.out ≠ []
  changed : s.noted = true ↔ ∃ c, Item.change c ∈ items
  selects : Selects n xs
  last : ∀ m, s.out.getLast? = some m → m ≠ none
  bounded : s.hist.length ≤ n
  full : s.skipped = true → s.hist.length = n
  pending : 0 < s.pending → s.hist = [] ∧ ∃ b c a, xs.map Prod.fst = b ++ .change c :: a ∧
    a.countP isPlain + s.pending = n
  tail : s.noted = true → s.pending = n - trailing items ∧
    s.hist.length = min (trailing items - n) n ∧ (s.skipped = true ↔ 2 * n < trailing items)
  apart : Apart s.out

theorem runs_start (n : Nat) : Runs n ([] : List (Item α β)) {} [] := by
  refine ⟨rfl, rfl, ?_, ?_, ⟨?_, ?_⟩, ?_, Nat.zero_le _, ?_, ?_, ?_, .nil⟩
  · simp
  · simp
  · simp
  · simp
  · simp
  · simp
  · simp
  · simp

theorem trailing_change (items : List (Item α β)) (c : α) :
    trailing (items ++ [.change c]) = 0 := by
  unfold trailing
  rw [List.rtakeWhile_concat_neg _ _ _ (by simp [isPlain])]
  rfl

theorem trailing_plain (items : List (Item α β)) (r : β) :
    trailing (items ++ [.plain r]) = trailing items + 1 := by
  unfold trailing
  rw [List.rtakeWhile_concat_pos _ _ _ rfl, List.length_append]
  rfl

/-- The last change, with the plain items behind it. -/
theorem trailing_split {items : List (Item α β)} {c : α} (hc : .change c ∈ items) :
    ∃ (front : List (Item α β)) (d : α) (back : List β), items = front ++ .change d ::
    back.map .plain ∧
      trailing items = back.length := by
  induction items using List.reverseRecOn with
  | nil => cases hc
  | append_singleton items x ih =>
    cases x with
    | change d => exact ⟨items, d, [], rfl, trailing_change items d⟩
    | plain r =>
      have hin : Item.change c ∈ items := by simpa using hc
      obtain ⟨front, d, back, heq, hlen⟩ := ih hin
      refine ⟨front, d, back ++ [r], ?_, ?_⟩
      · rw [heq]
        simp
      · rw [trailing_plain, hlen, List.length_append, List.length_singleton]

/-- More of the sequence takes no change away. -/
theorem Near.append {before behind : List (Item α β)} (h : Near n before behind)
    (more : List (Item α β)) : Near n before (behind ++ more) := by
  rcases h with ⟨a, c, b, rfl, ha⟩ | hbefore
  · exact Or.inl ⟨a, c, b ++ more, by simp, ha⟩
  · exact Or.inr hbefore

theorem Selects.append {xs ys : List (Item α β × Bool)} (h : Selects n xs)
    (hchanges : ∀ c b, (Item.change c, b) ∈ ys → b = true)
    (hnear : ∀ before r behind, ys = before ++ (.plain r, true) :: behind →
      Near n (xs.map Prod.fst ++ before.map Prod.fst) (behind.map Prod.fst)) :
      Selects n (xs ++ ys) := by
  constructor
  · intro c b hc
    rcases List.mem_append.1 hc with hc | hc
    · exact h.changes c b hc
    · exact hchanges c b hc
  · intro before r behind hsplit
    rcases List.append_eq_append_iff.1 hsplit with ⟨mid, rfl, hys⟩ | ⟨mid, rfl, hmid⟩
    · rw [List.map_append]
      exact hnear mid r behind hys
    · cases mid with
      | nil =>
        have hold := hnear [] r behind hmid.symm
        rwa [List.map_nil, List.append_nil, List.append_nil] at hold
      | cons x mid =>
        obtain ⟨rfl, rfl⟩ := List.cons.inj hmid
        show Near n _ ((mid ++ ys).map Prod.fst)
        rw [List.map_append]
        exact (h.near before r mid rfl).append _

theorem emit_kept (ys : List (Item α β)) (x : Item α β) : ∀ s : List (Option (Item α β)) × Bool,
    (ys.map (·, true) ++ [(x, true)]).foldl emit s =
    (s.1 ++ (if s.2 then [none] else []) ++ ys.map some ++ [some x], false) := by
  induction ys with
  | nil =>
    intro s
    simp [emit]
  | cons y ys ih =>
    intro s
    rw [List.map_cons, List.cons_append, List.foldl_cons, ih]
    simp [emit]

theorem split_concat {γ : Type} {ys before behind : List γ} {z x : γ}
    (h : ys ++ [z] = before ++ x :: behind) (hne : x ≠ z) :
    ∃ mid, behind = mid ++ [z] ∧ ys = before ++ x :: mid := by
  rcases List.eq_nil_or_concat behind with rfl | ⟨mid, w, rfl⟩
  · obtain ⟨-, hlast⟩ := List.append_inj' h rfl
    exact absurd (List.cons.inj hlast).1.symm hne
  · have hassoc : before ++ x :: (mid ++ [w]) = (before ++ x :: mid) ++ [w] := by simp
    rw [List.concat_eq_append, hassoc] at h
    obtain ⟨hys, hlast⟩ := List.append_inj' h rfl
    obtain rfl := (List.cons.inj hlast).1
    exact ⟨mid, List.concat_eq_append, hys⟩

/-- A change: the history is passed on in front of it. -/
theorem Runs.change {items : List (Item α β)} {s : State α β} {xs : List (Item α β × Bool)}
    (h : Runs n items s xs) (hn : 0 < n)
    (c : α) : Runs n (items ++ [.change c]) (step n s (.change c))
      (xs ++ ((s.hist.map Item.plain).map (·, true) ++ [(.change c, true)])) := by
  have hout : (step n s (.change c)).out =
      s.out ++ (if s.skipped then [none] else []) ++ (s.hist.map fun r => some (.plain r)) ++
      [some (.change c)] := rfl
  have hfst :
    ((s.hist.map Item.plain).map (·, true)).map Prod.fst =
    (s.hist.map Item.plain : List (Item α β)) := by
    rw [List.map_map]
    exact List.map_id _
  refine ⟨?_, ?_, ?_, ?_, ?_, ?_, Nat.zero_le _, fun hs => Bool.noConfusion hs, ?_, ?_, ?_⟩
  · rw [h.seen, List.map_append, List.map_append, hfst]
    simp [step]
  · rw [List.foldl_append, h.emitted, emit_kept, List.map_map]
    rfl
  · rw [hout]
    exact iff_of_true rfl (by simp)
  · exact iff_of_true rfl ⟨c, by simp⟩
  · refine h.selects.append (fun c' b hc => ?_) fun before r behind hsplit => ?_
    · rcases List.mem_append.1 hc with hc | hc
      · obtain ⟨x, -, hx⟩ := List.mem_map.1 hc
        exact (congrArg Prod.snd hx).symm
      · rw [List.mem_singleton] at hc
        exact congrArg Prod.snd hc
    · -- what is behind an item of the history is history, up to the change
      obtain ⟨mid, rfl, hys⟩ := split_concat hsplit (by simp)
      refine Or.inl ⟨mid.map Prod.fst, c, [], by simp, ?_⟩
      have hlen := congrArg List.length hys
      simp only [List.length_append, List.length_map, List.length_cons] at hlen
      have hcount := List.countP_le_length (p := isPlain) (l := mid.map Prod.fst)
      rw [List.length_map] at hcount
      have hbounded := h.bounded
      omega
  · intro m hm
    rw [hout, List.getLast?_append, List.getLast?_singleton, Option.some_or] at hm
    rw [← Option.some.inj hm]
    simp
  · exact fun _ => ⟨rfl, xs.map Prod.fst ++ s.hist.map .plain, c, [], by simp, by simp [step]⟩
  · intro _
    rw [trailing_change]
    exact ⟨rfl, by simp [step], by simp [step]⟩
  · rw [hout, List.append_assoc s.out]
    refine (h.apart.append fun c' hc => ?_).change (fun m hm hnone => ?_) c
    · rcases List.mem_append.1 hc with hc | hc
      · cases s.skipped <;> simp at hc
      · simp at hc
    · subst hnone
      -- behind a marker stands the history
      cases hhist : s.hist with
      | nil =>
        have hskipped : s.skipped = false := by
          rw [← Bool.not_eq_true]
          intro hs
          have hlen := h.full hs
          rw [hhist, List.length_nil] at hlen
          omega
        rw [hhist, hskipped] at hm
        exact h.last none (by simpa using hm) rfl
      | cons r rs =>
        rw [hhist, ← List.append_assoc, List.getLast?_append] at hm
        cases hrs :
          (List.map (fun r => some (Item.plain r)) (r :: rs) : List
            (Option (Item α β))).getLast? with
        | none => simp at hrs
        | some m =>
          rw [hrs, Option.some_or] at hm
          obtain rfl := Option.some.inj hm
          obtain ⟨r', -, hr'⟩ := List.mem_map.1 (List.mem_of_getLast? hrs)
          cases hr'

/-- A plain item behind a change. -/
theorem Runs.shown {items : List (Item α β)} {s : State α β} {xs : List (Item α β × Bool)}
    (h : Runs n items s xs) (hpending : 0 < s.pending) (r : β) :
    Runs n (items ++ [.plain r]) (step n s (.plain r)) (xs ++ [(.plain r, true)]) := by
  obtain ⟨hhist, b, c, a, hxs, hcount⟩ := h.pending hpending
  have hskipped : s.skipped = false := by
    rw [← Bool.not_eq_true]
    intro hs
    have hlen := h.full hs
    rw [hhist, List.length_nil] at hlen
    omega
  have hstep : step n s (.plain r) = { s with
      out := s.out ++ [some (.plain r)], pending := s.pending - 1, skipped := false } := by
    unfold step
    simp only
    rw [if_pos hpending, hskipped, if_neg (by decide), List.append_nil]
  have hnoted : s.noted = true := h.changed.2 ⟨c, by rw [h.seen, hxs]; simp⟩
  rw [hstep]
  refine ⟨?_, ?_, ?_, ?_, ?_, ?_, h.bounded, fun hs => Bool.noConfusion hs,
    fun hp => ⟨hhist, b, c, a ++ [.plain r], ?_, ?_⟩, ?_, ?_⟩
  · rw [h.seen, hhist]
    simp
  · rw [List.foldl_append, h.emitted, hskipped]
    simp [emit]
  · exact iff_of_true hnoted (by simp)
  · exact iff_of_true hnoted ⟨c, by rw [h.seen, hxs]; simp⟩
  · refine h.selects.append (fun c' b' hc => ?_) fun before r' behind hsplit => ?_
    · rw [List.mem_singleton] at hc
      exact congrArg Prod.snd hc
    · cases before with
      | nil =>
        rw [List.map_nil, List.append_nil, hxs]
        exact Or.inr ⟨b, c, a, rfl, by omega⟩
      | cons x before =>
        have hlen := congrArg List.length hsplit
        simp at hlen
  · intro m hm
    rw [List.getLast?_append, List.getLast?_singleton, Option.some_or] at hm
    rw [← Option.some.inj hm]
    simp
  · rw [List.map_append, hxs]
    simp
  · have hp' : 0 < s.pending - 1 := hp
    show (a ++ [Item.plain r]).countP isPlain + (s.pending - 1) = n
    have hplain : isPlain (Item.plain r : Item α β) = true := rfl
    rw [List.countP_append, List.countP_singleton, if_pos hplain]
    omega
  · intro _
    obtain ⟨hp, hlen, -⟩ := h.tail hnoted
    rw [trailing_plain]
    refine ⟨?_, ?_, ?_⟩
    · show s.pending - 1 = _
      omega
    · show s.hist.length = _
      rw [hhist, List.length_nil]
      omega
    · refine iff_of_false (by simp) (by omega)
  · exact h.apart.append (by simp)

/-- A plain item that may stand in front of a change to come; the oldest one is left out if there
are too many. -/
theorem Runs.kept {items : List (Item α β)} {s : State α β} {xs : List (Item α β × Bool)}
    (h : Runs n items s xs) (hn : 0 < n) (hpending : ¬ 0 < s.pending) (r : β) :
    ∃ xs', Runs n (items ++ [.plain r]) (step n s (.plain r)) xs' := by
  have hchanged : s.noted = true ↔ ∃ c, Item.change c ∈ items ++ [Item.plain r] := by
    rw [h.changed]
    simp
  have hbounded := h.bounded
  by_cases hfull : n < (s.hist ++ [r]).length
  · have hstep :
      step n s (.plain r) = { s with skipped := true, hist := (s.hist ++ [r]).tail } := by
      unfold step
      simp only
      rw [if_neg hpending, if_pos hfull]
    rw [List.length_append, List.length_singleton] at hfull
    obtain ⟨r', rs, hhist⟩ : ∃ r' rs, s.hist = r' :: rs := List.exists_cons_of_ne_nil (by
      intro hnil
      rw [hnil, List.length_nil] at hfull
      omega)
    have htail : (s.hist ++ [r]).tail = rs ++ [r] := by rw [hhist]; rfl
    have hlen : (rs ++ [r]).length = n := by
      rw [hhist, List.length_cons] at hfull hbounded
      rw [List.length_append, List.length_singleton]
      omega
    rw [hstep, htail]
    refine ⟨xs ++ [(.plain r', false)], ?_, ?_, h.noted, hchanged, ?_, h.last, Nat.le_of_eq hlen,
      fun _ => hlen, fun hp => absurd hp hpending, fun hnoted => ?_, h.apart⟩
    · rw [h.seen, hhist]
      simp
    · rw [List.foldl_append, h.emitted]
      rfl
    · refine h.selects.append (fun c b hc => ?_) fun before r'' behind hsplit => ?_
      · rw [List.mem_singleton] at hc
        cases hc
      · cases before with
        | nil => cases hsplit
        | cons x before =>
          have hone := congrArg List.length hsplit
          simp at hone
    · obtain ⟨hp, hmin, -⟩ := h.tail hnoted
      rw [trailing_plain]
      refine ⟨?_, ?_, ?_⟩
      · show s.pending = _
        omega
      · show (rs ++ [r]).length = _
        omega
      · exact iff_of_true rfl (by omega)
  · have hstep : step n s (.plain r) = { s with hist := s.hist ++ [r] } := by
      unfold step
      simp only
      rw [if_neg hpending, if_neg hfull]
    rw [List.length_append, List.length_singleton] at hfull
    have hskipped : ¬ s.skipped = true := by
      intro hs
      have hlen := h.full hs
      omega
    rw [hstep]
    refine ⟨xs, ?_, h.emitted, h.noted, hchanged, h.selects, h.last, ?_,
      fun hs => absurd hs hskipped, fun hp => absurd hp hpending, fun hnoted => ?_, h.apart⟩
    · rw [h.seen, List.append_assoc, List.map_append]
      rfl
    · show (s.hist ++ [r]).length ≤ n
      rw [List.length_append, List.length_singleton]
      omega
    · obtain ⟨hp, hmin, -⟩ := h.tail hnoted
      rw [trailing_plain]
      refine ⟨?_, ?_, ?_⟩
      · show s.pending = _
        omega
      · show (s.hist ++ [r]).length = _
        rw [List.length_append, List.length_singleton]
        omega
      · exact iff_of_false hskipped (by omega)

/-- All of the sequence. -/
theorem runs_all (hn : 0 < n) (items : List (Item α β)) :
    ∃ xs, Runs n items (items.foldl (step n) {}) xs := by
  induction items using List.reverseRecOn with
  | nil => exact ⟨[], runs_start n⟩
  | append_singleton items x ih =>
    obtain ⟨xs, h⟩ := ih
    rw [List.foldl_append]
    cases x with
    | change c => exact ⟨_, h.change hn c⟩
    | plain r =>
      by_cases hpending : 0 < (items.foldl (step n) {}).pending
      · exact ⟨_, h.shown hpending r⟩
      · exact h.kept hn hpending r

/-! ## What the loop passes on -/

theorem emit_left (ys : List (Item α β)) : ∀ s : List (Option (Item α β)) × Bool,
    (ys.map (·, false)).foldl emit s = (s.1, s.2 || !ys.isEmpty) := by
  induction ys with
  | nil =>
    intro s
    simp
  | cons y ys ih =>
    intro s
    rw [List.map_cons, List.foldl_cons, ih]
    simp [emit]

theorem trailing_le (b a : List (Item α β)) (c : α) :
    trailing (b ++ .change c :: a) ≤ a.countP isPlain := by
  induction a using List.reverseRecOn with
  | nil => rw [trailing_change]; exact Nat.zero_le _
  | append_singleton a x ih =>
    have hassoc : b ++ .change c :: (a ++ [x]) = (b ++ .change c :: a) ++ [x] := by simp
    rw [hassoc]
    cases x with
    | change d => rw [trailing_change]; exact Nat.zero_le _
    | plain r =>
      have hplain : isPlain (Item.plain r : Item α β) = true := rfl
      rw [trailing_plain, List.countP_append, List.countP_singleton, if_pos hplain]
      omega

theorem finish_eq {items : List (Item α β)} {s : State α β} {xs : List (Item α β × Bool)}
    (h : Runs n items s xs) (hend : s.noted = true → s.skipped = true ∨ s.hist = []) :
    s.finish = render (xs ++ (s.hist.map Item.plain).map (·, false)) := by
  unfold State.finish render
  rw [List.foldl_append, h.emitted, emit_left]
  simp only
  cases hnoted : s.noted with
  | false =>
    have hout : s.out = [] := by
      by_contra hne
      rw [h.noted.2 hne] at hnoted
      cases hnoted
    simp [hout]
  | true =>
    have hout : s.out.isEmpty = false := by
      rw [List.isEmpty_eq_false_iff]
      exact h.noted.1 hnoted
    rcases hend hnoted with hskipped | hhist
    · rw [hskipped, hout]
      rfl
    · rw [hhist, hout]
      simp

/-- **The loop passes on a selection** unless its last gap has no marker. -/
theorem withContext_iff (hn : 0 < n) (items : List (Item α β)) :
    (∃ xs, xs.map Prod.fst = items ∧ Selects n xs ∧ withContext n items = render xs) ↔
      ((∃ c, Item.change c ∈ items) → ¬ (n < trailing items ∧ trailing items ≤ 2 * n)) := by
  obtain ⟨ys, h⟩ := runs_all hn items
  have hrun : withContext n items = (items.foldl (step n) {}).finish := rfl
  generalize items.foldl (step n) {} = s at h hrun
  constructor
  · rintro ⟨xs, hxs, hselects, hrender⟩ hchange ⟨hmore, hless⟩
    have hnoted := h.changed.2 hchange
    have hskipped : s.skipped = false := by
      rw [← Bool.not_eq_true, (h.tail hnoted).2.2]
      omega
    have hout : s.out = render xs := by
      rw [← hrender, hrun]
      unfold State.finish
      rw [hskipped, Bool.false_and, if_neg (by decide), List.append_nil]
    -- the last item of all is not near enough to a change
    rcases List.eq_nil_or_concat xs with rfl | ⟨before, x, rfl⟩
    · rw [← hxs] at hmore
      exact absurd hmore (by simp [trailing])
    · rw [List.concat_eq_append] at hxs hselects hout
      rw [List.map_append, List.map_cons, List.map_nil] at hxs
      obtain ⟨x, flag⟩ := x
      cases x with
      | change c =>
        rw [← hxs, trailing_change] at hmore
        exact absurd hmore (by simp)
      | plain r =>
        cases flag with
        | true =>
          rcases hselects.near before r [] rfl with ⟨a, c, b, hempty, -⟩
            | ⟨b, c, a, hbefore, hcount⟩
          · cases a <;> cases hempty
          · have hle := trailing_le b a c
            rw [← hxs, trailing_plain, hbefore] at hmore
            omega
        | false =>
          have hlast :
            (before ++ [(Item.plain r, false)]).foldl emit ([], false) =
            ((before.foldl emit ([], false)).1, true) := by
            rw [List.foldl_append]
            rfl
          unfold render at hout
          simp only [hlast, Bool.true_and] at hout
          cases hempty : (before.foldl emit ([], false)).1.isEmpty with
          | true =>
            rw [hempty, List.isEmpty_iff.1 hempty] at hout
            exact h.noted.1 hnoted hout
          | false =>
            rw [hempty] at hout
            exact h.last none (by rw [hout]; simp) rfl
  · intro hend
    refine ⟨_, ?_, ?_, hrun.trans (finish_eq h fun hnoted => ?_)⟩
    · rw [h.seen, List.map_append, List.map_map]
      exact congrArg _ (List.map_id _)
    · refine h.selects.append (fun c b hc => ?_) fun before r behind hsplit => ?_
      · obtain ⟨x, hx, he⟩ := List.mem_map.1 hc
        obtain ⟨r, -, rfl⟩ := List.mem_map.1 hx
        cases he
      · have hmem :
          (Item.plain r, true) ∈ ((s.hist.map Item.plain : List (Item α β)).map (·, false)) := by
          rw [hsplit]
          simp
        obtain ⟨x, -, he⟩ := List.mem_map.1 hmem
        cases he
    · obtain ⟨-, hlen, hskipped⟩ := h.tail hnoted
      have hgap := hend (h.changed.1 hnoted)
      by_cases hlong : 2 * n < trailing items
      · exact Or.inl (hskipped.2 hlong)
      · refine Or.inr (List.length_eq_zero_iff.1 ?_)
        omega

/-! ## A sequence in another order -/

theorem filterMap_withContext_sublist (hn : 0 < n) (items : List (Item α β)) :
    ((withContext n items).filterMap id).Sublist items := by
  obtain ⟨xs, h⟩ := runs_all hn items
  have hout : (items.foldl (step n) {}).out.filterMap id = (xs.filter Prod.snd).map Prod.fst := by
    have hemit := filterMap_emit xs ([], false)
    rwa [h.emitted] at hemit
  unfold withContext State.finish
  rw [List.filterMap_append, filterMap_marker, List.append_nil, hout]
  refine (List.filter_sublist.map _).trans ?_
  have hseen := h.seen
  generalize items.foldl (step n) {} = s at hseen
  rw [hseen]
  exact List.sublist_append_left _ _

theorem apart_withContext (hn : 0 < n) (items : List (Item α β)) : Apart (withContext n items) := by
  obtain ⟨xs, h⟩ := runs_all hn items
  unfold withContext State.finish
  refine h.apart.append fun c hc => ?_
  split at hc
  · simp at hc
  · simp at hc

/-- **A change that comes too early** takes the place of an item that is then missing, without a
marker. -/
theorem withContext_ne_render (hn : 0 < n) {front late rest : List (Item α β)}
    {c : α} {u : Item α β}
    (hlate : (front ++ .change c :: late).Nodup) (hrest : (front ++ u :: rest).Nodup)
    (hc : .change c ∈ rest)
    {xs : List (Item α β × Bool)} (hxs : xs.map Prod.fst = front ++ u :: rest)
    (hchanges : ∀ c b, (Item.change c, b) ∈ xs → b = true) :
    withContext n (front ++ .change c :: late) ≠ render xs := by
  intro heq
  have hkept := filterMap_withContext_sublist hn (front ++ .change c :: late)
  have hapart := apart_withContext hn (front ++ .change c :: late)
  rw [heq] at hapart
  rw [heq, filterMap_render] at hkept
  obtain ⟨mid, behind, rfl⟩ := List.append_of_mem hc
  -- the selection, cut at the two places
  obtain ⟨xf, xr, rfl, hxf, hxr⟩ := List.map_eq_append_iff.1 hxs
  obtain ⟨x, xs', rfl, hx, hxs'⟩ := List.map_eq_cons_iff.1 hxr
  obtain ⟨xm, xb, rfl, hxm, hxb⟩ := List.map_eq_append_iff.1 hxs'
  obtain ⟨y, xs'', rfl, hy, -⟩ := List.map_eq_cons_iff.1 hxb
  obtain ⟨y, flag⟩ := y
  obtain rfl : y = .change c := hy
  obtain rfl : flag = true := hchanges c flag (by simp)
  have hupto :
    ((xf.filter Prod.snd).map Prod.fst ++ ((x :: xm).filter Prod.snd).map Prod.fst).Sublist
    front := by
    refine (List.append_sublist_append_right [Item.change c]).1
      (sublist_upto (List.Sublist.trans ?_ hkept) ?_)
    · have hcut : xf ++ x :: (xm ++ (Item.change c, true) :: xs'') = (xf ++ x :: xm) ++
        (Item.change c, true) :: xs'' := by simp
      have hown : ((Item.change c, true) :: xs'').filter Prod.snd = (Item.change c, true) ::
        xs''.filter Prod.snd := List.filter_cons_of_pos rfl
      rw [hcut, List.filter_append, List.map_append, List.filter_append, List.map_append,
        hown, List.map_cons]
      exact List.Sublist.append_left (List.Sublist.cons_cons _ (List.nil_sublist _)) _
    · exact (List.nodup_cons.1 (List.nodup_append.1 hlate).2.1).1
  -- nothing between the place of `u` and that of `c` has been passed on
  have hleft : ∀ z ∈ x :: xm, z.2 = false := by
    intro z hz
    rw [← Bool.not_eq_true]
    intro hflag
    have hin : z.1 ∈ front :=
      hupto.subset (List.mem_append_right _ (List.mem_map_of_mem (List.mem_filter.2 ⟨hz, hflag⟩)))
    have hlater : z.1 ∈ u :: (mid ++ .change c :: behind) := by
      rcases List.mem_cons.1 hz with rfl | hz
      · rw [hx]
        exact List.mem_cons_self
      · rw [← hxm]
        exact List.mem_cons_of_mem _ (List.mem_append_left _ (List.mem_map_of_mem hz))
    exact (List.nodup_append.1 hrest).2.2 z.1 hin z.1 hlater rfl
  obtain ⟨before, w, hlast⟩ : ∃ before w, x :: xm = before ++ [(w, false)] := by
    rcases List.eq_nil_or_concat (x :: xm) with hnil | ⟨before, w, hw⟩
    · cases hnil
    · rw [List.concat_eq_append] at hw
      exact ⟨before, w.1, by rw [hw, ← hleft w (hw ▸ by simp)]⟩
  obtain ⟨a, b, hgap⟩ := render_gap (xf ++ before) xs'' w (.change c)
  have hassoc : xf ++ x :: (xm ++ (Item.change c, true) :: xs'') =
      (xf ++ before) ++ (w, false) :: (.change c, true) :: xs'' := by
    rw [← List.cons_append, hlast]
    simp
  rw [hassoc, hgap] at hapart
  exact (List.isChain_append_cons_cons.1 hapart).2.1 rfl c rfl

end Hunks

end Coopy.Lib
