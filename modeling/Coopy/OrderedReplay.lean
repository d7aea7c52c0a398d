import Coopy.OrderedReach

/-!
# When an ordered merge replays to the remote

Unit by unit the remote rows come to stand in their order (`Reached`), with one exception: a
move of the first local row is left out while `hadRow` is not set (`LeftOut`).  Behind a
matched row it then stays in front of it.  Behind additions it is where it should be, but when
it needs no change the cursor stays in front of it (`Stale`), and a row that is added or moved
there next comes too early.  Two rows in the wrong order stay so (`Inverted`).

    the replay gives the remote's rows in order  ↔  no row is misplaced         (replay_ordered_iff)
-/

namespace Coopy

open Lib Merger

namespace Comparison

/-! ## The cursor of the merge -/

section
variable {c : Comparison} {n b l : Nat} {cur : Cursor}

theorem next_insert (r : Nat) : c.next cur (OrderMerge.insertUnit r) =
    { lastLocalRow := -1
      bottomLocalRow := if (-1 : Int) ≥ cur.bottomLocalRow then -1 else cur.bottomLocalRow
      lastLocalRowMarked := -1
      hadRow := hadNow cur
      hadForeignRow := foreignNow cur || decide (cur.lastLocalRow < 0)
      lastRowChange :=
        { c.change true false (OrderMerge.insertUnit r) with mode := .insert } } := by
  unfold next
  rw [emitRow_insert]

theorem next_pair {r : Nat} (h : c.rows.fwd l = some r) : ∃ change, c.next cur (pairUnit l r) =
    { lastLocalRow := l
      bottomLocalRow := if (l : Int) ≥ cur.bottomLocalRow then (l : Int) else cur.bottomLocalRow
      lastLocalRowMarked := if movesNow cur l = true ∨
        c.locals.row l ≠ c.remote.row r then (l : Int)
        else cur.lastLocalRowMarked
      hadRow := hadNow cur
      hadForeignRow := foreignNow cur
      lastRowChange := change } := by
  have hval : (movesNow cur l || !(c.change true false (pairUnit l r)).val.isEmpty) = true ↔
      movesNow cur l = true ∨ c.locals.row l ≠ c.remote.row r := by
    rw [Bool.or_eq_true, Bool.not_eq_true', List.isEmpty_eq_false_iff]
    exact or_congr_right (not_congr (val_eq_nil_iff (fwd_lt h).1 (fwd_lt h).2))
  unfold next
  rw [emitRow_pair]
  simp only [hval]
  exact ⟨_, rfl⟩

/-- The cursor after `n` units, when `b` is behind the lowest local row reached. -/
structure Counted (c : Comparison) (n b : Nat) (cur : Cursor) : Prop where
  bound : b ≤ c.locals.height
  bottom : cur.bottomLocalRow = (b : Int) - 1
  low : -1 ≤ cur.lastLocalRow
  had : 0 < n → (hadNow cur || foreignNow cur) = true
  passed : ∀ l r, c.rows.fwd l = some r → r < n → l < b
  lowest : 0 < b → ∃ r < n, c.rows.fwd (b - 1) = some r
  marked : 0 ≤ cur.lastLocalRowMarked → ∃ r < n, c.rows.fwd cur.lastLocalRowMarked.toNat = some r
  -- `hadRow` is set once a row has followed a local row
  late : (∀ i, i + 1 < n → c.rows.bwd i = none) → cur.hadRow = false
  lateNow : (∀ i < n, c.rows.bwd i = none) → hadNow cur = false

theorem counted_start : c.Counted 0 0 {} :=
  ⟨Nat.zero_le _, rfl, Int.le_refl _, fun h => absurd h (Nat.lt_irrefl _), fun _ _ _ h =>
    absurd h (Nat.not_lt_zero _),
    fun h => absurd h (Nat.lt_irrefl _), fun h => absurd h (by decide), fun _ => rfl, fun _ => rfl⟩

theorem Counted.insert (h : c.Counted n b cur) (hb : c.rows.bwd n = none) :
    c.Counted (n + 1) b (c.next cur (OrderMerge.insertUnit n)) := by
  rw [next_insert]
  refine ⟨h.bound, ?_, Int.le_refl _, fun _ => ?_, fun l r hf hr => ?_, fun hpos => ?_,
    fun hm => ?_, fun hi => ?_, fun hi => ?_⟩
  · have := h.bottom
    show (if (-1 : Int) ≥ cur.bottomLocalRow then -1 else cur.bottomLocalRow) = _
    split <;> omega
  · by_cases hl : cur.lastLocalRow < 0
    · simp [foreignNow, hl]
    · have hne : cur.lastLocalRow ≠ -1 := by omega
      simp [hadNow, hne]
  · refine h.passed l r hf ?_
    have hne : r ≠ n := by
      rintro rfl
      rw [(c.rows.fwd_eq_some_iff l r).mp hf] at hb
      cases hb
    omega
  · obtain ⟨r, hr, hf⟩ := h.lowest hpos
    exact ⟨r, by omega, hf⟩
  · exact absurd hm (show ¬(0 : Int) ≤ -1 by decide)
  · exact h.lateNow fun i hin => hi i (by omega)
  · show (if (-1 : Int) ≠ -1 then true else hadNow cur) = false
    rw [if_neg (by decide)]
    exact h.lateNow fun i hin => hi i (by omega)

theorem Counted.pair (h : c.Counted n b cur) (hb : c.rows.bwd n = some l) :
    c.Counted (n + 1) (max b (l + 1)) (c.next cur (pairUnit l n)) := by
  have hf := fwd_of_bwd hb
  have hlt := (fwd_lt hf).1
  obtain ⟨change, hnext⟩ : ∃ change, c.next cur (pairUnit l n) = _ := next_pair hf
  rw [hnext]
  refine ⟨by have := h.bound; omega, ?_, by simp only []; omega, fun _ => ?_, fun k r hk hr => ?_, fun _ => ?_,
    fun hm => ?_, fun hi => ?_, fun hi => ?_⟩
  · have := h.bottom
    show (if (l : Int) ≥ cur.bottomLocalRow then (l : Int) else cur.bottomLocalRow) = _
    split <;> omega
  · have hne : (l : Int) ≠ -1 := by omega
    simp [hadNow, hne]
  · rcases Nat.lt_or_eq_of_le (Nat.le_of_lt_succ hr) with hr | rfl
    · have := h.passed k r hk hr
      omega
    · have : k = l := Option.some.inj (((c.rows.fwd_eq_some_iff k r).mp hk).symm.trans hb)
      omega
  · by_cases hle : b ≤ l
    · exact ⟨n, by omega, by rw [show max b (l + 1) - 1 = l by omega]; exact hf⟩
    · obtain ⟨r, hr, hfb⟩ := h.lowest (by omega)
      exact ⟨r, by omega, by rw [show max b (l + 1) - 1 = b - 1 by omega]; exact hfb⟩
  · simp only [] at hm ⊢
    split
    · exact ⟨n, by omega, hf⟩
    · next hno =>
      rw [if_neg hno] at hm
      obtain ⟨r, hr, hfm⟩ := h.marked hm
      exact ⟨r, by omega, hfm⟩
  · exact h.lateNow fun i hin => hi i (by omega)
  · rw [hi n (by omega)] at hb
    cases hb

/-- A row that is not moved is below all those reached. -/
theorem Counted.inPlace (h : c.Counted n b cur) (hb : c.rows.bwd n = some l)
    (hm : movesNow cur l = false) : b ≤ l := by
  have hm := of_decide_eq_false hm
  by_cases hn : 0 < n
  · have hhad := h.had hn
    rw [Bool.or_eq_true] at hhad
    have hlow : ¬(l : Int) < cur.bottomLocalRow := fun hlt => hm ⟨hhad, Or.inl hlt⟩
    rw [h.bottom] at hlow
    by_cases hpos : 0 < b
    · obtain ⟨r, hr, hf⟩ := h.lowest hpos
      have hne : l ≠ b - 1 := by
        rintro rfl
        have := Option.some.inj (hf.symm.trans (fwd_of_bwd hb))
        omega
      omega
    · omega
  · by_cases hpos : 0 < b
    · obtain ⟨r, hr, -⟩ := h.lowest hpos
      omega
    · omega

/-- Nothing is moved before a unit has come. -/
theorem Counted.pos_of_moves (h : c.Counted n b cur) (hm : movesNow cur l = true)
    (hstart : n = 0 → cur = {}) : 0 < n := by
  rcases Nat.eq_zero_or_pos n with rfl | hn
  · rw [hstart rfl] at hm
    have : movesNow {} l = false := by
      unfold movesNow hadNow foreignNow
      simp
    rw [this] at hm
    cases hm
  · exact hn

/-- The first rows of the sheet have been added, and nothing else has happened. -/
theorem Counted.foreign (h : c.Counted n b cur) (hn : 0 < n) (hh : hadNow cur = false) :
    foreignNow cur = true ∧ cur.lastLocalRow = -1 ∧ cur.hadRow = false := by
  have hlast : cur.lastLocalRow = -1 := by
    by_contra hne
    unfold hadNow at hh
    rw [if_pos hne] at hh
    cases hh
  refine ⟨by simpa [hh] using h.had hn, hlast, ?_⟩
  unfold hadNow at hh
  rwa [if_neg (by simpa using hlast)] at hh

end

/-! ## The cursor and the sheet together -/

/-- After the units up to `m`, with `hadRow` not set and the first local row still to come. -/
structure Early (c : Comparison) (m b : Nat) (cur : Cursor)
    (z : Zipper (List SheetCell)) : Prop where
  inserts : ∀ i < m, c.rows.bwd i = none
  shape :
    (m = 0 ∧ c.rows.bwd 0 ≠ none ∧ hadNow cur = true ∧
      [c.locals.row 0, c.remote.row 0].Sublist z.items) ∨
    (unmarkedNow cur = false ∧ z.before = c.done (m + 1) ∧ (∃ X, z.after = c.locals.row 0 :: X) ∧
      ((c.rows.bwd m = none ∧ b = 0) ∨ 0 < m ∧ ∃ a, c.rows.bwd m = some a ∧ b = a + 1 ∧
        hadNow cur = true))

/-- All is well after `n` units. -/
structure Reached (c : Comparison) (n b : Nat) (cur : Cursor)
    (z : Zipper (List SheetCell)) : Prop where
  counted : c.Counted n b cur
  placed : c.Placed n b z.items
  start : n = 0 → cur = {} ∧ z = Zipper.atEnd c.locals.rows
  synced : 0 < n → unmarkedNow cur = false → c.Synced n b z
  behind : unmarkedNow cur = true → ∃ m, n = m + 1 ∧
    c.locals.row cur.lastLocalRow.toNat = c.remote.row m
  early : ∀ m, n = m + 1 → cur.hadRow = false → c.pending n 0 = true → 0 < c.locals.height →
    c.Early m b cur z

section
variable {c : Comparison} {n b l : Nat} {cur : Cursor} {z : Zipper (List SheetCell)}

theorem local_eq_cons (h : 0 < c.locals.height) :
    c.locals.rows = c.locals.row 0 :: c.rowsFrom 1 := by
  rw [← rowsFrom_zero, rowsFrom_succ h]

theorem todo_zero : c.todo 0 = c.locals.rows := by
  unfold todo
  rw [List.filter_eq_self.mpr fun l _ => pending_iff.mpr fun r _ => Nat.zero_le r, rows_eq_map]

theorem placed_start : c.Placed 0 0 (Zipper.atEnd c.locals.rows).items := by
  refine ⟨Nat.zero_le _, ?_, [], ?_, List.Sublist.refl _⟩
  · unfold Holds
    rw [todo_zero, Zipper.items_atEnd]
    exact List.Perm.refl _
  · rw [rowsFrom_zero, Zipper.items_atEnd]
    rfl

theorem reached_start : c.Reached 0 0 {} (Zipper.atEnd c.locals.rows) :=
  ⟨counted_start, placed_start, fun _ => ⟨rfl, rfl⟩, fun h => absurd h (Nat.lt_irrefl _),
    fun h => absurd h (by decide), fun m h => absurd h (by omega)⟩

/-- The context row, where there is need of one, puts the cursor in step. -/
theorem Reached.lead (h : c.Reached n b cur z) (hn : 0 < n) :
    c.Synced n b (Edit.run (if unmarkedNow cur then [c.seekLast cur] else []) z) := by
  cases hu : unmarkedNow cur with
  | false => exact h.synced hn hu
  | true =>
    obtain ⟨m, rfl, hrow⟩ := h.behind hu
    rw [if_pos rfl, Edit.run_cons, Edit.run_nil]
    unfold seekLast
    rw [hrow]
    exact h.placed.seek

theorem insertLead_start :
    Edit.run (c.insertLead {}) (Zipper.atEnd c.locals.rows) = ⟨[], c.locals.rows⟩ := by
  have hlead : c.insertLead {} = if 0 < c.locals.height then [.top] else [] := by
    unfold insertLead
    rw [if_neg (by decide)]
    simp [foreignNow]
  rw [hlead]
  split
  · rw [Edit.run_cons, Edit.run_nil, Edit.top_apply, Zipper.items_atEnd]
  · next h =>
    have hnil : c.locals.rows = [] := List.length_eq_zero_iff.mp (Nat.eq_zero_of_not_pos h)
    rw [hnil]
    rfl

theorem Counted.insertLead_foreign (h : c.Counted n b cur) (hn : 0 < n)
    (hlast : cur.lastLocalRow = -1) : c.insertLead cur = [] := by
  have hhad : (cur.hadRow || foreignNow cur) = true := by
    have := h.had hn
    unfold hadNow at this
    rwa [if_neg (by simpa using hlast)] at this
  unfold insertLead
  rw [if_neg (by omega), if_neg (by simp [hhad])]

theorem Reached.insertLead (h : c.Reached n b cur z) :
    c.Synced n b (Edit.run (c.insertLead cur) z) := by
  rcases Nat.eq_zero_or_pos n with rfl | hn
  · obtain ⟨rfl, rfl⟩ := h.start rfl
    have hb : b = 0 := by
      by_contra hb
      obtain ⟨r, hr, -⟩ := h.counted.lowest (Nat.pos_of_ne_zero hb)
      omega
    rw [insertLead_start, hb]
    refine ⟨Nat.zero_le _, ?_, List.Sublist.refl _, [], (rowsFrom_zero c).symm⟩
    have := (placed_start (c := c)).holds
    rwa [Zipper.items_atEnd] at this
  · by_cases hl : cur.lastLocalRow ≥ 0
    · have hlead : c.insertLead cur = if unmarkedNow cur then [c.seekLast cur] else [] := if_pos hl
      rw [hlead]
      exact h.lead hn
    · have hlast : cur.lastLocalRow = -1 := by
        have := h.counted.low
        omega
      rw [h.counted.insertLead_foreign hn hlast]
      refine h.synced hn (decide_eq_false ?_)
      rintro ⟨h1, -⟩
      omega

/-- Only additions so far. -/
theorem Reached.insertLead_early (h : c.Reached n b cur z) (hh : hadNow cur = false)
    (hp : c.pending n 0 = true)
    (hpos : 0 < c.locals.height) : (∀ i < n, c.rows.bwd i = none) ∧ b = 0 ∧
      ∃ X, Edit.run (c.insertLead cur) z = ⟨c.done n, c.locals.row 0 :: X⟩ := by
  rcases Nat.eq_zero_or_pos n with rfl | hn
  · obtain ⟨rfl, rfl⟩ := h.start rfl
    refine ⟨fun i hi => absurd hi (Nat.not_lt_zero i), ?_, c.rowsFrom 1, ?_⟩
    · by_contra hb
      obtain ⟨r, hr, -⟩ := h.counted.lowest (Nat.pos_of_ne_zero hb)
      omega
    · rw [insertLead_start, local_eq_cons hpos]
      rfl
  · obtain ⟨-, hlast, hhad⟩ := h.counted.foreign hn hh
    obtain ⟨m, rfl⟩ : ∃ m, n = m + 1 := ⟨n - 1, by omega⟩
    have he := h.early m rfl hhad hp hpos
    rw [h.counted.insertLead_foreign hn hlast]
    rcases he.shape with ⟨-, -, hnow, -⟩ | ⟨-, hbefore, ⟨X, hX⟩, ⟨hb, hb0⟩ | ⟨-, a, -, -, hnow⟩⟩
    · rw [hh] at hnow
      cases hnow
    · refine ⟨fun i hi => ?_, hb0, X, ?_⟩
      · rcases Nat.lt_or_eq_of_le (Nat.le_of_lt_succ hi) with hi | rfl
        · exact he.inserts i hi
        · exact hb
      · rw [Edit.run_nil, ← hbefore, ← hX]
    · rw [hh] at hnow
      cases hnow

theorem pending_succ (h : c.pending (n + 1) l = true) : c.pending n l = true :=
  pending_iff.mpr fun r hr => Nat.le_of_succ_le (pending_iff.mp h r hr)

/-- **An addition.** -/
theorem Reached.insert (h : c.Reached n b cur z) (hn : n < c.remote.height)
    (hb : c.rows.bwd n = none) : c.Reached (n + 1) b (c.next cur (OrderMerge.insertUnit n))
      (Edit.run (c.stepEdits cur (OrderMerge.insertUnit n)) z) := by
  have hs := h.insertLead.insert hn hb
  have hlast : (c.next cur (OrderMerge.insertUnit n)).lastLocalRow = -1 := by rw [next_insert]
  have hunmarked : unmarkedNow (c.next cur (OrderMerge.insertUnit n)) = false := by
    refine decide_eq_false ?_
    rw [hlast]
    exact fun h => absurd h.1 (by decide)
  have hrun : Edit.run (c.stepEdits cur (OrderMerge.insertUnit n)) z =
      (Edit.insert (c.remote.row n)).apply (Edit.run (c.insertLead cur) z) := by
    rw [stepEdits_insert, Edit.run_append, Edit.run_cons, Edit.run_nil]
  rw [hrun]
  refine ⟨h.counted.insert hb, hs.placed, fun h0 => absurd h0 (Nat.succ_ne_zero n), fun _ _ => hs,
    fun hu => ?_, fun m hm hhad hp hpos => ?_⟩
  · rw [hunmarked] at hu
    cases hu
  · obtain rfl : n = m := Nat.succ.inj hm
    have hnow : hadNow cur = false := by
      rw [next_insert] at hhad
      exact hhad
    obtain ⟨hins, hb0, X, hX⟩ := h.insertLead_early hnow (pending_succ hp) hpos
    refine ⟨hins, Or.inr ⟨hunmarked, ?_, ⟨X, ?_⟩, Or.inl ⟨hb, hb0⟩⟩⟩
    · rw [hX, Edit.insert_apply, done_succ]
    · rw [hX, Edit.insert_apply]

/-- **A row in its place**, updated or left alone. -/
theorem reached_inPlace (hc : c.Counted n b cur) (hp : c.Placed n b z.items)
    (hb : c.rows.bwd n = some l) (hm : movesNow cur l = false) :
    c.Reached (n + 1) (l + 1) (c.next cur (pairUnit l n))
    (Edit.run (c.stepEdits cur (pairUnit l n)) z) := by
  have hle := hc.inPlace hb hm
  have hcount := hc.pair hb
  rw [show max b (l + 1) = l + 1 by omega] at hcount
  obtain ⟨pre, hs, hupd, hitems, hpre⟩ := hp.inPlace hb hle
  have hedits : c.stepEdits cur (pairUnit l n) = if c.locals.row l = c.remote.row n then []
      else [.update (isRow (c.locals.row l)) fun _ => c.remote.row n] := by
    rw [stepEdits_pair, hm]
    rfl
  -- either way the rows come out the same
  have hrun : (Edit.run (c.stepEdits cur (pairUnit l n)) z).items = pre ++ [c.remote.row n] ++
    c.rowsFrom (l + 1) := by
    rw [hedits]
    split
    · next heq => rw [Edit.run_nil, hitems, heq]
    · rw [Edit.run_cons, Edit.run_nil, hupd]
      rfl
  obtain ⟨change, hnext⟩ : ∃ change, c.next cur (pairUnit l n) = _ := next_pair (fwd_of_bwd hb)
  have hunmarked :
    unmarkedNow (c.next cur (pairUnit l n)) = decide (c.locals.row l = c.remote.row n) := by
    unfold unmarkedNow
    rw [decide_eq_decide, hnext, hm]
    simp only [Bool.false_eq_true, false_or]
    constructor
    · rintro ⟨-, hne⟩
      by_contra heq
      rw [if_pos heq] at hne
      exact hne rfl
    · intro heq
      refine ⟨by omega, ?_⟩
      rw [if_neg (by simpa using heq)]
      intro hmark
      obtain ⟨r, hr, hf⟩ := hc.marked (by omega)
      rw [hmark, Int.toNat_natCast, fwd_of_bwd hb] at hf
      have := Option.some.inj hf
      omega
  refine ⟨hcount, by rw [hrun]; exact hs.placed, fun h0 => absurd h0 (Nat.succ_ne_zero n),
    fun _ hu => ?_, fun hu => ?_, fun m hmn hhad hpend hpos => ?_⟩
  · rw [hunmarked] at hu
    rw [hedits, if_neg (of_decide_eq_false hu), Edit.run_cons, Edit.run_nil, hupd]
    exact hs
  · rw [hunmarked] at hu
    refine ⟨n, rfl, ?_⟩
    rw [hnext]
    exact of_decide_eq_true hu
  · obtain rfl : n = m := Nat.succ.inj hmn
    have hnow : hadNow cur = false := by
      rw [hnext] at hhad
      exact hhad
    have hl0 : l ≠ 0 := by
      rintro rfl
      have := pending_iff.mp hpend n (fwd_of_bwd hb)
      omega
    rcases Nat.eq_zero_or_pos n with rfl | hn
    · -- the first remote row has the place of a later local row
      refine ⟨fun i hi => absurd hi (Nat.not_lt_zero i), Or.inl ⟨rfl, by rw [hb]; simp, ?_, ?_⟩⟩
      · rw [hnext]
        unfold hadNow
        rw [if_pos (by simp only []; omega)]
      · rw [hrun]
        have hb0 : b = 0 := by
          by_contra hb0
          obtain ⟨r, hr, -⟩ := hc.lowest (Nat.pos_of_ne_zero hb0)
          omega
        have hmem := hpre 0 (by omega) (by omega)
        rw [List.append_assoc]
        exact (List.singleton_sublist.mpr hmem).append (List.singleton_sublist.mpr (by simp))
    · have hforeign := (hc.foreign hn hnow).1
      have : movesNow cur l = true := decide_eq_true ⟨Or.inr hforeign, Or.inr hforeign⟩
      rw [hm] at this
      cases this

/-- A row that moves has its partner at the cursor afterwards. -/
theorem Reached.moveSynced (h : c.Reached n b cur z) (hb : c.rows.bwd n = some l) (hn : 0 < n) :
    c.Synced (n + 1) (max b (l + 1))
    ((Edit.move (isRow (c.locals.row l)) fun _ => c.remote.row n).apply
      (Edit.run (if unmarkedNow cur then [c.seekLast cur] else []) z)) := by
  have hbound : max b (l + 1) ≤ c.locals.height := by
    have := h.counted.bound
    have := (fwd_lt (fwd_of_bwd hb)).1
    omega
  exact ((h.lead hn).mono (Nat.le_max_left _ _) hbound).move hb (by omega)

theorem unmarked_of_moves (hb : c.rows.bwd n = some l) (hm : movesNow cur l = true) :
    unmarkedNow (c.next cur (pairUnit l n)) = false := by
  obtain ⟨change, hnext⟩ : ∃ change, c.next cur (pairUnit l n) = _ := next_pair (fwd_of_bwd hb)
  refine decide_eq_false ?_
  rw [hnext]
  rintro ⟨-, hne⟩
  exact hne (if_pos (Or.inl hm))

/-- The move of a row to a cursor in front of all local rows. -/
theorem move_front {x y : List SheetCell} {A X : List (List SheetCell)} (hx : x ∉ A)
    (hxy : x ≠ y) (hX : x ∈ X) (w : List SheetCell) :
    ∃ X', (Edit.move (isRow x) fun _ => w).apply ⟨A, y :: X⟩ = ⟨A ++ [w], y :: X'⟩ := by
  obtain ⟨a, b, hc, -⟩ := cut_isRow hX
  have hA : cut (isRow x) A = none := cut_eq_none_iff.mpr fun v hv =>
    decide_eq_false fun heq => hx (heq ▸ hv)
  have hcut : cut (isRow x) (y :: X) = some (y :: a, x, b) := by
    unfold cut
    rw [if_neg (by simpa [isRow] using Ne.symm hxy), hc]
    rfl
  exact ⟨a ++ b, Edit.move_forth (z := ⟨A, y :: X⟩) _ hA hcut⟩

/-- **A move.** -/
theorem Reached.move (h : c.Reached n b cur z) (hb : c.rows.bwd n = some l)
    (hm : movesNow cur l = true) (hmoved : (cur.hadRow || decide (l ≠ 0)) = true) :
    c.Reached (n + 1) (max b (l + 1)) (c.next cur (pairUnit l n))
    (Edit.run (c.stepEdits cur (pairUnit l n)) z) := by
  have hf := fwd_of_bwd hb
  have hn := h.counted.pos_of_moves hm fun h0 => (h.start h0).1
  have hs := h.moveSynced hb hn
  have hunmarked := unmarked_of_moves hb hm
  have hrun : Edit.run (c.stepEdits cur (pairUnit l n)) z =
      (Edit.move (isRow (c.locals.row l)) fun _ => c.remote.row n).apply
        (Edit.run (if unmarkedNow cur then [c.seekLast cur] else []) z) := by
    rw [stepEdits_pair, hm, hmoved, Edit.run_append, Bool.true_and, Bool.true_and, if_pos rfl]
    rfl
  rw [hrun]
  refine ⟨h.counted.pair hb, hs.placed, fun h0 => absurd h0 (Nat.succ_ne_zero n), fun _ _ => hs,
    fun hu => ?_, fun m hmn hhad hp hpos => ?_⟩
  · rw [hunmarked] at hu
    cases hu
  · obtain rfl : n = m := Nat.succ.inj hmn
    obtain ⟨change, hnext⟩ : ∃ change, c.next cur (pairUnit l n) = _ := next_pair hf
    have hnow : hadNow cur = false := by
      rw [hnext] at hhad
      exact hhad
    have hl0 : l ≠ 0 := by
      rintro rfl
      have := pending_iff.mp hp n hf
      omega
    -- only additions before, so that the first local row stands behind the cursor
    obtain ⟨hins, hb0, X, hX⟩ := h.insertLead_early hnow (pending_succ hp) hpos
    have hlast := (h.counted.foreign hn hnow).2.1
    rw [h.counted.insertLead_foreign hn hlast, Edit.run_nil] at hX
    have hlead : unmarkedNow cur = false := decide_eq_false fun hu => by omega
    have hmem : c.locals.row l ∈ X := by
      have hin := h.placed.holds.mem hb
      rw [hX, Zipper.items_mk, List.mem_append, List.mem_cons] at hin
      rcases hin with hin | hin | hin
      · exact absurd hin (pending_not_done (fwd_lt hf).1 h.placed.bound (pending_self hb))
      · exact absurd (local_inj (fwd_lt hf).1 hpos hin) hl0
      · exact hin
    obtain ⟨X', hX'⟩ := move_front (pending_not_done (fwd_lt hf).1 h.placed.bound (pending_self hb))
      (fun heq => hl0 (local_inj (fwd_lt hf).1 hpos heq)) hmem (c.remote.row n)
    rw [hlead, if_neg (by decide), Edit.run_nil, hX, hX']
    refine ⟨hins,
      Or.inr ⟨hunmarked, (done_succ c n).symm, ⟨X', rfl⟩, Or.inr ⟨hn, l, hb, by omega, ?_⟩⟩⟩
    rw [hnext]
    unfold hadNow
    rw [if_pos (by simp only []; omega)]

/-! ## The move that is left out -/

/-- Unit `k + 1` is the first local row, and before unit `k` there are only additions. -/
structure LeftOut (c : Comparison) (k : Nat) : Prop where
  first : c.rows.bwd (k + 1) = some 0
  inserts : ∀ i < k, c.rows.bwd i = none

/-- A cursor left in front of the row at hand matters to the next row: it is added, or moved. -/
def Strays (c : Comparison) (k : Nat) : Prop :=
  k + 2 < c.remote.height ∧
    (c.rows.bwd (k + 2) = none ∨ ∃ a b, c.rows.bwd k = some a ∧ c.rows.bwd (k + 2) = some b ∧ b < a)

/-- A move that is left out puts a row in the wrong place: at once, or by the next row. -/
def Misplaced (c : Comparison) : Prop :=
  ∃ k, c.LeftOut k ∧
  ((k = 0 ∧ c.rows.bwd 0 ≠ none) ∨ (c.locals.row 0 = c.remote.row (k + 1) ∧ c.Strays k))

/-- The remote row `j` stands before an earlier one. -/
def Inverted (c : Comparison) (n : Nat) (z : Zipper (List SheetCell)) : Prop :=
  ∃ i j, i < j ∧ j < n ∧ n ≤ c.remote.height ∧ [c.remote.row j, c.remote.row i].Sublist z.items

/-- The cursor stands in front of the row at hand, not behind it. -/
structure Stale (c : Comparison) (k b : Nat) (cur : Cursor)
    (z : Zipper (List SheetCell)) : Prop where
  sheet : ∃ X, z = ⟨c.done (k + 1), c.remote.row (k + 1) :: X⟩ ∧
    c.Reached (k + 2) b cur ⟨c.done (k + 2), X⟩
  last : cur.lastLocalRow = 0
  marked : unmarkedNow cur = false
  lowest : (c.rows.bwd k = none ∧ b = 1) ∨ ∃ a, c.rows.bwd k = some a ∧ b = a + 1

/-- Where the merge leaves a move out. -/
theorem Reached.leftOut_iff {k : Nat} (h : c.Reached (k + 1) b cur z)
    (hb : c.rows.bwd (k + 1) = some 0) :
    (movesNow cur 0 = true ∧ cur.hadRow = false) ↔ c.LeftOut k := by
  have hpos := (fwd_lt (fwd_of_bwd hb)).1
  constructor
  · rintro ⟨-, hhad⟩
    exact ⟨hb, (h.early k rfl hhad (pending_self hb) hpos).inserts⟩
  · intro ho
    refine ⟨?_, h.counted.late fun i hi => ho.inserts i (by omega)⟩
    cases hk : c.rows.bwd k with
    | none =>
      have hins : ∀ i < k + 1, c.rows.bwd i = none := by
        intro i hi
        rcases Nat.lt_or_eq_of_le (Nat.le_of_lt_succ hi) with hi | rfl
        · exact ho.inserts i hi
        · exact hk
      have hforeign := (h.counted.foreign (Nat.succ_pos k) (h.counted.lateNow hins)).1
      exact decide_eq_true ⟨Or.inr hforeign, Or.inr hforeign⟩
    | some a =>
      have ha0 : a ≠ 0 := by
        rintro rfl
        have := Option.some.inj ((fwd_of_bwd hk).symm.trans (fwd_of_bwd hb))
        omega
      have hab := h.counted.passed a k (fwd_of_bwd hk) (by omega)
      have hhad := h.counted.had (Nat.succ_pos k)
      rw [Bool.or_eq_true] at hhad
      refine decide_eq_true ⟨hhad, Or.inl ?_⟩
      rw [h.counted.bottom]
      omega

theorem stepEdits_leftOut {k : Nat} (hm : movesNow cur 0 = true) (hhad : cur.hadRow = false) :
    c.stepEdits cur (pairUnit 0 k) = (if unmarkedNow cur then [c.seekLast cur] else []) ++
      if c.locals.row 0 = c.remote.row k then []
      else [.update (isRow (c.locals.row 0)) fun _ => c.remote.row k] := by
  rw [stepEdits_pair, hm, hhad, Bool.true_and]
  rfl

/-- **Behind a matched row** the first local row stays in front of it. -/
theorem Reached.leftOut_inverted (h : c.Reached 1 b cur z) (ho : c.LeftOut 0)
    (hb0 : c.rows.bwd 0 ≠ none) : c.Inverted 2 (Edit.run (c.stepEdits cur (pairUnit 0 1)) z) := by
  have hf := fwd_of_bwd ho.first
  obtain ⟨hm, hhad⟩ := (h.leftOut_iff ho.first).mpr ho
  have hsub : [c.locals.row 0, c.remote.row 0].Sublist z.items := by
    rcases (h.early 0 rfl hhad (pending_self ho.first) (fwd_lt hf).1).shape with
      ⟨-, -, -, hsub⟩ | ⟨-, -, -, ⟨hnone, -⟩ | ⟨hlt, -⟩⟩
    · exact hsub
    · exact absurd hnone hb0
    · exact absurd hlt (Nat.lt_irrefl _)
  refine ⟨0, 1, Nat.zero_lt_one, Nat.one_lt_two, (fwd_lt hf).2, ?_⟩
  rw [stepEdits_leftOut hm hhad, Edit.run_append]
  have hlead : (Edit.run (if unmarkedNow cur then [c.seekLast cur] else []) z).items = z.items := by
    split
    · exact Edit.items_seek _ _
    · rfl
  rw [← hlead] at hsub
  split
  · next heq =>
    rw [← heq]
    exact hsub
  · obtain ⟨a, b, hc, heq⟩ := cut_isRow (hsub.subset List.mem_cons_self)
    rw [Edit.run_cons, Edit.run_nil, Edit.update_found _ hc, Zipper.items_mk, List.append_assoc]
    rw [heq] at hsub
    refine List.Sublist.trans ?_ (List.sublist_append_right _ _)
    refine List.Sublist.cons_cons _ (List.singleton_sublist.mpr ?_)
    have hnot : c.locals.row 0 ∉ a := fun hin => by
      have := (cut_eq_some_iff.mp hc).2.2 _ hin
      rw [isRow_self] at this
      cases this
    exact mem_of_pair_sublist hsub hnot

/-- **Behind an addition, or a row that was moved there**, the cursor stands at the first local
row. -/
theorem Reached.leftOut {k : Nat} (h : c.Reached (k + 1) b cur z) (ho : c.LeftOut k)
    (hfirst : ¬(k = 0 ∧ c.rows.bwd 0 ≠ none)) : ∃ X, z = ⟨c.done (k + 1), c.locals.row 0 :: X⟩ ∧
      unmarkedNow cur = false ∧
      ((c.rows.bwd k = none ∧ b = 0) ∨ ∃ a, c.rows.bwd k = some a ∧ b = a + 1) ∧
      c.Reached (k + 2) (max b 1) (c.next cur (pairUnit 0 (k + 1))) ⟨c.done (k + 2), X⟩ := by
  have hf := fwd_of_bwd ho.first
  obtain ⟨hm, hhad⟩ := (h.leftOut_iff ho.first).mpr ho
  rcases (h.early k rfl hhad (pending_self ho.first) (fwd_lt hf).1).shape with
    ⟨hk, hb0, -⟩ | ⟨hu, hbefore, ⟨X, hX⟩, hlow⟩
  · exact absurd ⟨hk, hb0⟩ hfirst
  · have hz : z = ⟨c.done (k + 1), c.locals.row 0 :: X⟩ := by rw [← hbefore, ← hX]
    have hunmarked := unmarked_of_moves ho.first hm
    have hs := h.moveSynced ho.first (Nat.succ_pos k)
    -- the move, had it been made
    have hmove : (Edit.move (isRow (c.locals.row 0)) fun _ => c.remote.row (k + 1)).apply
        (Edit.run (if unmarkedNow cur then [c.seekLast cur] else []) z) = ⟨c.done (k + 2), X⟩ := by
      rw [hu, if_neg (by decide), Edit.run_nil, hz, done_succ c (k + 1)]
      have hnot := pending_not_done (fwd_lt hf).1 h.placed.bound (pending_self ho.first)
      have hnone : cut (isRow (c.locals.row 0)) (c.done (k + 1)) = none :=
        cut_eq_none_iff.mpr fun v hv => decide_eq_false fun heq => hnot (heq ▸ hv)
      have hcut :
        cut (isRow (c.locals.row 0)) (c.locals.row 0 :: X) = some ([], c.locals.row 0, X) :=
        if_pos (isRow_self _)
      exact Edit.move_forth (z := ⟨c.done (k + 1), c.locals.row 0 :: X⟩) _ hnone hcut
    rw [hmove] at hs
    refine ⟨X, hz, hu, hlow.imp_right fun ⟨_, a, h1, h2, _⟩ => ⟨a, h1, h2⟩,
      h.counted.pair ho.first, hs.placed,
      fun h0 => absurd h0 (Nat.succ_ne_zero _), fun _ _ => hs, fun hu' => ?_,
        fun m hmn _ hp _ => ?_⟩
    · rw [hunmarked] at hu'
      cases hu'
    · have := pending_iff.mp hp _ hf
      omega

/-- A changed row is updated where it stands, as if it had been moved. -/
theorem Reached.leftOut_updated {k : Nat} (h : c.Reached (k + 1) b cur z) (ho : c.LeftOut k)
    (hfirst : ¬(k = 0 ∧ c.rows.bwd 0 ≠ none)) (hne : c.locals.row 0 ≠ c.remote.row (k + 1)) :
    c.Reached (k + 2) (max b 1) (c.next cur (pairUnit 0 (k + 1)))
      (Edit.run (c.stepEdits cur (pairUnit 0 (k + 1))) z) := by
  have hf := fwd_of_bwd ho.first
  obtain ⟨hm, hhad⟩ := (h.leftOut_iff ho.first).mpr ho
  obtain ⟨X, rfl, hu, -, hr⟩ := h.leftOut ho hfirst
  have hnot := pending_not_done (fwd_lt hf).1 h.placed.bound (pending_self ho.first)
  have hcut : cut (isRow (c.locals.row 0)) (Zipper.items ⟨c.done (k + 1), c.locals.row 0 :: X⟩) =
      some (c.done (k + 1), c.locals.row 0, X) := by
    refine cut_append (fun v hv => decide_eq_false ?_) (isRow_self _)
    rintro rfl
    exact hnot hv
  rw [stepEdits_leftOut hm hhad, hu, if_neg (by decide), if_neg hne, List.nil_append, Edit.run_cons,
    Edit.run_nil, Edit.update_found _ hcut, ← done_succ]
  exact hr

/-- An unchanged row leaves the cursor in front of it. -/
theorem Reached.leftOut_stale {k : Nat} (h : c.Reached (k + 1) b cur z) (ho : c.LeftOut k)
    (hfirst : ¬(k = 0 ∧ c.rows.bwd 0 ≠ none)) (heq : c.locals.row 0 = c.remote.row (k + 1)) :
    c.Stale k (max b 1) (c.next cur (pairUnit 0 (k + 1)))
    (Edit.run (c.stepEdits cur (pairUnit 0 (k + 1))) z) := by
  obtain ⟨hm, hhad⟩ := (h.leftOut_iff ho.first).mpr ho
  obtain ⟨X, rfl, hu, hlow, hr⟩ := h.leftOut ho hfirst
  obtain ⟨change, hnext⟩ : ∃ change, c.next cur (pairUnit 0 (k + 1)) = _ :=
    next_pair (fwd_of_bwd ho.first)
  refine ⟨⟨X, ?_, hr⟩, by rw [hnext]; rfl, unmarked_of_moves ho.first hm, ?_⟩
  · rw [stepEdits_leftOut hm hhad, hu, if_neg (by decide), if_pos heq, List.nil_append,
      Edit.run_nil, heq]
  · rcases hlow with ⟨h1, h2⟩ | ⟨a, h1, h2⟩
    · exact Or.inl ⟨h1, by omega⟩
    · exact Or.inr ⟨a, h1, by omega⟩

/-! ## The cursor in front of the row at hand -/

section
variable {k : Nat}

theorem Stale.nows (h : c.Stale k b cur z) : hadNow cur = true ∧ foreignNow cur = false := by
  unfold hadNow foreignNow
  rw [h.last]
  exact ⟨rfl, rfl⟩

theorem Stale.moves_iff (h : c.Stale k b cur z) :
    movesNow cur l = true ↔ ∃ a, c.rows.bwd k = some a ∧ l < a := by
  obtain ⟨X, -, hr⟩ := h.sheet
  have hbottom := hr.counted.bottom
  unfold movesNow
  rw [decide_eq_true_iff, h.nows.1, h.nows.2, hbottom]
  simp only [true_and, Bool.false_eq_true, or_false]
  rcases h.lowest with ⟨hnone, rfl⟩ | ⟨a, ha, rfl⟩
  · rw [hnone]
    simp
  · rw [ha]
    simp only [Option.some.injEq, exists_eq_left']
    omega

/-- The row that is added, or moved, comes to stand in front of it. -/
theorem inverted_before {A X : List (List SheetCell)} (hk : k + 2 < c.remote.height) :
    c.Inverted (k + 3) ⟨A ++ [c.remote.row (k + 2)], c.remote.row (k + 1) :: X⟩ := by
  refine ⟨k + 1, k + 2, by omega, by omega, hk, ?_⟩
  rw [Zipper.items_mk, List.append_assoc]
  refine List.Sublist.trans ?_ (List.sublist_append_right _ _)
  exact List.Sublist.cons_cons _ (List.Sublist.cons_cons _ (List.nil_sublist _))

theorem Stale.insert (h : c.Stale k b cur z) (hk : k + 2 < c.remote.height) :
    c.Inverted (k + 3) (Edit.run (c.stepEdits cur (OrderMerge.insertUnit (k + 2))) z) := by
  obtain ⟨X, rfl, -⟩ := h.sheet
  have hlead : c.insertLead cur = [] := by
    unfold insertLead
    rw [if_pos (Int.le_of_eq h.last.symm), h.marked]
    rfl
  rw [stepEdits_insert, hlead]
  exact inverted_before hk

theorem Stale.move (h : c.Stale k b cur z) (hb : c.rows.bwd (k + 2) = some l) (hl : l ≠ 0)
    (hm : movesNow cur l = true) :
    c.Inverted (k + 3) (Edit.run (c.stepEdits cur (pairUnit l (k + 2))) z) := by
  obtain ⟨X, rfl, hr⟩ := h.sheet
  have hf := fwd_of_bwd hb
  have hnot := pending_not_done (fwd_lt hf).1 hr.placed.bound (pending_self hb)
  rw [done_succ, List.mem_append, List.mem_singleton, not_or] at hnot
  have hmem : c.locals.row l ∈ X := by
    have hin := hr.placed.holds.mem hb
    rw [done_succ, Zipper.items_mk, List.mem_append, List.mem_append, List.mem_singleton] at hin
    exact hin.resolve_left (not_or.mpr hnot)
  obtain ⟨X', hX'⟩ := move_front hnot.1 hnot.2 hmem (c.remote.row (k + 2))
  rw [stepEdits_pair, hm, h.marked, Bool.true_and, Bool.true_and, decide_eq_true hl, Bool.or_true,
    if_pos rfl, if_neg (by decide), List.nil_append, Edit.run_cons, Edit.run_nil, hX']
  exact inverted_before (fwd_lt hf).2

/-- The rows themselves are as they should be. -/
theorem Stale.placed (h : c.Stale k b cur z) : c.Placed (k + 2) b z.items := by
  obtain ⟨X, rfl, hr⟩ := h.sheet
  have hp := hr.placed
  rw [done_succ, Zipper.items_mk, List.append_assoc] at hp
  exact hp

theorem Stale.inPlace (h : c.Stale k b cur z) (hb : c.rows.bwd (k + 2) = some l)
    (hm : movesNow cur l = false) : c.Reached (k + 3) (l + 1) (c.next cur (pairUnit l (k + 2)))
      (Edit.run (c.stepEdits cur (pairUnit l (k + 2))) z) := by
  obtain ⟨X, -, hr⟩ := h.sheet
  exact reached_inPlace hr.counted h.placed hb hm

end

/-! ## A row in the wrong place stays there -/

theorem stepEdits_spares {u : MatchUnit} (hu : c.IsUnit u) {xs : List (List SheetCell)}
    (hxs : ∀ l : Nat, u.localUnit = l → c.locals.row l ∉ xs) :
    ∀ e ∈ c.stepEdits cur u, e.Spares xs := by
  have hseek : ∀ (p : Bool), ∀ e ∈ (if p then [c.seekLast cur] else []), e.Spares xs := by
    intro p e he
    cases p with
    | false => cases he
    | true =>
      rw [List.mem_singleton.mp he]
      trivial
  have hlooks : ∀ l : Nat, u.localUnit = l → ∀ x ∈ xs, isRow (c.locals.row l) x = false := by
    intro l hl x hx
    refine decide_eq_false ?_
    rintro rfl
    exact hxs l hl hx
  intro e he
  cases hu with
  | @insert r hr hb =>
    rw [stepEdits_insert] at he
    rcases List.mem_append.mp he with he | he
    · unfold insertLead at he
      split at he
      · exact hseek _ e he
      · split at he
        · rw [List.mem_singleton.mp he]
          trivial
        · cases he
    · rw [List.mem_singleton.mp he]
      trivial
  | @pair l r hf =>
    rw [stepEdits_pair] at he
    rcases List.mem_append.mp he with he | he
    · exact hseek _ e he
    · split at he
      · rw [List.mem_singleton.mp he]
        exact hlooks l rfl
      · split at he
        · cases he
        · rw [List.mem_singleton.mp he]
          exact hlooks l rfl
  | @delete l hl hf =>
    rw [stepEdits_delete, List.mem_singleton] at he
    rw [he]
    exact hlooks l rfl

/-- A unit looks for no remote row that came before it. -/
theorem Inverted.step (h : c.Inverted n z) {u : MatchUnit} (hu : c.IsUnit u)
    (hlate : ∀ l : Nat, u.localUnit = l → c.pending n l = true) {n' : Nat} (hn : n ≤ n')
    (hn' : n' ≤ c.remote.height) : c.Inverted n' (Edit.run (c.stepEdits cur u) z) := by
  obtain ⟨i, j, hij, hjn, hbound, hsub⟩ := h
  refine ⟨i, j,
    hij, by omega, hn', Edit.Spares.run _ (stepEdits_spares hu fun l hl hmem => ?_) hsub⟩
  refine pending_not_done (local_lt hu hl) hbound (hlate l hl) ?_
  simp only [List.mem_cons, List.not_mem_nil, or_false] at hmem
  rcases hmem with heq | heq
  · exact List.mem_map.mpr ⟨j, List.mem_range.mpr hjn, heq.symm⟩
  · exact List.mem_map.mpr ⟨i, List.mem_range.mpr (by omega), heq.symm⟩

/-! ## Unit by unit -/

/-- The remote's units up to `n`. -/
def along (c : Comparison) (n : Nat) : Cursor × Zipper (List SheetCell) :=
  ((List.range n).map (OrderMerge.remoteUnitAt c.rows)).foldl c.unitStep
  ({}, Zipper.atEnd c.locals.rows)

theorem along_succ (c : Comparison) (n : Nat) :
    c.along (n + 1) = c.unitStep (c.along n) (OrderMerge.remoteUnitAt c.rows n) := by
  unfold along
  rw [List.range_succ, List.map_append, List.foldl_append]
  rfl

/-- How things stand after `n` units. -/
def Phase (c : Comparison) (n : Nat) (s : Cursor × Zipper (List SheetCell)) : Prop :=
  (∃ b, c.Reached n b s.1 s.2) ∨
    (∃ k b, n = k + 2 ∧ c.LeftOut k ∧ c.locals.row 0 = c.remote.row (k + 1) ∧ c.Stale k b s.1 s.2) ∨
    (c.Inverted n s.2 ∧ c.Misplaced)

theorem Inverted.remote (h : c.Inverted n z) (hn : n < c.remote.height) :
    c.Inverted (n + 1) (Edit.run (c.stepEdits cur (OrderMerge.remoteUnitAt c.rows n)) z) := by
  have hmem : OrderMerge.remoteUnitAt c.rows n ∈ OrderMerge.remoteUnits c.rows :=
    List.mem_map.mpr ⟨n, List.mem_range.mpr hn, rfl⟩
  refine h.step (isUnit_remote hmem).1 (fun l hl => ?_) (Nat.le_succ n) hn
  unfold OrderMerge.remoteUnitAt at hl
  cases hb : c.rows.bwd n with
  | none =>
    rw [hb] at hl
    have : (-1 : Int) = l := hl
    omega
  | some k =>
    rw [hb] at hl
    obtain rfl : k = l := Int.ofNat.inj hl
    exact pending_self hb

/-- A row that comes while all is well. -/
theorem Reached.phase (h : c.Reached n b cur z) (hn : n < c.remote.height) :
    c.Phase (n + 1) (c.unitStep (cur, z) (OrderMerge.remoteUnitAt c.rows n)) := by
  unfold OrderMerge.remoteUnitAt
  cases hb : c.rows.bwd n with
  | none => exact Or.inl ⟨b, h.insert hn hb⟩
  | some l =>
    show c.Phase (n + 1) (c.unitStep (cur, z) (pairUnit l n))
    cases hm : movesNow cur l with
    | false => exact Or.inl ⟨l + 1, reached_inPlace h.counted h.placed hb hm⟩
    | true =>
      cases hmoved : (cur.hadRow || decide (l ≠ 0)) with
      | true => exact Or.inl ⟨_, h.move hb hm hmoved⟩
      | false =>
        rw [Bool.or_eq_false_iff] at hmoved
        obtain rfl : l = 0 := by simpa using of_decide_eq_false hmoved.2
        obtain ⟨k, rfl⟩ : ∃ k, n = k + 1 := by
          have := h.counted.pos_of_moves hm fun h0 => (h.start h0).1
          exact ⟨n - 1, by omega⟩
        have ho := (h.leftOut_iff hb).mp ⟨hm, hmoved.1⟩
        by_cases hfirst : k = 0 ∧ c.rows.bwd 0 ≠ none
        · obtain ⟨rfl, hb0⟩ := hfirst
          exact Or.inr (Or.inr ⟨h.leftOut_inverted ho hb0, 0, ho, Or.inl ⟨rfl, hb0⟩⟩)
        · by_cases heq : c.locals.row 0 = c.remote.row (k + 1)
          · exact Or.inr (Or.inl ⟨k, _, rfl, ho, heq, h.leftOut_stale ho hfirst heq⟩)
          · exact Or.inl ⟨_, h.leftOut_updated ho hfirst heq⟩

/-- A row that comes with the cursor in front of the row before. -/
theorem Stale.phase {k : Nat} (h : c.Stale k b cur z) (ho : c.LeftOut k)
    (hk : k + 2 < c.remote.height) :
    (c.Inverted (k + 3) (c.unitStep (cur, z) (OrderMerge.remoteUnitAt c.rows (k + 2))).2 ∧
      c.Strays k) ∨ (¬c.Strays k ∧
        ∃ b, c.Reached (k + 3) b (c.unitStep (cur, z) (OrderMerge.remoteUnitAt c.rows (k + 2))).1
          (c.unitStep (cur, z) (OrderMerge.remoteUnitAt c.rows (k + 2))).2) := by
  unfold OrderMerge.remoteUnitAt
  cases hb : c.rows.bwd (k + 2) with
  | none => exact Or.inl ⟨h.insert hk, hk, Or.inl hb⟩
  | some l =>
    have hl : l ≠ 0 := by
      rintro rfl
      have := Option.some.inj ((fwd_of_bwd ho.first).symm.trans (fwd_of_bwd hb))
      omega
    cases hm : movesNow cur l with
    | true =>
      obtain ⟨a, ha, hlt⟩ := h.moves_iff.mp hm
      exact Or.inl ⟨h.move hb hl hm, hk, Or.inr ⟨a, l, ha, hb, hlt⟩⟩
    | false =>
      refine Or.inr ⟨?_, l + 1, h.inPlace hb hm⟩
      rintro ⟨-, hnone | ⟨a, b, ha, hb', hlt⟩⟩
      · rw [hb] at hnone
        cases hnone
      · obtain rfl : l = b := Option.some.inj (hb.symm.trans hb')
        rw [h.moves_iff.mpr ⟨a, ha, hlt⟩] at hm
        cases hm

theorem phase_along (c : Comparison) : ∀ n ≤ c.remote.height, c.Phase n (c.along n) := by
  intro n
  induction n with
  | zero => exact fun _ => Or.inl ⟨0, reached_start⟩
  | succ n ih =>
    intro hn
    rw [along_succ]
    rcases ih (by omega) with ⟨b, h⟩ | ⟨k, b, rfl, ho, heq, h⟩ | ⟨h, hmis⟩
    · exact h.phase hn
    · rcases h.phase ho hn with ⟨hinv, hs⟩ | ⟨-, hr⟩
      · exact Or.inr (Or.inr ⟨hinv, k, ho, Or.inr ⟨heq, hs⟩⟩)
      · exact Or.inl hr
    · exact Or.inr (Or.inr ⟨h.remote hn, hmis⟩)

theorem Inverted.along (h : c.Inverted n (c.along n).2) :
    ∀ {n' : Nat}, n ≤ n' → n' ≤ c.remote.height → c.Inverted n' (c.along n').2 := by
  intro n' hn
  induction hn with
  | refl => exact fun _ => h
  | step _ ih =>
    intro hn'
    rw [along_succ]
    exact (ih (Nat.le_of_succ_le hn')).remote hn'

/-- **What is misplaced is found so at the end.** -/
theorem inverted_of_misplaced (h : c.Misplaced) :
    c.Inverted c.remote.height (c.along c.remote.height).2 := by
  obtain ⟨k, ho, hcase⟩ := h
  have hk := (fwd_lt (fwd_of_bwd ho.first)).2
  have hnext : c.along (k + 2) = c.unitStep (c.along (k + 1)) (pairUnit 0 (k + 1)) := by
    rw [along_succ]
    unfold OrderMerge.remoteUnitAt
    rw [ho.first]
    rfl
  rcases c.phase_along (k + 1) (Nat.le_of_lt hk) with ⟨b, hr⟩ | ⟨k', b, hkk, ho', -⟩ | ⟨hinv, -⟩
  · by_cases hfirst : k = 0 ∧ c.rows.bwd 0 ≠ none
    · obtain ⟨rfl, hb0⟩ := hfirst
      have hinv := hr.leftOut_inverted ho hb0
      refine Inverted.along (n := 2) ?_ hk (Nat.le_refl _)
      rw [hnext]
      exact hinv
    · obtain ⟨heq, hs⟩ := hcase.resolve_left hfirst
      have hstale := hr.leftOut_stale ho hfirst heq
      rcases hstale.phase ho hs.1 with ⟨hinv, -⟩ | ⟨hno, -⟩
      · refine Inverted.along (n := k + 3) ?_ hs.1 (Nat.le_refl _)
        rw [along_succ, hnext]
        exact hinv
      · exact absurd hs hno
  · -- the first local row has been dealt with already
    have := Option.some.inj ((fwd_of_bwd ho'.first).symm.trans (fwd_of_bwd ho.first))
    omega
  · exact hinv.along (Nat.le_of_lt hk) (Nat.le_refl _)

/-! ## The deletions -/

theorem run_deletes {done : List (List SheetCell)} (ls : List Nat)
    (hls : ∀ l ∈ ls, c.locals.row l ∉ done) :
    ∀ s : Cursor × Zipper (List SheetCell), s.2.items.Perm (done ++ ls.map c.locals.row) →
    done.Sublist s.2.items →
      ((ls.map deleteUnit).foldl c.unitStep s).2.items = done := by
  induction ls with
  | nil =>
    intro s hperm hsub
    rw [List.map_nil, List.append_nil] at hperm
    exact (hsub.eq_of_length hperm.length_eq.symm).symm
  | cons l ls ih =>
    intro s hperm hsub
    rw [List.map_cons] at hperm
    obtain ⟨a, b, hc, heq⟩ := cut_isRow (hperm.symm.subset (show c.locals.row l ∈ _ by simp))
    rw [List.map_cons, List.foldl_cons]
    have hstep : (c.unitStep s (deleteUnit l)).2 = ⟨a, b⟩ := by
      show Edit.run (c.stepEdits s.1 (deleteUnit l)) s.2 = _
      rw [stepEdits_delete, Edit.run_cons, Edit.run_nil, Edit.delete_found hc]
    refine ih (fun k hk => hls k (List.mem_cons_of_mem _ hk)) _ ?_ ?_
    · rw [hstep]
      exact Edit.perm_without hperm heq
    · rw [hstep]
      rw [heq] at hsub
      exact sublist_without hsub (hls l List.mem_cons_self)

theorem pending_height : c.pending c.remote.height l = (c.rows.fwd l).isNone := by
  rw [Bool.eq_iff_iff, pending_iff, Option.isNone_iff_eq_none, Option.eq_none_iff_forall_ne_some]
  exact forall_congr' fun r =>
    ⟨fun h hf => absurd (fwd_lt hf).2 (by have := h hf; omega), fun h hf => absurd hf h⟩

theorem deletedUnits_eq (c : Comparison) : OrderMerge.deletedUnits c.rows =
    ((List.range c.locals.height).filter (c.pending c.remote.height)).map deleteUnit := by
  unfold OrderMerge.deletedUnits
  rw [List.filter_congr fun l _ => (pending_height (c := c) (l := l)).symm]
  rfl

theorem done_height (c : Comparison) : c.done c.remote.height = c.remote.rows :=
  rows_eq_map c.remote

theorem deletes_placed {s : Cursor × Zipper (List SheetCell)}
    (h : c.Placed c.remote.height b s.2.items) :
    ((OrderMerge.deletedUnits c.rows).foldl c.unitStep s).2.items = c.remote.rows := by
  rw [deletedUnits_eq, ← done_height]
  refine run_deletes _ (fun l hl => ?_) s h.holds ?_
  · obtain ⟨hl, hp⟩ := List.mem_filter.mp hl
    exact pending_not_done (List.mem_range.mp hl) (Nat.le_refl _) hp
  · obtain ⟨A, hA, hsub⟩ := h.split
    rw [hA]
    exact hsub.trans (List.sublist_append_left _ _)

theorem deletes_inverted (us : List MatchUnit)
    (hus : ∀ u ∈ us, u ∈ OrderMerge.deletedUnits c.rows) :
    ∀ {s : Cursor × Zipper (List SheetCell)}, c.Inverted c.remote.height s.2 →
      c.Inverted c.remote.height (us.foldl c.unitStep s).2 := by
  induction us with
  | nil => exact fun h => h
  | cons u us ih =>
    intro s h
    have hmem := hus u (by simp)
    refine ih (fun w hw => hus w (List.mem_cons_of_mem _ hw))
      (h.step (isUnit_deleted hmem).1 (fun l hl => ?_)
      (Nat.le_refl _) (Nat.le_refl _))
    rw [deletedUnits_eq] at hmem
    obtain ⟨k, hk, rfl⟩ := List.mem_map.mp hmem
    obtain rfl : k = l := Int.ofNat.inj hl
    exact (List.mem_filter.mp hk).2

/-- A remote row in front of an earlier one is not how the remote has them. -/
theorem Inverted.ne (h : c.Inverted n z) : z.items ≠ c.remote.rows := by
  obtain ⟨i, j, hij, hjn, hn, hsub⟩ := h
  intro heq
  rw [heq, ← done_height] at hsub
  have hpair : (c.done c.remote.height).Pairwise fun x y => ∃ p q, p < q ∧ q < c.remote.height ∧
      x = c.remote.row p ∧ y = c.remote.row q := by
    unfold done
    rw [List.pairwise_map]
    refine List.Pairwise.imp_of_mem (fun hp hq hlt => ?_) List.pairwise_lt_range
    exact ⟨_, _, hlt, List.mem_range.mp hq, rfl, rfl⟩
  obtain ⟨p, q, hpq, hq, hxp, hyq⟩ := (List.pairwise_pair.mp (hpair.sublist hsub))
  have := remote_inj (c := c) (by omega) (by omega) hxp
  have := remote_inj (c := c) (by omega) (by omega) hyq
  omega

end

/-- **Ordered round trip.**  With order in use, replaying the row changes on local gives the rows of
the remote in their order, exactly when no row is misplaced by a move that is left out. -/
theorem replay_ordered_iff (c : Comparison) (zero : SheetCell) :
    ∃ r, merge (c.state true false) = .ok r ∧
    (c.replay zero false r.rowChanges = some c.remote.rows ↔ ¬c.Misplaced) := by
  obtain ⟨r, hr, hreplay⟩ := c.replay_ordered zero
  refine ⟨r, hr, ?_⟩
  have hrun : Edit.run (c.orderedEdits {} (c.units true)) (Zipper.atEnd c.locals.rows) =
      ((OrderMerge.deletedUnits c.rows).foldl c.unitStep (c.along c.remote.height)).2 := by
    rw [c.run_orderedEdits (c.units true) ({}, Zipper.atEnd c.locals.rows)]
    show ((OrderMerge.remoteUnits c.rows ++ OrderMerge.deletedUnits c.rows).foldl c.unitStep _).2 =
      _
    rw [List.foldl_append]
    rfl
  rw [hreplay, hrun, Option.some.injEq]
  constructor
  · intro heq hmis
    exact (deletes_inverted _ (fun u hu => hu) (inverted_of_misplaced hmis)).ne heq
  · intro hmis
    rcases c.phase_along c.remote.height (Nat.le_refl _) with ⟨b, h⟩ | ⟨k, b, hk, -, -, h⟩ | ⟨-, h⟩
    · exact deletes_placed h.placed
    · have hp := h.placed
      rw [← hk] at hp
      exact deletes_placed hp
    · exact absurd h hmis

/-- Local `a`, `b` and remote `b`, `a`. -/
def swappedTwo : Comparison where
  locals := ⟨1, [textRow ["a"], textRow ["b"]], by decide, by decide⟩
  remote := ⟨1, [textRow ["b"], textRow ["a"]], by decide, by decide⟩
  names := ["id"]
  rows := ⟨⟨[1, 0], [1, 0]⟩, rfl, rfl, by decide, by decide, by decide⟩
  names_ne_nil := by decide
  names_nodup := by decide
  usable := by decide
  local_width := rfl
  remote_width := rfl
  local_text := by decide
  remote_text := by decide
  local_nodup := by decide
  remote_nodup := by decide
  equal_paired := by decide

/-- The row `a` should move behind `b`; nothing is done about it. -/
theorem replay_differs_swappedTwo : ∃ r, merge (swappedTwo.state true false) = .ok r ∧
    swappedTwo.replay SheetCell.null false r.rowChanges ≠ some swappedTwo.remote.rows :=
  ⟨_, swappedTwo.merge_eq true false, by decide +kernel⟩

end Comparison

end Coopy
