import Coopy.Lib.Trellis
import Mathlib.Data.List.MinMax

/-!
# A trellis over the layers of an earlier run

The forward programme of a trellis starts each layer with no cell at all.  Here a layer starts with
what an earlier run left in it: a cell that is not beaten stays, and is taken for a cell of this
run.  The cells are those of the chains and of the leftovers continued by a chain.

    the cell of a state = the first cheapest of its ways                       (cellsOver_eq_argmin)
    what reaches a state is no cheaper than its cell, and one thing is as cheap
                                                                (cellsOver_le, reaches_of_cellsOver)
    the traces agree ↔ every state on the way is first reached by the chain       (traceOver_eq_iff)
-/

namespace Coopy.Lib.Trellis

/-! ## The first cheapest of a list -/

section
variable {α κ : Type} [LinearOrder κ] {f : α → κ}

theorem argmin_of_head? {l : List α} {c : κ} {x : α}
    (hx : (l.filter fun y => decide (f y = c)).head? = some x)
    (hmin : ∀ y ∈ l, c ≤ f y) : l.argmin f = some x := by
  induction l with
  | nil => simp at hx
  | cons y l ih =>
    have hmin' : ∀ z ∈ l, c ≤ f z := fun z hz => hmin z (List.mem_cons_of_mem _ hz)
    rw [List.argmin_cons]
    by_cases hy : f y = c
    · rw [List.filter_cons_of_pos (by simpa using hy), List.head?_cons] at hx
      cases hl : l.argmin f with
      | none => exact hx
      | some z =>
        have hz : ¬ f z < f y := not_lt.2 (hy.trans_le (hmin' z (List.argmin_mem hl)))
        exact (if_neg hz).trans hx
    · rw [List.filter_cons_of_neg (by simpa using hy)] at hx
      have hxc : f x = c := by simpa using (List.mem_filter.1 (List.mem_of_mem_head? hx)).2
      have hlt : f x < f y := hxc.trans_lt (lt_of_le_of_ne (hmin y List.mem_cons_self) (Ne.symm hy))
      rw [ih hx hmin']
      exact if_pos hlt

theorem head?_of_argmin {l : List α} {x : α} (hx : l.argmin f = some x) :
    (l.filter fun y => decide (f y = f x)).head? = some x := by
  have hmem : x ∈ l.filter fun y => decide (f y = f x) := by simpa using List.argmin_mem hx
  obtain ⟨y, hy⟩ := List.isSome_head?.2 (List.ne_nil_of_mem hmem) |> Option.isSome_iff_exists.1
  have hmin : ∀ z ∈ l, f x ≤ f z := fun z hz => List.le_of_mem_argmin hz hx
  rw [argmin_of_head? hy hmin] at hx
  rw [hy, hx]

end

section
variable {κ : Type} [AddZeroClass κ] [LinearOrder κ]

/-- What is left in the layer of each stage: a cost, and the state before. -/
abbrev Leftovers (κ : Type) := Nat → Nat → Option (κ × Nat)

variable {old : Leftovers κ}

/-! ## The forward pass -/

/-- The cells of the latest stage. -/
def cellsOver (old : Leftovers κ) : List (Stage κ) → Nat → Option (κ × Nat)
  | [] => fun _ => none
  | [st] => st.foldl (relaxStep fun _ => some 0) (old 0)
  | st :: st' :: rs =>
    st.foldl (relaxStep fun s => (cellsOver old (st' :: rs) s).map Prod.fst) (old (rs.length + 1))

/-- What the latest stage may start from. -/
def entryOver (old : Leftovers κ) : List (Stage κ) → Nat → Option κ
  | [] => fun _ => some 0
  | st :: rs => fun s => (cellsOver old (st :: rs) s).map Prod.fst

/-- The chain of predecessors from `s` back. -/
def traceOver (old : Leftovers κ) : List (Stage κ) → Nat → List Nat
  | [], _ => []
  | st :: rs, s =>
    match cellsOver old (st :: rs) s with
    | none => [s]
    | some (_, a) => s :: traceOver old rs a

theorem cellsOver_cons (st : Stage κ) (rs : List (Stage κ)) :
    cellsOver old (st :: rs) = st.foldl (relaxStep (entryOver old rs)) (old rs.length) := by
  cases rs <;> rfl

theorem cellsOver_nothing (rs : List (Stage κ)) : cellsOver (fun _ _ => none) rs = cells rs := by
  induction rs with
  | nil => rfl
  | cons st rs ih =>
    have hentry : entryOver (fun _ _ => none) rs = entry rs := by
      cases rs with
      | nil => rfl
      | cons st' rs => exact funext fun s => by rw [entryOver, entry, ih]
    rw [cellsOver_cons, cells_cons, hentry]
    rfl

theorem traceOver_nothing (rs : List (Stage κ)) :
    ∀ s, traceOver (fun _ _ => none) rs s = trace rs s := by
  induction rs with
  | nil => exact fun s => rfl
  | cons st rs ih =>
    intro s
    rw [traceOver, trace, cellsOver_nothing]
    cases cells (st :: rs) s with
    | none => rfl
    | some x => exact congrArg (s :: ·) (ih x.2)

theorem head?_traceOver {st : Stage κ} {rs : List (Stage κ)} {s : Nat} :
    (traceOver old (st :: rs) s).head? = some s := by
  rw [traceOver]
  split <;> rfl

/-- The ways into a state: what is left there, then the edges in their order. -/
def ways (old : Leftovers κ) (st : Stage κ) (rs : List (Stage κ)) (s : Nat) : List (κ × Nat) :=
  (old rs.length s).toList ++
    (st.filter fun e => decide (e.dst = s)).filterMap fun e => (entryOver old rs e.src).map fun d =>
    (e.cost + d, e.src)

theorem foldl_relaxStep (prev : Nat → Option κ) (s : Nat) (st : Stage κ) :
    ∀ lay : Nat → Option (κ × Nat), st.foldl (relaxStep prev) lay s =
      ((st.filter fun e => decide (e.dst = s)).filterMap fun e => (prev e.src).map fun d =>
        (e.cost + d, e.src)).foldl
          (List.argAux fun b c => b.1 < c.1) (lay s) := by
  induction st with
  | nil => exact fun lay => rfl
  | cons e st ih =>
    intro lay
    rw [List.foldl_cons, ih]
    by_cases hs : e.dst = s
    · rw [List.filter_cons_of_pos (by simpa using hs)]
      subst hs
      unfold relaxStep
      cases hp : prev e.src with
      | none => rw [List.filterMap_cons_none (by rw [hp]; rfl)]
      | some d =>
        rw [List.filterMap_cons_some (by rw [hp]; rfl), List.foldl_cons]
        congr 1
        cases hl : lay e.dst with
        | none => simp [List.argAux]
        | some x =>
          simp only [List.argAux]
          split
          · simp
          · exact hl
    · rw [List.filter_cons_of_neg (by simpa using hs)]
      congr 1
      unfold relaxStep
      cases prev e.src with
      | none => rfl
      | some d =>
        cases lay e.dst with
        | none => exact Function.update_of_ne (Ne.symm hs) _ _
        | some x =>
          simp only
          split
          · exact Function.update_of_ne (Ne.symm hs) _ _
          · rfl

/-- The cell of a state is the first cheapest of its ways. -/
theorem cellsOver_eq_argmin (st : Stage κ) (rs : List (Stage κ)) (s : Nat) :
    cellsOver old (st :: rs) s = (ways old st rs s).argmin Prod.fst := by
  rw [cellsOver_cons, foldl_relaxStep, List.argmin, ways, List.foldl_append]
  congr 1
  cases old rs.length s <;> rfl

/-- The cell is a leftover, or comes by the first of the edges that are as cheap as it. -/
theorem exists_first_way {st : Stage κ} {rs : List (Stage κ)} {s : Nat} {x : κ × Nat}
    (hx : cellsOver old (st :: rs) s = some x) :
    old rs.length s = some x ∨ (∀ a, old rs.length s ≠ some (x.1, a)) ∧
      ∃ pre e post, st = pre ++ e :: post ∧ e.dst = s ∧ e.src = x.2 ∧
        (entryOver old rs e.src).map (fun d => e.cost + d) = some x.1 ∧
        ∀ e' ∈ pre, e'.dst = s → (entryOver old rs e'.src).map (fun d => e'.cost + d) ≠
        some x.1 := by
  have hhead := head?_of_argmin ((cellsOver_eq_argmin st rs s).symm.trans hx)
  rw [List.head?_filter, ways, List.find?_append] at hhead
  by_cases hleft : ∃ a, old rs.length s = some (x.1, a)
  · obtain ⟨a, ha⟩ := hleft
    rw [ha] at hhead
    have hxa : (x.1, a) = x := by simpa using hhead
    exact Or.inl (by rw [ha, hxa])
  · have hnone : ∀ a', old rs.length s ≠ some (x.1, a') := fun a' ha' => hleft ⟨a', ha'⟩
    have hold : (old rs.length s).toList.find? (fun y => decide (y.1 = x.1)) = none := by
      refine List.find?_eq_none.2 fun y hy hyx => ?_
      have hy' : old rs.length s = some y := by simpa using hy
      exact hnone y.2 (by rw [hy', ← of_decide_eq_true hyx])
    rw [hold, Option.none_or, List.find?_filterMap, List.find?_filter] at hhead
    obtain ⟨e, hfind, hex⟩ := Option.bind_eq_some_iff.1 hhead
    obtain ⟨hp, pre, post, rfl, hpre⟩ := List.find?_eq_some_iff_append.1 hfind
    have hs : e.dst = s := of_decide_eq_true (of_decide_eq_true hp).1
    obtain ⟨d, hd, hpair⟩ := Option.map_eq_some_iff.1 hex
    refine Or.inr ⟨hnone, pre, e, post, rfl, hs, congrArg Prod.snd hpair, ?_,
      fun e' he' hs' hway => ?_⟩
    · rw [hd]
      exact congrArg some (congrArg Prod.fst hpair)
    · obtain ⟨d', hd', hcost⟩ := Option.map_eq_some_iff.1 hway
      have := hpre e' he'
      rw [hd'] at this
      simp [hs', hcost] at this

/-- A cell comes by the first of the edges that are as cheap as it. -/
theorem exists_first_edge {st : Stage κ} {rs : List (Stage κ)} {s : Nat} {x : κ × Nat}
    (hx : cells (st :: rs) s = some x) :
    ∃ pre e post, st = pre ++ e :: post ∧ e.dst = s ∧ e.src = x.2 ∧
      ∀ e' ∈ pre, e'.dst = s → (entry rs e'.src).map (fun d => e'.cost + d) ≠ some x.1 := by
  have hentry : entryOver (fun _ _ => none) rs = entry rs := by
    cases rs with
    | nil => rfl
    | cons st' rs => exact funext fun s => by rw [entryOver, entry, cellsOver_nothing]
  rw [← cellsOver_nothing] at hx
  rcases exists_first_way hx with hleft | ⟨-, pre, e, post, hst, hs, hsrc, -, hpre⟩
  · cases hleft
  · rw [hentry] at hpre
    exact ⟨pre, e, post, hst, hs, hsrc, hpre⟩

/-! ## What reaches a state -/

/-- A leftover continued by a chain, up to a state of the latest stage. -/
inductive Resumed (old : Leftovers κ) : List (Stage κ) → Nat → κ → Prop
  | left {st : Stage κ} {rs : List (Stage κ)} {s a : Nat} {c : κ} :
      old rs.length s = some (c, a) → Resumed old (st :: rs) s c
  | cons {st st' : Stage κ} {rs : List (Stage κ)} {e : Edge κ} {c : κ} :
      Resumed old (st' :: rs) e.src c → e ∈ st → Resumed old (st :: st' :: rs) e.dst (e.cost + c)

/-- A chain, or a leftover continued by one. -/
def Reaches (old : Leftovers κ) (rs : List (Stage κ)) (s : Nat) (c : κ) : Prop :=
  (∃ p, Chain rs (s :: p) c) ∨ Resumed old rs s c

/-- A way into a state is a leftover, or an edge from something that can be left. -/
theorem mem_ways {st : Stage κ} {rs : List (Stage κ)} {s : Nat} {x : κ × Nat} :
    x ∈ ways old st rs s ↔ old rs.length s = some x ∨
      ∃ e ∈ st, e.dst = s ∧ ∃ d, entryOver old rs e.src = some d ∧ x = (e.cost + d, e.src) := by
  rw [ways, List.mem_append, Option.mem_toList, List.mem_filterMap]
  refine or_congr Iff.rfl ⟨?_, ?_⟩
  · rintro ⟨e, he, hx⟩
    obtain ⟨hmem, hs⟩ := List.mem_filter.1 he
    obtain ⟨d, hd, rfl⟩ := Option.map_eq_some_iff.1 hx
    exact ⟨e, hmem, by simpa using hs, d, hd, rfl⟩
  · rintro ⟨e, he, hs, d, hd, rfl⟩
    exact ⟨e, List.mem_filter.2 ⟨he, by simpa using hs⟩, by rw [hd]; rfl⟩

theorem mem_ways_of_cellsOver {st : Stage κ} {rs : List (Stage κ)} {s : Nat} {x : κ × Nat}
    (h : cellsOver old (st :: rs) s = some x) : x ∈ ways old st rs s :=
  List.argmin_mem ((cellsOver_eq_argmin st rs s).symm.trans h)

theorem cellsOver_le_way {st : Stage κ} {rs : List (Stage κ)} {s : Nat} {x : κ × Nat}
    (h : x ∈ ways old st rs s) : ∃ y, cellsOver old (st :: rs) s = some y ∧ y.1 ≤ x.1 := by
  rw [cellsOver_eq_argmin]
  cases hm : (ways old st rs s).argmin Prod.fst with
  | none =>
    rw [List.argmin_eq_none.1 hm] at h
    cases h
  | some y => exact ⟨y, rfl, List.le_of_mem_argmin h hm⟩

theorem reaches_of_cellsOver (rs : List (Stage κ)) : ∀ {s : Nat} {x : κ × Nat},
    cellsOver old rs s = some x → Reaches old rs s x.1 := by
  induction rs with
  | nil => exact fun h => nomatch h
  | cons st rs ih =>
    intro s x h
    rcases mem_ways.1 (mem_ways_of_cellsOver h) with hleft | ⟨e, he, rfl, d, hd, rfl⟩
    · exact Or.inr (.left hleft)
    · cases rs with
      | nil =>
        obtain rfl : 0 = d := Option.some.inj hd
        rw [add_zero]
        exact Or.inl ⟨[], .start he⟩
      | cons st' rs =>
        obtain ⟨y, hy, rfl⟩ := Option.map_eq_some_iff.1 hd
        rcases ih hy with ⟨p, hp⟩ | hr
        · exact Or.inl ⟨_, .cons hp he⟩
        · exact Or.inr (.cons hr he)

/-- What is left in a stage came from something left in the stage before. -/
def Backed (old : Leftovers κ) (K : Nat) : Prop :=
  ∀ i s c a, old (i + 1) s = some (c, a) → a < K ∧ ∃ x, old i a = some x

/-- A cell came from a cell of the stage before. -/
theorem cellsOver_back {K : Nat} (hback : Backed old K) {st st' : Stage κ} {rs : List (Stage κ)}
    (hst : ∀ e ∈ st, e.src < K)
    {s : Nat} {x : κ × Nat} (h : cellsOver old (st :: st' :: rs) s = some x) :
    x.2 < K ∧ ∃ y, cellsOver old (st' :: rs) x.2 = some y := by
  rcases mem_ways.1 (mem_ways_of_cellsOver h) with hleft | ⟨e, he, -, d, hd, rfl⟩
  · obtain ⟨hlt, y, hy⟩ := hback rs.length s x.1 x.2 hleft
    obtain ⟨z, hz, -⟩ := cellsOver_le_way (mem_ways.2 (Or.inl hy) : y ∈ ways old st' rs x.2)
    exact ⟨hlt, z, hz⟩
  · obtain ⟨y, hy, -⟩ := Option.map_eq_some_iff.1 hd
    exact ⟨hst e he, y, hy⟩

theorem length_traceOver {K : Nat} (hback : Backed old K) (rs : List (Stage κ))
    (hst : ∀ st ∈ rs, ∀ e ∈ st, e.src < K) :
    ∀ {s : Nat} {x : κ × Nat}, cellsOver old rs s = some x →
    (traceOver old rs s).length = rs.length := by
  induction rs with
  | nil => exact fun h => nomatch h
  | cons st rs ih =>
    intro s x h
    rw [traceOver, h]
    cases rs with
    | nil => rfl
    | cons st' rs =>
      obtain ⟨-, y, hy⟩ := cellsOver_back hback (hst st List.mem_cons_self) h
      exact congrArg (· + 1) (ih (fun t ht => hst t (List.mem_cons_of_mem _ ht)) hy)

section
variable [AddLeftMono κ]

/-- The edge after something that reaches its source. -/
theorem cellsOver_le_edge {st st' : Stage κ} {rs : List (Stage κ)} {e : Edge κ} {c : κ}
    {y : κ × Nat} (he : e ∈ st) (hy : cellsOver old (st' :: rs) e.src = some y) (hle : y.1 ≤ c) :
    ∃ x, cellsOver old (st :: st' :: rs) e.dst = some x ∧ x.1 ≤ e.cost + c := by
  have hway : (e.cost + y.1, e.src) ∈ ways old st (st' :: rs) e.dst :=
    mem_ways.2 (Or.inr ⟨e, he, rfl, y.1, congrArg (Option.map Prod.fst) hy, rfl⟩)
  obtain ⟨x, hx, hxle⟩ := cellsOver_le_way hway
  exact ⟨x, hx, hxle.trans (add_le_add_right hle e.cost)⟩

/-- Nothing reaches a state at less than its cell. -/
theorem cellsOver_le (rs : List (Stage κ)) : ∀ {s : Nat} {c : κ}, Reaches old rs s c →
    ∃ x, cellsOver old rs s = some x ∧ x.1 ≤ c := by
  induction rs with
  | nil =>
    rintro s c (⟨p, hp⟩ | hr)
    · cases hp
    · cases hr
  | cons st rs ih =>
    rintro s c (⟨p, hp⟩ | hr)
    · cases hp with
      | @start _ e he =>
        have hway : (e.cost + 0, e.src) ∈ ways old st [] e.dst :=
          mem_ways.2 (Or.inr ⟨e, he, rfl, 0, rfl, rfl⟩)
        obtain ⟨x, hx, hle⟩ := cellsOver_le_way hway
        exact ⟨x, hx, hle.trans_eq (add_zero _)⟩
      | cons hp he =>
        obtain ⟨y, hy, hle⟩ := ih (Or.inl ⟨_, hp⟩)
        exact cellsOver_le_edge he hy hle
    · cases hr with
      | left hleft => exact cellsOver_le_way (mem_ways.2 (Or.inl hleft))
      | cons hr he =>
        obtain ⟨y, hy, hle⟩ := ih (Or.inr hr)
        exact cellsOver_le_edge he hy hle

omit [AddLeftMono κ] in
theorem exists_chain_of_cells {rs : List (Stage κ)} {s : Nat} {x : κ × Nat}
    (h : cells rs s = some x) : ∃ p, Chain rs (s :: p) x.1 := by
  have hc := trace_chain rs s x.1 x.2 h
  obtain ⟨st, rs', q, e, -, rfl, hq⟩ := hc.head
  rw [trace, h] at hc
  exact ⟨_, hc⟩

/-- The leftovers make no cell dearer. -/
theorem cellsOver_le_cells {rs : List (Stage κ)} {s : Nat} {x : κ × Nat} (h : cells rs s = some x) :
    ∃ y, cellsOver old rs s = some y ∧ y.1 ≤ x.1 :=
  cellsOver_le rs (Or.inl (exists_chain_of_cells h))

end

/-! ## The way back -/

/-- The edge comes from something that brings it to its target at cost `c`. -/
def Arrives (old : Leftovers κ) (rs : List (Stage κ)) (c : κ) (e : Edge κ) : Prop :=
  ∃ d, Reaches old rs e.src d ∧ e.cost + d = c

/-- Of the ways into `s` at cost `c`, the first one tried comes from `a`: a leftover, if there is
one of that cost, and the first edge otherwise. -/
def FirstWay (old : Leftovers κ) (st : Stage κ) (rs : List (Stage κ)) (s : Nat) (c : κ)
    (a : Nat) : Prop :=
  old rs.length s = some (c, a) ∨
    (∀ a', old rs.length s ≠ some (c, a')) ∧
      ∃ pre e post, st = pre ++ e :: post ∧ e.dst = s ∧ e.src = a ∧ Arrives old rs c e ∧
        ∀ e' ∈ pre, e'.dst = s → ¬ Arrives old rs c e'

/-- The least cost at which the state is reached. -/
def Least (old : Leftovers κ) (rs : List (Stage κ)) (s : Nat) (c : κ) : Prop :=
  Reaches old rs s c ∧ ∀ d, Reaches old rs s d → c ≤ d

/-- On the way back from `s`, each state is first reached at its least cost by the chain's own
way. -/
def Undisturbed (old : Leftovers κ) : List (Stage κ) → Nat → Prop
  | st :: st' :: rs, s =>
    ∀ x b, cells (st :: st' :: rs) s = some x → Least old (st :: st' :: rs) s b →
      FirstWay old st (st' :: rs) s b x.2 ∧ Undisturbed old (st' :: rs) x.2
  | _, _ => True

omit [LinearOrder κ] in
theorem FirstWay.unique {st : Stage κ} {rs : List (Stage κ)} {s a b : Nat} {c : κ}
    (ha : FirstWay old st rs s c a) (hb : FirstWay old st rs s c b) : a = b := by
  rcases ha with ha | ⟨hna, pre, e, post, he, hs, rfl, harr, hpre⟩
  · rcases hb with hb | ⟨hnb, -⟩
    · exact congrArg Prod.snd (Option.some.inj (ha.symm.trans hb))
    · exact absurd ha (hnb a)
  · rcases hb with hb | ⟨-, pre', e', post', he', hs', rfl, harr', hpre'⟩
    · exact absurd hb (hna b)
    · rcases List.append_eq_append_iff.1 (he.symm.trans he') with ⟨l, hl, hr⟩ | ⟨l, hl, hr⟩
      · cases l with
        | nil => exact congrArg Edge.src (List.cons.inj hr).1
        | cons f l =>
          obtain rfl : e = f := (List.cons.inj hr).1
          exact absurd harr (hpre' e (by simp [hl]) hs)
      · cases l with
        | nil => exact congrArg Edge.src (List.cons.inj hr).1.symm
        | cons f l =>
          obtain rfl : e' = f := (List.cons.inj hr).1
          exact absurd harr' (hpre e' (by simp [hl]) hs')

section
variable [AddLeftMono κ]

/-- An edge into the state is a way of the cell's cost if and only if it arrives at that cost. -/
theorem arrives_iff {st : Stage κ} {rs : List (Stage κ)} {s : Nat} {x : κ × Nat}
    (hx : cellsOver old (st :: rs) s = some x)
    (hrs : rs ≠ []) {e : Edge κ} (he : e ∈ st) (hs : e.dst = s) :
    Arrives old rs x.1 e ↔ (entryOver old rs e.src).map (fun d => e.cost + d) = some x.1 := by
  obtain ⟨st', rs, rfl⟩ := List.exists_cons_of_ne_nil hrs
  constructor
  · rintro ⟨d, hd, hcost⟩
    obtain ⟨y, hy, hle⟩ := cellsOver_le _ hd
    have hentry : entryOver old (st' :: rs) e.src = some y.1 := congrArg (Option.map Prod.fst) hy
    obtain ⟨z, hz, hzle⟩ := cellsOver_le_way (mem_ways.2 (Or.inr ⟨e, he, hs, y.1, hentry, rfl⟩))
    obtain rfl : x = z := Option.some.inj (hx.symm.trans hz)
    have heq : e.cost + y.1 = x.1 := le_antisymm ((add_le_add_right hle e.cost).trans_eq hcost) hzle
    rw [hentry, Option.map_some, heq]
  · intro hmap
    obtain ⟨d, hd, hcost⟩ := Option.map_eq_some_iff.1 hmap
    obtain ⟨y, hy, rfl⟩ := Option.map_eq_some_iff.1 hd
    exact ⟨y.1, reaches_of_cellsOver _ hy, hcost⟩

/-- The cell comes from its first way. -/
theorem firstWay_of_cellsOver {st : Stage κ} {rs : List (Stage κ)} {s : Nat} {x : κ × Nat}
    (hx : cellsOver old (st :: rs) s = some x) (hrs : rs ≠ []) : FirstWay old st rs s x.1 x.2 := by
  rcases exists_first_way hx with hleft | ⟨hnone, pre, e, post, rfl, hs, hsrc, hway, hpre⟩
  · exact Or.inl hleft
  · refine Or.inr ⟨hnone, pre, e, post, rfl, hs, hsrc, (arrives_iff hx hrs (by simp) hs).2 hway, ?_⟩
    intro e' he' hs' harr
    exact hpre e' he' hs' ((arrives_iff hx hrs (by simp [he']) hs').1 harr)

theorem least_iff {rs : List (Stage κ)} {s : Nat} {y : κ × Nat} (hy : cellsOver old rs s = some y)
    {c : κ} : Least old rs s c ↔ c = y.1 := by
  have hleast : ∀ d, Reaches old rs s d → y.1 ≤ d := by
    intro d hd
    obtain ⟨z, hz, hle⟩ := cellsOver_le rs hd
    obtain rfl : y = z := Option.some.inj (hy.symm.trans hz)
    exact hle
  constructor
  · rintro ⟨hc, hmin⟩
    exact le_antisymm (hmin _ (reaches_of_cellsOver rs hy)) (hleast c hc)
  · rintro rfl
    exact ⟨reaches_of_cellsOver rs hy, hleast⟩

/-- **The way back** is that of the chain if and only if every state on it is first reached by the
chain. -/
theorem traceOver_eq_iff (rs : List (Stage κ)) : ∀ {s : Nat} {x : κ × Nat}, cells rs s = some x →
    (traceOver old rs s = trace rs s ↔ Undisturbed old rs s) := by
  induction rs with
  | nil => exact fun h => nomatch h
  | cons st rs ih =>
    intro s x hx
    obtain ⟨y, hy, -⟩ : ∃ y, cellsOver old _ _ = some y ∧ y.1 ≤ x.1 := cellsOver_le_cells hx
    rw [traceOver, trace, hx, hy]
    cases rs with
    | nil => exact iff_of_true rfl trivial
    | cons st' rs =>
      have hway := firstWay_of_cellsOver hy (List.cons_ne_nil st' rs)
      -- the chain's state before this one has a cell of its own
      obtain ⟨u, hu⟩ : ∃ u, cells (st' :: rs) x.2 = some u := by
        rw [← cellsOver_nothing] at hx ⊢
        rcases mem_ways.1 (mem_ways_of_cellsOver hx) with hleft | ⟨e, he, rfl, d, hd, rfl⟩
        · cases hleft
        · obtain ⟨u, hu, -⟩ := Option.map_eq_some_iff.1 hd
          exact ⟨u, hu⟩
      have hhead : ∀ a, (trace (st' :: rs) a).head? = some a := fun a => by
        rw [← traceOver_nothing]
        exact head?_traceOver
      constructor
      · intro htail
        have htail := (List.cons.inj htail).2
        have hsrc : y.2 = x.2 := by
          have := congrArg List.head? htail
          rw [head?_traceOver, hhead] at this
          exact Option.some.inj this
        rw [hsrc] at htail hway
        intro z b hz hb
        obtain rfl : x = z := Option.some.inj (hx.symm.trans hz)
        obtain rfl := (least_iff hy).1 hb
        exact ⟨hway, (ih hu).1 htail⟩
      · intro hun
        obtain ⟨hfirst, hrest⟩ := hun x y.1 hx ((least_iff hy).2 rfl)
        have hsrc : y.2 = x.2 := hway.unique hfirst
        show s :: traceOver old (st' :: rs) y.2 = s :: trace (st' :: rs) x.2
        rw [hsrc, (ih hu).2 hrest]

end

/-! ## The end of the cheapest chain -/

/-- The first cheapest of the states below `K`, with its cost. -/
def cheapest (lay : Nat → Option (κ × Nat)) (K : Nat) : Option (κ × Nat) :=
  ((List.range K).filterMap fun j => (lay j).map fun x => (x.1, j)).argmin Prod.fst

omit [AddZeroClass κ] [LinearOrder κ] in
theorem mem_reached {lay : Nat → Option (κ × Nat)} {K : Nat} {y : κ × Nat} :
    y ∈ ((List.range K).filterMap fun j => (lay j).map fun x => (x.1, j)) ↔ y.2 < K ∧
    ∃ a, lay y.2 = some (y.1, a) := by
  rw [List.mem_filterMap]
  constructor
  · rintro ⟨j, hj, hy⟩
    obtain ⟨x, hx, rfl⟩ := Option.map_eq_some_iff.1 hy
    exact ⟨List.mem_range.1 hj, x.2, hx⟩
  · rintro ⟨hlt, a, ha⟩
    exact ⟨y.2, List.mem_range.2 hlt, by rw [ha]; rfl⟩

omit [AddZeroClass κ] in
theorem cheapest_eq_none_iff {lay : Nat → Option (κ × Nat)} {K : Nat} :
    cheapest lay K = none ↔ ∀ j < K, lay j = none := by
  rw [cheapest, List.argmin_eq_none, List.eq_nil_iff_forall_not_mem]
  constructor
  · intro h j hj
    cases hl : lay j with
    | none => rfl
    | some x => exact absurd (mem_reached.2 ⟨hj, x.2, hl⟩) (h (x.1, j))
  · intro h y hy
    obtain ⟨hlt, a, ha⟩ := mem_reached.1 hy
    rw [h _ hlt] at ha
    cases ha

omit [AddZeroClass κ] in
/-- It is cheaper than every other state, or as cheap and before it. -/
theorem cheapest_eq_some_iff {lay : Nat → Option (κ × Nat)} {K : Nat} {c : κ} {j : Nat} :
    cheapest lay K = some (c, j) ↔ (j < K ∧ ∃ a, lay j = some (c, a)) ∧
      ∀ s < K, ∀ c' a, lay s = some (c', a) → c < c' ∨ c = c' ∧ j ≤ s := by
  have hall : ∀ {c j}, cheapest lay K = some (c, j) → (j < K ∧ ∃ a, lay j = some (c, a)) ∧
      ∀ s < K, ∀ c' a, lay s = some (c', a) → c < c' ∨ c = c' ∧ j ≤ s := by
    intro c j h
    refine ⟨mem_reached.1 (List.argmin_mem h), fun s hs c' a hl => ?_⟩
    have hmem : (c', s) ∈ (List.range K).filterMap fun j => (lay j).map fun x => (x.1, j) :=
      mem_reached.2 ⟨hs, a, hl⟩
    rcases lt_or_eq_of_le (List.le_of_mem_argmin hmem h) with hlt | heq
    · exact Or.inl hlt
    · -- the states stand in their order
      have hsorted :
        ((List.range K).filterMap fun j => (lay j).map fun x => (x.1, j)).Pairwise fun y z =>
        y.2 < z.2 := by
        refine List.pairwise_filterMap.2 (List.pairwise_lt_range.imp fun {i k} hik y hy z hz => ?_)
        obtain ⟨_, _, rfl⟩ := Option.map_eq_some_iff.1 hy
        obtain ⟨_, _, rfl⟩ := Option.map_eq_some_iff.1 hz
        exact hik
      have hhead := head?_of_argmin h
      have hmem' :=
        List.mem_filter (p := fun y => decide (y.1 = (c, j).1)).2 ⟨hmem, by simpa using heq.symm⟩
      obtain ⟨rest, hrest⟩ := List.head?_eq_some_iff.1 hhead
      have hpair := hsorted.filter fun y => decide (y.1 = (c, j).1)
      rw [hrest] at hmem' hpair
      refine Or.inr ⟨heq, ?_⟩
      rcases List.mem_cons.1 hmem' with he | hm
      · exact (congrArg Prod.snd he).ge
      · exact ((List.pairwise_cons.1 hpair).1 _ hm).le
  refine ⟨hall, fun ⟨⟨hj, a, ha⟩, hmin⟩ => ?_⟩
  cases h : cheapest lay K with
  | none =>
    rw [cheapest_eq_none_iff.1 h j hj] at ha
    cases ha
  | some y =>
    obtain ⟨⟨hj', a', ha'⟩, hmin'⟩ := hall h
    have hle := hmin _ hj' _ _ ha'
    have hle' := hmin' _ hj _ _ ha
    rcases hle with hlt | ⟨rfl, hle⟩
    · rcases hle' with hlt' | ⟨heq, -⟩
      · exact absurd hlt (lt_asymm hlt')
      · exact absurd heq hlt.ne'
    · rcases hle' with hlt' | ⟨-, hle'⟩
      · exact absurd hlt' (lt_irrefl _)
      · exact congrArg some (Prod.ext rfl (Nat.le_antisymm hle' hle))

/-- No continued leftover arrives more cheaply than the best chain, or as cheaply and in an earlier
state. -/
def EndsBehind (old : Leftovers κ) (rs : List (Stage κ)) (K : Nat) : Prop :=
  ∀ s c, Resumed old rs s c → ∃ c₀ j, cheapest (cells rs) K = some (c₀, j) ∧
  (c₀ < c ∨ c₀ = c ∧ j ≤ s)

variable [AddLeftMono κ]

/-- **The end** is that of the best chain if and only if no continued leftover arrives before it. -/
theorem cheapest_eq_iff {rs : List (Stage κ)} {K : Nat} (hK : ∀ s c, Resumed old rs s c → s < K) :
    cheapest (cellsOver old rs) K = cheapest (cells rs) K ↔ EndsBehind old rs K := by
  constructor
  · intro h s c hr
    obtain ⟨x, hx, hle⟩ := cellsOver_le rs (Or.inr hr)
    cases hend : cheapest (cells rs) K with
    | none =>
      rw [hend] at h
      rw [cheapest_eq_none_iff.1 h s (hK s c hr)] at hx
      cases hx
    | some y =>
      rw [hend] at h
      refine ⟨y.1, y.2, rfl, ?_⟩
      rcases (cheapest_eq_some_iff.1 h).2 s (hK s c hr) _ _ hx with hlt | ⟨heq, hys⟩
      · exact Or.inl (hlt.trans_le hle)
      · rcases lt_or_eq_of_le hle with hlt | heq'
        · exact Or.inl (heq.trans_lt hlt)
        · exact Or.inr ⟨heq.trans heq', hys⟩
  · intro h
    -- a cell over the leftovers is that of a chain, or a continued leftover
    have hcell : ∀ s x, cellsOver old rs s = some x → (∃ u, cells rs s = some u ∧ u.1 = x.1) ∨
      Resumed old rs s x.1 := by
      intro s x hx
      rcases reaches_of_cellsOver rs hx with ⟨p, hp⟩ | hr
      · obtain ⟨c', a, hu, hle⟩ := cells_le hp s p rfl
        obtain ⟨y, hy, hyle⟩ : ∃ y, cellsOver old _ _ = some y ∧ y.1 ≤ _ := cellsOver_le_cells hu
        obtain rfl : x = y := Option.some.inj (hx.symm.trans hy)
        exact Or.inl ⟨(c', a), hu, le_antisymm hle hyle⟩
      · exact Or.inr hr
    cases hend : cheapest (cells rs) K with
    | none =>
      refine cheapest_eq_none_iff.2 fun j hj => ?_
      cases hx : cellsOver old rs j with
      | none => rfl
      | some x =>
        rcases hcell j x hx with ⟨u, hu, -⟩ | hr
        · rw [cheapest_eq_none_iff.1 hend j hj] at hu
          cases hu
        · obtain ⟨_, _, he, -⟩ := h j x.1 hr
          rw [hend] at he
          cases he
    | some y =>
      obtain ⟨⟨hj, a, ha⟩, hmin⟩ := cheapest_eq_some_iff.1 hend
      have hafter : ∀ s < K, ∀ c' a', cellsOver old rs s = some (c', a') →
        y.1 < c' ∨ y.1 = c' ∧ y.2 ≤ s := by
        intro s hs c' a' hx
        rcases hcell s _ hx with ⟨u, hu, heq⟩ | hr
        · have hle := hmin s hs u.1 u.2 hu
          rwa [heq] at hle
        · obtain ⟨c₀, j, he, hle⟩ := h s c' hr
          obtain rfl : y = (c₀, j) := Option.some.inj (hend.symm.trans he)
          exact hle
      obtain ⟨x, hx, hle⟩ : ∃ x, cellsOver old _ _ = some x ∧ x.1 ≤ _ := cellsOver_le_cells ha
      have heq : x.1 = y.1 := by
        rcases hafter y.2 hj _ _ hx with hlt | ⟨heq, -⟩
        · exact absurd hle (not_le.2 hlt)
        · exact heq.symm
      exact cheapest_eq_some_iff.2 ⟨⟨hj, x.2, heq ▸ hx⟩, hafter⟩

end

end Coopy.Lib.Trellis
