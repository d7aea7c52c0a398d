import Coopy.Lib.PendingHits
import Coopy.RubyApply
import Mathlib.Data.List.Sort

/-!
# Rows around the changes

The fourth query gives the rows of both tables in the order of their keys.  At the first row with
the text of a change, the change is passed on; of the other rows, those of the first table are
context.  The last rows are not passed on, and have no marker unless the history was full.

    applyWithContext = the hunks of the items that a scan of the rows finds    (applyWithContext_eq)
    each change once and in order, and the context with its markers ↔ `Interleavable`
                                                                                   (interleaves_iff)
-/

namespace Coopy

open Lib Relation Sqlite

namespace Ruby

/-! ## The loop -/

/-- A row that may be context; those of the second table are redundant. -/
def contextRow {V : Type} (e : Row V × Nat) : Option (Row V) := if e.2 = 1 then none else some e.1

namespace Engine

section
variable {V γ : Type} (E : Engine V) (f : γ → RowChange V) (width : Nat)

/-- The row change for an item, or for a marker. -/
def shown : Option (Item γ (Row V)) → RowChange V
  | none =>
    ⟨"...", List.replicate width { txt := some (E.ofText "..."), value := some (E.ofText "...") }⟩
  | some (.change c) => f c
  | some (.plain r) => ⟨"", plainCells r⟩

theorem skipChange_eq {row : Row V} (h : row.length = width) :
    E.skipChange row = E.shown f width none := by
  rw [skipChange, List.map_const', h]
  rfl

/-- The loop has passed on what the hunks have. -/
structure Follows (s : ContextState V) (hit : String → Option γ)
    (hunks : Hunks.State γ (Row V)) : Prop where
  hits : ∀ k, s.hits.get? k = (hit k).map f
  hist : s.hist = hunks.hist
  pending : s.pending = hunks.pending
  skipped : s.skipped = hunks.skipped
  noted : s.noted = hunks.noted
  out : s.out = hunks.out.map (E.shown f width)
  last : s.skipped = true → s.lastRow.length = width

variable {f width}

/-- **One row**: a change that waits under its text, a row of the first table, or nothing. -/
theorem Follows.step {s : ContextState V} {hit : String → Option γ} {hunks : Hunks.State γ (Row V)}
    (h : E.Follows f width s hit hunks) (ks : List Nat) {e : Row V × Nat}
    (hlen : e.1.length = width) : match hit (E.keyify (project ks e.1)) with
    | some c =>
      E.Follows f width (E.contextStep ks s e)
        (Function.update hit (E.keyify (project ks e.1)) none)
        (Hunks.step contextLength hunks (.change c))
    | none => E.Follows f width (E.contextStep ks s e) hit
        (((contextRow e).map Item.plain).toList.foldl (Hunks.step contextLength) hunks) := by
  have hskip :
    (if s.skipped then [E.skipChange e.1] else []) = (if hunks.skipped then [none] else []).map
      (E.shown f width) := by
    rw [h.skipped, E.skipChange_eq f width hlen]
    cases hunks.skipped <;> rfl
  have hget := h.hits (E.keyify (project ks e.1))
  cases hhit : hit (E.keyify (project ks e.1)) with
  | some c =>
    rw [hhit, Option.map_some] at hget
    simp only [contextStep, hget]
    refine ⟨fun k => ?_, rfl, rfl, rfl, rfl, ?_, fun hs => Bool.noConfusion hs⟩
    · rw [AssocMap.get?_filter _ (fun k => k != E.keyify (project ks e.1)), h.hits]
      by_cases hk : k = E.keyify (project ks e.1)
      · rw [hk, Function.update_self]
        simp
      · rw [Function.update_of_ne hk, if_pos (by simpa using hk)]
    · simp only [Hunks.step, List.map_append, List.map_map, h.out, h.hist, hskip]
      rfl
  | none =>
    rw [hhit, Option.map_none] at hget
    simp only [contextStep, hget, contextRow]
    by_cases htag : e.2 = 1
    · rw [if_pos htag, if_pos htag]
      exact h
    · rw [if_neg htag, if_neg htag]
      show E.Follows f width _ hit (Hunks.step contextLength hunks (.plain e.1))
      rw [Hunks.step, ← h.pending, ← h.hist]
      split
      · refine ⟨h.hits, rfl, rfl, rfl, h.noted, ?_, fun hs => Bool.noConfusion hs⟩
        simp only [List.map_append, h.out, hskip]
        rfl
      · split
        · exact ⟨h.hits, rfl, rfl, rfl, h.noted, h.out, fun _ => hlen⟩
        · exact ⟨h.hits, rfl, rfl, h.skipped, h.noted, h.out, h.last⟩

/-- **All rows.** -/
theorem Follows.run (ks : List Nat) (es : List (Row V × Nat))
    (hlen : ∀ e ∈ es, e.1.length = width) :
    ∀ {s : ContextState V} {hit : String → Option γ} {hunks : Hunks.State γ (Row V)},
    E.Follows f width s hit hunks →
      ∃ hit', E.Follows f width (es.foldl (E.contextStep ks) s) hit'
        ((Hits.scan (fun e => E.keyify (project ks e.1)) contextRow hit es).foldl
          (Hunks.step contextLength) hunks) := by
  induction es with
  | nil => exact fun h => ⟨_, h⟩
  | cons e es ih =>
    intro s hit hunks h
    have hstep := h.step E ks (hlen e List.mem_cons_self)
    have hrest : ∀ e ∈ es, e.1.length = width := fun e he => hlen e (List.mem_cons_of_mem _ he)
    rw [List.foldl_cons, Hits.scan]
    cases hhit : hit (E.keyify (project ks e.1)) with
    | some c =>
      simp only [hhit] at hstep
      exact ih hrest hstep
    | none =>
      simp only [hhit] at hstep
      rw [List.foldl_append]
      exact ih hrest hstep

/-- **The loop** passes on the hunks of what a scan finds. -/
theorem applyWithContext_eq (ks : List Nat) {rows : List (Row V × Nat)}
    (hlen : ∀ e ∈ rows, e.1.length = width) (waiting : AssocMap String γ) :
    E.applyWithContext rows ks (waiting.map fun e => (e.1, f e.2)) =
      (Hunks.withContext contextLength (Hits.scan (fun e => E.keyify (project ks e.1)) contextRow
        (AssocMap.get? (waiting.foldl (fun m e => m.set e.1 e.2) [])) rows)).map
          (E.shown f width) := by
  have hstart : E.Follows f width
      { hits := (waiting.map fun e => (e.1, f e.2)).foldl
          (fun (m : AssocMap String (RowChange V)) e => m.set e.1 e.2) [] }
      (AssocMap.get? (waiting.foldl (fun m e => m.set e.1 e.2) [])) {} :=
    ⟨fun k => AssocMap.get?_foldl_set_map f waiting k [] [] fun _ => rfl, rfl, rfl, rfl, rfl, rfl,
      fun hs => Bool.noConfusion hs⟩
  obtain ⟨hit, h⟩ := Follows.run E ks rows hlen hstart
  unfold applyWithContext Hunks.withContext Hunks.State.finish
  rw [List.map_append, ← h.out, ← h.skipped, ← h.noted]
  refine congrArg (_ ++ ·) ?_
  split
  · next hmarker =>
      rw [E.skipChange_eq f width (h.last (Bool.and_eq_true_iff.1 hmarker).1), List.map_singleton]
  · rfl

end

end Engine

/-! ## What is to be passed on -/

namespace TablePair

variable {V : Type} [DecidableEq V] (E : Engine V) (p : TablePair V)

/-- The order of the values: the fourth query gives the rows by it, and those under one key in the
order of the tables. -/
structure KeyOrder where
  less : Option V → Option V → Bool
  less_irrefl : ∀ v, less v v = false
  less_trans : ∀ u v w, less u v = true → less v w = true → less u w = true
  sorted : (p.contextRows E).Pairwise fun e f =>
    List.lex (p.key e.1) (p.key f.1) less = true ∨ p.key e.1 = p.key f.1 ∧ e.2 ≤ f.2

section
variable {E p} (o : p.KeyOrder E)

/-- Keys are compared value by value. -/
def KeyOrder.before (k l : Row V) : Bool := List.lex k l o.less

theorem KeyOrder.irrefl (k : Row V) : o.before k k = false :=
  List.lex_eq_false_iff_not_lex o.less |>.2
  (List.lex_irrefl (fun v => by rw [o.less_irrefl]; exact Bool.false_ne_true) k)

theorem KeyOrder.trans (k l m : Row V) (h : o.before k l = true) (h' : o.before l m = true) :
    o.before k m = true :=
  List.lex_eq_true_iff_lex o.less |>.2 (List.lex_trans (fun {u v w} => o.less_trans u v w)
    (List.lex_eq_true_iff_lex o.less |>.1 h) (List.lex_eq_true_iff_lex o.less |>.1 h'))

theorem KeyOrder.pairwise : (p.contextRows E).Pairwise fun e f =>
    o.before (p.key e.1) (p.key f.1) = true ∨ p.key e.1 = p.key f.1 ∧ e.2 ≤ f.2 := o.sorted

/-- Keys that differ in the first value, or not at all, are compared by it. -/
theorem KeyOrder.before_take {k l : Row V} (h : k.take 1 = l.take 1 → k = l) :
    o.before (k.take 1) (l.take 1) = o.before k l := by
  cases k with
  | nil =>
    cases l with
    | nil => rfl
    | cons b bs => rfl
  | cons a as =>
    cases l with
    | nil => rfl
    | cons b bs =>
      show List.lex [a] [b] o.less = List.lex (a :: as) (b :: bs) o.less
      by_cases hab : a = b
      · have hkl : a :: as = b :: bs := h (by rw [hab]; rfl)
        rw [hkl, hab]
        exact (o.irrefl [b]).trans (o.irrefl (b :: bs)).symm
      · simp [List.lex, hab]

def itemKey (key : Row V → Row V) : Item (Change (Row V)) (Row V) → Row V
  | .change c => key c.row
  | .plain r => key r

/-- Each change and each unchanged row once, in the order of the keys. -/
structure InOrder (key : Row V → Row V) (items : List (Item (Change (Row V)) (Row V))) : Prop where
  sorted : items.Pairwise fun x y => o.before (itemKey key x) (itemKey key y) = true
  change : ∀ c, .change c ∈ items ↔ c ∈ changes key p.t.rows p.remote.rows
  plain : ∀ r, .plain r ∈ items ↔ r ∈ p.t.rows ∧ r ∈ p.remote.rows

/-- All changes are passed on, and unchanged rows only near them, with a marker for each gap next to
something. -/
def Interleaves : Prop :=
  ∃ (head : RowChange V) (xs : List (Item (Change (Row V)) (Row V) × Bool)),
    head.rowMode = "@@" ∧ InOrder o p.fullKey (xs.map Prod.fst) ∧ Hunks.Selects 2 xs ∧
    E.applySingle p.db p.t.fullName p.remote.fullName =
      some (head :: (Hunks.render xs).map (E.shown toChange p.t.columns.length))

/-- The unchanged rows behind all differences. -/
def after (key : Row V → Row V) : List (Row V) :=
  p.t.rows.filter fun r => decide (r ∈ p.remote.rows) &&
    (changes key p.t.rows p.remote.rows).all fun c => o.before (key c.row) (key r)

variable (p) in
/-- The first column of the key tells the rows apart that the key does. -/
def FirstDecides : Prop :=
  ∀ r ∈ p.t.rows ++ p.remote.rows, ∀ s ∈ p.t.rows ++ p.remote.rows, p.key r = p.key s →
  p.fullKey r = p.fullKey s

variable (p) in
omit [DecidableEq V] in
/-- A key of one column is its first column. -/
theorem firstDecides_of_length (h : p.t.key.length = 1) : p.FirstDecides := fun r _ s _ hk => by
  rwa [← p.key_eq_fullKey h]

/-- When the rows are passed on as they are to be. -/
structure Interleavable : Prop where
  names : p.PlainNames E
  first : p.FirstDecides
  data : ∃ c ∈ p.t.columns, c ∉ p.t.keyColumns
  -- no row has the text of a later key under which the tables differ
  texts : ∀ r ∈ p.t.rows ++ p.remote.rows, ∀ s, p.OnlyInOne s →
    o.before (p.key r) (p.key s) = true → E.keyify (p.key r) ≠ E.keyify (p.key s)
  -- the last rows are all context, or the history is full
  tail : (∃ s, p.OnlyInOne s) → ¬ (2 < (after o p.fullKey).length ∧ (after o p.fullKey).length ≤ 4)

/-! ## The first column of the key -/

variable (h : p.FirstDecides)
include h

omit [DecidableEq V] in
theorem FirstDecides.key_iff {r s : Row V} (hr : r ∈ p.t.rows ++ p.remote.rows)
    (hs : s ∈ p.t.rows ++ p.remote.rows) : p.fullKey r = p.fullKey s ↔ p.key r = p.key s := by
  refine ⟨fun hk => ?_, h r hr s hs⟩
  rw [key_eq_take, key_eq_take, hk]

omit [DecidableEq V] in
theorem FirstDecides.firstKeyed : p.FirstKeyed where
  unique := by
    refine (List.nodup_map_iff_inj_on p.unique.of_map).2 fun r hr s hs hk => ?_
    exact List.inj_on_of_nodup_map p.unique hr hs
      (h r (List.mem_append_left _ hr) s (List.mem_append_left _ hs) hk)
  uniqueRemote := by
    refine (List.nodup_map_iff_inj_on p.uniqueRemote.of_map).2 fun r hr s hs hk => ?_
    exact List.inj_on_of_nodup_map p.uniqueRemote hr hs
      (h r (List.mem_append_right _ hr) s (List.mem_append_right _ hs) hk)

theorem FirstDecides.changes_eq : changes p.fullKey p.t.rows p.remote.rows = p.differences :=
  changes_congr fun _ ha _ hb => h.key_iff (List.mem_append_left _ ha) (List.mem_append_right _ hb)

theorem FirstDecides.before_eq {r s : Row V} (hr : r ∈ p.t.rows ++ p.remote.rows)
    (hs : s ∈ p.t.rows ++ p.remote.rows) :
    o.before (p.fullKey r) (p.fullKey s) = o.before (p.key r) (p.key s) := by
  rw [key_eq_take, key_eq_take]
  refine (o.before_take fun hk => ?_).symm
  rw [← key_eq_take, ← key_eq_take] at hk
  exact h r hr s hs hk

omit h in
theorem FirstDecides.row_mem {c : Change (Row V)} (hc : c ∈ p.differences) :
    c.row ∈ p.t.rows ++ p.remote.rows := by
  rcases mem_changes.1 hc with ⟨b, rfl, hb, -⟩ | ⟨a, b, rfl, ha, -⟩ | ⟨a, rfl, ha, -⟩
  · exact List.mem_append_right _ hb
  · exact List.mem_append_left _ ha
  · exact List.mem_append_left _ ha

/-- **In the order of the keys** is in the order of their first columns. -/
theorem FirstDecides.inOrder_iff (items : List (Item (Change (Row V)) (Row V))) :
    InOrder o p.fullKey items ↔ InOrder o p.key items := by
  have hmem : (∀ c, .change c ∈ items → c ∈ p.differences) →
    (∀ r, .plain r ∈ items → r ∈ p.t.rows) →
      ∀ x ∈ items, ∀ y ∈ items,
        o.before (itemKey p.fullKey x) (itemKey p.fullKey y) = o.before (itemKey p.key x)
        (itemKey p.key y) := by
    intro hc hp x hx y hy
    have hrow : ∀ z ∈ items, ∃ r ∈ p.t.rows ++ p.remote.rows,
        itemKey p.fullKey z = p.fullKey r ∧ itemKey p.key z = p.key r := by
      intro z hz
      cases z with
      | change c => exact ⟨c.row, FirstDecides.row_mem (hc c hz), rfl, rfl⟩
      | plain r => exact ⟨r, List.mem_append_left _ (hp r hz), rfl, rfl⟩
    obtain ⟨r, hr, hx, hx'⟩ := hrow x hx
    obtain ⟨s, hs, hy, hy'⟩ := hrow y hy
    rw [hx, hx', hy, hy', h.before_eq o hr hs]
  constructor
  · intro hi
    have hchange : ∀ c, .change c ∈ items ↔ c ∈ p.differences := fun c => by
      rw [hi.change, h.changes_eq]
    have hsame := hmem (fun c => (hchange c).1) fun r hr => ((hi.plain r).1 hr).1
    exact ⟨hi.sorted.imp_of_mem fun hx hy hxy => (hsame _ hx _ hy).symm.trans hxy,
      hchange, hi.plain⟩
  · intro hi
    have hsame := hmem (fun c => (hi.change c).1) fun r hr => ((hi.plain r).1 hr).1
    exact ⟨hi.sorted.imp_of_mem fun hx hy hxy => (hsame _ hx _ hy).trans hxy,
      fun c => by rw [hi.change, h.changes_eq]; rfl, hi.plain⟩

theorem FirstDecides.after_eq : after o p.fullKey = after o p.key := by
  refine List.filter_congr fun r hr => ?_
  rw [h.changes_eq]
  refine congrArg _ ?_
  have hall : ∀ c ∈ p.differences, o.before (p.fullKey c.row) (p.fullKey r) = o.before (p.key c.row)
    (p.key r) := fun c hc => h.before_eq o (FirstDecides.row_mem hc) (List.mem_append_left _ hr)
  rw [Bool.eq_iff_iff, List.all_eq_true, List.all_eq_true]
  exact forall₂_congr fun c hc => by rw [hall c hc]

end

end TablePair

namespace TablePair

variable {V : Type} [DecidableEq V] {E : Engine V} {p : KeyedPair V} (o : p.KeyOrder E)

/-! ## The rows of the fourth query -/

/-- The first row of a change in the fourth query. -/
def ownEntry : Change (Row V) → Row V × Nat
  | .insert b => (b, 1)
  | .update a _ => (a, 0)
  | .delete a => (a, 0)

omit [DecidableEq V] in
theorem ownEntry_fst (c : Change (Row V)) : (ownEntry c).1 = c.row := by cases c <;> rfl

theorem mem_contextRows_iff {e : Row V × Nat} :
    e ∈ p.contextRows E ↔ (e.2 = 0 ∧ e.1 ∈ p.t.rows) ∨ (e.2 = 1 ∧ e.1 ∈ p.remote.rows) := by
  obtain ⟨r, tag⟩ := e
  simp only [contextRows, (E.orderBy_perm _).mem_iff, List.mem_dedup, List.mem_append,
    List.mem_map, Prod.mk.injEq]
  constructor
  · rintro (⟨r', hr, rfl, rfl⟩ | ⟨r', hr, rfl, rfl⟩)
    · exact Or.inl ⟨rfl, hr⟩
    · exact Or.inr ⟨rfl, hr⟩
  · rintro (⟨rfl, hr⟩ | ⟨rfl, hr⟩)
    · exact Or.inl ⟨r, hr, rfl, rfl⟩
    · exact Or.inr ⟨r, hr, rfl, rfl⟩

theorem nodup_contextRows : (p.contextRows E).Nodup :=
  (E.orderBy_perm _).nodup_iff.2 (List.nodup_dedup _)

theorem length_of_mem_contextRows {e : Row V × Nat} (h : e ∈ p.contextRows E) :
    e.1.length = p.t.columns.length := by
  rcases mem_contextRows_iff.1 h with ⟨-, hr⟩ | ⟨-, hr⟩
  · exact p.rect_t _ hr
  · exact p.rect_remote _ hr

theorem ownEntry_mem {c : Change (Row V)} (hc : c ∈ p.differences) :
    ownEntry c ∈ p.contextRows E := by
  rcases mem_changes.1 hc with ⟨b, rfl, hb, -⟩ | ⟨a, b, rfl, ha, -, -, -⟩ | ⟨a, rfl, ha, -⟩
  · exact mem_contextRows_iff.2 (Or.inr ⟨rfl, hb⟩)
  · exact mem_contextRows_iff.2 (Or.inl ⟨rfl, ha⟩)
  · exact mem_contextRows_iff.2 (Or.inl ⟨rfl, ha⟩)

theorem ownEntry_inj : ∀ c ∈ p.differences, ∀ d ∈ p.differences,
    ownEntry c = ownEntry d → c = d := by
  intro c hc d hd h
  refine changes_keyed keyed_t keyed_remote hc hd (congrArg p.key ?_)
  rw [← ownEntry_fst, ← ownEntry_fst, h]

/-- Rows of one table under one key are one row. -/
theorem entry_eq {e f : Row V × Nat} (he : e ∈ p.contextRows E) (hf : f ∈ p.contextRows E)
    (htag : e.2 = f.2) (hk : p.key e.1 = p.key f.1) : e = f := by
  refine Prod.ext ?_ htag
  rcases mem_contextRows_iff.1 he with ⟨h, hr⟩ | ⟨h, hr⟩ <;>
    rcases mem_contextRows_iff.1 hf with ⟨h', hr'⟩ | ⟨h', hr'⟩
  · exact keyed_t _ hr _ hr' hk
  · omega
  · omega
  · exact keyed_remote _ hr _ hr' hk

/-- Among the rows under its key, a change has the first. -/
theorem tag_ownEntry {e : Row V × Nat} (he : e ∈ p.contextRows E) {c : Change (Row V)}
    (hc : c ∈ p.differences)
    (hk : p.key e.1 = p.key c.row) (hne : e ≠ ownEntry c) : (ownEntry c).2 < e.2 := by
  have hdiffer : e.2 ≠ (ownEntry c).2 := fun htag =>
    hne (entry_eq he (ownEntry_mem hc) htag (by rw [hk, ownEntry_fst]))
  rcases mem_contextRows_iff.1 he with ⟨h, hr⟩ | ⟨h, -⟩
  · rcases mem_changes.1 hc with ⟨b, rfl, -, hfresh⟩ | ⟨a, b, rfl, -⟩ | ⟨a, rfl, -⟩
    · exact absurd hk (hfresh _ hr)
    · exact absurd h hdiffer
    · exact absurd h hdiffer
  · rcases mem_contextRows_iff.1 (ownEntry_mem (E := E) hc) with ⟨h', -⟩ | ⟨h', -⟩
    · omega
    · exact absurd (h.trans h'.symm) hdiffer

section
variable {o}

theorem before_asymm {k l : Row V} (h : o.before k l = true) : o.before l k = false := by
  rw [← Bool.not_eq_true]
  intro h'
  have hself := o.trans _ _ _ h h'
  rw [o.irrefl] at hself
  cases hself

theorem before_total {e f : Row V × Nat} (he : e ∈ p.contextRows E) (hf : f ∈ p.contextRows E)
    (hne : p.key e.1 ≠ p.key f.1) :
    o.before (p.key e.1) (p.key f.1) = true ∨ o.before (p.key f.1) (p.key e.1) = true := by
  have hsymm : Std.Symm fun e f : Row V × Nat => p.key e.1 = p.key f.1 ∨
      o.before (p.key e.1) (p.key f.1) = true ∨ o.before (p.key f.1) (p.key e.1) = true := by
    constructor
    rintro e f (h | h | h)
    · exact Or.inl h.symm
    · exact Or.inr (Or.inr h)
    · exact Or.inr (Or.inl h)
  have hsorted : (p.contextRows E).Pairwise fun e f => p.key e.1 = p.key f.1 ∨
      o.before (p.key e.1) (p.key f.1) = true ∨ o.before (p.key f.1) (p.key e.1) = true :=
    o.pairwise.imp fun h => h.elim (fun h => Or.inr (Or.inl h)) fun h => Or.inl h.1
  exact (hsorted.forall he hf fun h => hne (congrArg (fun e => p.key e.1) h)).resolve_left hne

/-- What comes before the row of a change has an earlier key. -/
theorem before_of_split {front back : List (Row V × Nat)} {e : Row V × Nat}
    (h : p.contextRows E = front ++ e :: back)
    {c : Change (Row V)} (hc : c ∈ p.differences) (hmem : ownEntry c ∈ back) :
    o.before (p.key e.1) (p.key c.row) = true := by
  have he : e ∈ p.contextRows E := by
    rw [h]
    simp
  have hsorted := o.pairwise
  have hnodup := nodup_contextRows (E := E) (p := p)
  rw [h] at hsorted hnodup
  have hpair := (List.pairwise_cons.1 (List.pairwise_append.1 hsorted).2.1).1 _ hmem
  rw [ownEntry_fst] at hpair
  refine hpair.resolve_right fun hsame => ?_
  have hne : e ≠ ownEntry c :=
    fun he => (List.nodup_cons.1 (List.nodup_append.1 hnodup).2.1).1 (he ▸ hmem)
  exact absurd (tag_ownEntry he hc hsame.1 hne) (by omega)

end

/-! ## The scan -/

variable (E p) in
/-- The text under which a row is looked for. -/
def entryText (e : Row V × Nat) : String := E.keyify (p.key e.1)

variable (E p) in
/-- The changes that wait, each under the text of its key. -/
def waiting : String → Option (Change (Row V)) :=
  AssocMap.get? ((p.differences.map fun c => (p.keyText E c, c)).foldl (fun m e => m.set e.1 e.2)
    [])

variable (E p) in
/-- The items that the scan finds. -/
def found : List (Item (Change (Row V)) (Row V)) :=
  Hits.scan (entryText E p) contextRow (waiting E p) (p.contextRows E)

variable (E p) in
/-- The items that there are. -/
def ideal : List (Item (Change (Row V)) (Row V)) :=
  (p.contextRows E).filterMap (Hits.place contextRow ownEntry p.differences)

theorem applySingle_found (h : p.PlainNames E) (hd : p.t.dataColumns ≠ []) :
    E.applySingle p.db p.t.fullName p.remote.fullName =
      some (⟨"@@", p.t.columns.map fun v =>
        { txt := some (E.ofText v), value := some (E.ofText v) }⟩ ::
        (Hunks.withContext 2 (found E p)).map (E.shown toChange p.t.columns.length)) := by
  have hrows : ∀ e ∈ p.contextRows E, e.1.length = p.t.columns.length :=
    fun e he => length_of_mem_contextRows he
  have hmap : (p.differences.map fun c => (p.keyText E c, toChange c)) =
      (p.differences.map fun c => (p.keyText E c, c)).map fun e => (e.1, toChange e.2) := by
    rw [List.map_map]
    rfl
  rw [applySingle_eq h hd, hmap, E.applyWithContext_eq p.t.keyPlaces hrows]
  rfl

omit [DecidableEq V] in
theorem entryText_ownEntry (c : Change (Row V)) : entryText E p (ownEntry c) = p.keyText E c := by
  rw [entryText, ownEntry_fst, keyText]

theorem mem_of_waiting {k : String} {c : Change (Row V)} (h : waiting E p k = some c) :
    k = p.keyText E c ∧ c ∈ p.differences := by
  rcases AssocMap.mem_of_get?_foldl_set _ _ h with h | h
  · obtain ⟨d, hd, he⟩ := List.mem_map.1 h
    cases he
    exact ⟨rfl, hd⟩
  · cases h

theorem found_change {c : Change (Row V)} (h : .change c ∈ found E p) :
    waiting E p (p.keyText E c) = some c := by
  obtain ⟨k, hk⟩ := Hits.change_mem_scan _ _ h
  rw [← (mem_of_waiting hk).1]
  exact hk

theorem contextRow_eq_some {e : Row V × Nat} (he : e ∈ p.contextRows E) {r : Row V} :
    contextRow e = some r ↔ e = (r, 0) := by
  obtain ⟨r', tag⟩ := e
  rw [contextRow, Prod.mk.injEq]
  rcases mem_contextRows_iff.1 he with ⟨rfl, -⟩ | ⟨rfl, -⟩
  · simp
  · simp

theorem nodup_found : (found E p).Nodup := by
  refine Hits.nodup_scan _ _ (List.pairwise_filterMap.2 (nodup_contextRows.imp_of_mem ?_))
    fun k k' c hk hk' => ?_
  · rintro e f he hf hne r hr s hs rfl
    exact hne (((contextRow_eq_some he).1 hr).trans ((contextRow_eq_some hf).1 hs).symm)
  · rw [(mem_of_waiting hk).1, (mem_of_waiting hk').1]

section
variable (htexts : ∀ c ∈ p.differences, ∀ d ∈ p.differences, p.keyText E c = p.keyText E d → c = d)
include htexts

theorem waiting_keyText {c : Change (Row V)} (hc : c ∈ p.differences) :
    waiting E p (p.keyText E c) = some c := by
  have hkeys : (AssocMap.keys (p.differences.map fun c => (p.keyText E c, c))).Nodup := by
    rw [AssocMap.keys, List.map_map]
    exact (List.nodup_map_iff_inj_on
      (nodup_changes p.first.unique.of_map p.first.uniqueRemote.of_map)).2 htexts
  rw [waiting, AssocMap.get?_foldl_set _ _ _ hkeys,
    AssocMap.get?_of_mem hkeys (List.mem_map_of_mem hc)]
  rfl

theorem pending_start :
    Hits.Pending (entryText E p) ownEntry p.differences [] (p.contextRows E) (waiting E p) where
  found := by
    intro k c hk
    obtain ⟨hkey, hc⟩ := mem_of_waiting hk
    exact ⟨hkey.trans (entryText_ownEntry c).symm, hc, ownEntry_mem hc⟩
  waits := by
    intro c hc _
    rw [entryText_ownEntry]
    exact waiting_keyText htexts hc
  past := nofun

/-- A row of the second table that stands for no change comes behind the row of the first table
under its key. -/
theorem entries_contextRows (o : p.KeyOrder E) :
    Hits.Entries (entryText E p) contextRow ownEntry p.differences (p.contextRows E) where
  nodup := nodup_contextRows
  ownText := by
    intro c hc d hd h
    rw [entryText_ownEntry, entryText_ownEntry] at h
    exact htexts c hc d hd h
  behind := by
    intro front e back h hnone hother
    have he : e ∈ p.contextRows E := by
      rw [h]
      simp
    obtain ⟨b, tag⟩ := e
    rcases mem_contextRows_iff.1 he with ⟨rfl, -⟩ | ⟨rfl, hb⟩
    · cases hnone
    · obtain ⟨a, ha, hk⟩ : ∃ a ∈ p.t.rows, p.key a = p.key b := by
        by_contra hfresh
        push Not at hfresh
        exact hother (.insert b) (mem_changes.2 (Or.inl ⟨b, rfl, hb, hfresh⟩)) rfl
      have hin : (a, 0) ∈ p.contextRows E := mem_contextRows_iff.2 (Or.inl ⟨rfl, ha⟩)
      have hsorted := o.pairwise
      rw [h] at hin hsorted
      refine ⟨(a, 0), ?_, congrArg E.keyify hk⟩
      rcases List.mem_append.1 hin with hin | hin
      · exact hin
      · rcases List.mem_cons.1 hin with hin | hin
        · cases hin
        · rcases (List.pairwise_cons.1 (List.pairwise_append.1 hsorted).2.1).1 _
            hin with hbefore | hsame
          · rw [hk, o.irrefl] at hbefore
            cases hbefore
          · exact absurd hsame.2 (Nat.not_succ_le_zero 0)

end

/-- **No row has the text of a later change** when none has the text of a later key under which the
tables differ. -/
theorem clean_iff (o : p.KeyOrder E) :
    Hits.Clean (entryText E p) ownEntry p.differences (p.contextRows E) ↔
    ∀ r ∈ p.t.rows ++ p.remote.rows, ∀ s, p.OnlyInOne s → o.before (p.key r) (p.key s) = true →
      E.keyify (p.key r) ≠ E.keyify (p.key s) := by
  constructor
  · intro hclean r hr s hs hbefore htext
    obtain ⟨c, hc, hk⟩ := exists_difference hs
    obtain ⟨tag, hin⟩ := mem_contextRows.2 hr
    obtain ⟨front, back, h⟩ := List.append_of_mem (ownEntry_mem (E := E) hc)
    rw [← hk] at hbefore htext
    have hsorted := o.pairwise
    rw [h] at hin hsorted
    rcases List.mem_append.1 hin with hin | hin
    · obtain ⟨before, between, rfl⟩ := List.append_of_mem hin
      refine hclean before (r, tag) (between ++ ownEntry c :: back) (by rw [h]; simp) c hc
        (by simp) ?_
      rw [entryText_ownEntry]
      exact htext
    · rcases List.mem_cons.1 hin with hin | hin
      · rw [← ownEntry_fst, ← hin, o.irrefl] at hbefore
        cases hbefore
      · rcases (List.pairwise_cons.1 (List.pairwise_append.1 hsorted).2.1).1 _
          hin with hlater | hsame
        · rw [ownEntry_fst, before_asymm hbefore] at hlater
          cases hlater
        · rw [ownEntry_fst] at hsame
          rw [hsame.1, o.irrefl] at hbefore
          cases hbefore
  · intro htexts front e back h c hc hmem
    rw [entryText_ownEntry]
    have he : e ∈ p.contextRows E := by
      rw [h]
      simp
    exact htexts e.1 (mem_contextRows.1 ⟨e.2, he⟩) c.row (onlyInOne_row hc)
      (before_of_split h hc hmem)

/-! ## The items in order -/

theorem place_eq_change {e : Row V × Nat} {c : Change (Row V)}
    (h : Hits.place contextRow ownEntry p.differences e = some (.change c)) :
    c ∈ p.differences ∧ ownEntry c = e := by
  unfold Hits.place at h
  split at h
  · next d hfind =>
    cases h
    exact ⟨List.mem_of_find?_eq_some hfind, by simpa using List.find?_some hfind⟩
  · obtain ⟨r, -, hr⟩ := Option.map_eq_some_iff.1 h
    cases hr

theorem place_eq_plain {e : Row V × Nat} (he : e ∈ p.contextRows E) {r : Row V}
    (h : Hits.place contextRow ownEntry p.differences e = some (.plain r)) :
    e = (r, 0) ∧ ∀ c ∈ p.differences, ownEntry c ≠ e := by
  unfold Hits.place at h
  split at h
  · cases h
  · next hfind =>
    obtain ⟨r', hr', heq⟩ := Option.map_eq_some_iff.1 h
    cases heq
    refine ⟨(contextRow_eq_some he).1 hr', fun c hc hown => ?_⟩
    exact List.find?_eq_none.1 hfind c hc (decide_eq_true hown)

theorem itemKey_place {e : Row V × Nat} (he : e ∈ p.contextRows E)
    {x : Item (Change (Row V)) (Row V)}
    (h : Hits.place contextRow ownEntry p.differences e = some x) :
    itemKey p.key x = p.key e.1 := by
  cases x with
  | change c => rw [itemKey, ← (place_eq_change h).2, ownEntry_fst]
  | plain r => rw [itemKey, (place_eq_plain he h).1]

/-- A row of the first table is unchanged if it stands for no change. -/
theorem unchanged_iff {r : Row V} (hr : r ∈ p.t.rows) : (∀ c ∈ p.differences, ownEntry c ≠ (r, 0)) ↔
    r ∈ p.remote.rows := by
  constructor
  · intro hother
    by_contra hnot
    obtain ⟨c, hc, hk⟩ := exists_difference (Or.inl ⟨hr, hnot⟩)
    rcases mem_changes.1 hc with ⟨b, rfl, -, hfresh⟩ | ⟨a, b, rfl, ha, -⟩ | ⟨a, rfl, ha, -⟩
    · exact hfresh r hr hk.symm
    · exact hother _ hc (congrArg (·, 0) (keyed_t a ha r hr hk))
    · exact hother _ hc (congrArg (·, 0) (keyed_t a ha r hr hk))
  · intro hboth c hc he
    have hrow : c.row = r := by rw [← ownEntry_fst, he]
    rcases onlyInOne_row hc with ⟨-, hnot⟩ | ⟨-, hnot⟩
    · exact hnot (hrow ▸ hboth)
    · exact hnot (hrow ▸ hr)

/-- **The items that there are** are in order. -/
theorem inOrder_ideal (o : p.KeyOrder E) : InOrder o p.key (ideal E p) where
  sorted := by
    refine List.pairwise_filterMap.2 ((o.pairwise.and nodup_contextRows).imp_of_mem ?_)
    rintro e f he hf ⟨hsorted, hne⟩ x hx y hy
    rw [itemKey_place he hx, itemKey_place hf hy]
    refine hsorted.resolve_right fun hsame => ?_
    -- the second of two rows under one key stands for nothing
    have htags : e.2 = 0 ∧ f.2 = 1 := by
      have hdiffer : e.2 ≠ f.2 := fun htag => hne (entry_eq he hf htag hsame.1)
      rcases mem_contextRows_iff.1 he with ⟨h, -⟩ | ⟨h, -⟩ <;>
        rcases mem_contextRows_iff.1 hf with ⟨h', -⟩ | ⟨h', -⟩ <;> omega
    cases y with
    | change c =>
      obtain ⟨hc, hown⟩ := place_eq_change hy
      have hlater := tag_ownEntry he hc (by rw [hsame.1, ← ownEntry_fst, hown]) (hown ▸ hne)
      rw [hown] at hlater
      omega
    | plain r =>
      rw [(place_eq_plain hf hy).1] at htags
      exact absurd htags.2 (Nat.zero_ne_one)
  change := by
    intro c
    rw [ideal, List.mem_filterMap]
    constructor
    · rintro ⟨e, -, he⟩
      exact (place_eq_change he).1
    · exact fun hc => ⟨ownEntry c, ownEntry_mem hc, Hits.place_own ownEntry_inj hc⟩
  plain := by
    intro r
    rw [ideal, List.mem_filterMap]
    constructor
    · rintro ⟨e, he, hr⟩
      obtain ⟨rfl, hother⟩ := place_eq_plain he hr
      have hr : r ∈ p.t.rows := by
        rcases mem_contextRows_iff.1 he with ⟨-, hr⟩ | ⟨h, -⟩
        · exact hr
        · cases h
      exact ⟨hr, (unchanged_iff hr).1 hother⟩
    · rintro ⟨hr, hboth⟩
      refine ⟨(r, 0), mem_contextRows_iff.2 (Or.inl ⟨rfl, hr⟩), ?_⟩
      rw [Hits.place_other ((unchanged_iff hr).2 hboth)]
      rfl

section
variable {o}

theorem InOrder.nodup {xs : List (Item (Change (Row V)) (Row V))}
    (h : InOrder o p.key xs) : xs.Nodup := by
  refine h.sorted.imp ?_
  rintro x y hxy rfl
  rw [o.irrefl] at hxy
  cases hxy

theorem InOrder.unique {xs ys : List (Item (Change (Row V)) (Row V))} (h : InOrder o p.key xs)
    (h' : InOrder o p.key ys) : xs = ys := by
  refine List.Perm.eq_of_pairwise (fun x y _ _ hxy hyx => ?_) h.sorted h'.sorted
    ((List.perm_ext_iff_of_nodup h.nodup h'.nodup).2 ?_)
  · rw [before_asymm hxy] at hyx
    cases hyx
  · intro x
    cases x with
    | change c => rw [h.change, h'.change]
    | plain r => rw [h.plain, h'.plain]

/-- The items behind the last change are the rows behind all differences. -/
theorem InOrder.trailing {xs : List (Item (Change (Row V)) (Row V))} (h : InOrder o p.key xs)
    {c : Change (Row V)} (hc : c ∈ p.differences) :
    Hunks.trailing xs = (after o p.key).length := by
  obtain ⟨front, d, back, rfl, hlen⟩ := Hunks.trailing_split ((h.change c).2 hc)
  obtain ⟨-, hcons, hfront⟩ := List.pairwise_append.1 h.sorted
  have hback := (List.pairwise_cons.1 hcons).1
  have hnodup : back.Nodup := (List.nodup_cons.1 (List.nodup_append.1 h.nodup).2.1).2.of_map
  have hafter : (after o p.key).Nodup := p.first.unique.of_map.filter _
  rw [hlen]
  refine ((List.perm_ext_iff_of_nodup hnodup hafter).2 fun r => ?_).length_eq
  rw [after, List.mem_filter, Bool.and_eq_true, decide_eq_true_eq, List.all_eq_true,
    ← and_assoc, ← h.plain r]
  constructor
  · intro hr
    have hin : (Item.plain r : Item (Change (Row V)) (Row V)) ∈ back.map Item.plain :=
      List.mem_map_of_mem hr
    refine ⟨List.mem_append_right _ (List.mem_cons_of_mem _ hin), fun e he => ?_⟩
    rcases List.mem_append.1 ((h.change e).2 he) with he | he
    · exact hfront _ he _ (List.mem_cons_of_mem _ hin)
    · rcases List.mem_cons.1 he with he | he
      · rw [Item.change.inj he]
        exact hback _ hin
      · obtain ⟨r', -, he⟩ := List.mem_map.1 he
        cases he
  · rintro ⟨hr, hall⟩
    rcases List.mem_append.1 hr with hr | hr
    · -- a row in front of a change is not behind it
      have hd : d ∈ p.differences := (h.change d).1 (List.mem_append_right _ List.mem_cons_self)
      have hbefore := hfront _ hr _ List.mem_cons_self
      rw [itemKey, itemKey, before_asymm (hall d hd)] at hbefore
      cases hbefore
    · rcases List.mem_cons.1 hr with hr | hr
      · cases hr
      · obtain ⟨r', hr', he⟩ := List.mem_map.1 hr
        exact Item.plain.inj he ▸ hr'

/-! ## What is passed on -/

theorem row_toChange {c : Change (Row V)} (hc : c ∈ p.differences) :
    (toChange c).cells.map (·.value) = c.row := by
  have hplain : ∀ r : Row V, (Engine.plainCells r).map (·.value) = r := by
    intro r
    rw [Engine.plainCells, List.map_map]
    exact List.map_id r
  cases c with
  | insert b => exact hplain b
  | update a b =>
    have hlen : a.length = b.length :=
      (length_of_mem hc a (Or.inl rfl)).trans (length_of_mem hc b (Or.inr rfl)).symm
    have hvalue :
      ∀ v : Option V × Option V, (if v.1 = v.2 then ({ txt := v.1, value := v.1 } : Cell V)
        else { txt := v.1, value := v.1, newValue := v.2, cellMode := "->" }).value = v.1 := by
      intro v
      split <;> rfl
    show (Engine.updateCells (interleave a b)).map (·.value) = a
    rw [Engine.updateCells, List.map_map, eachPair_interleave]
    calc (a.zip b).map _ = (a.zip b).map Prod.fst := List.map_congr_left fun v _ => hvalue v
      _ = a := List.map_fst_zip hlen.le
  | delete a => exact hplain a

/-- Different items are passed on as different row changes. -/
theorem shown_inj {x y : Option (Item (Change (Row V)) (Row V))} (hx : ∀ c, x = some (.change c) →
    c ∈ p.differences)
    (hy : ∀ c, y = some (.change c) → c ∈ p.differences)
    (h : E.shown toChange p.t.columns.length x = E.shown toChange p.t.columns.length y) :
    x = y := by
  have hacts := congrArg acts h
  have hmode := congrArg RowChange.rowMode h
  match x, y with
  | none, none => rfl
  | none, some (.plain r) => exact absurd hmode (show "..." ≠ "" by decide)
  | some (.plain r), none => exact absurd hmode (show "" ≠ "..." by decide)
  | some (.change c), none =>
    exact absurd ((acts_toChange c).symm.trans hacts) (show true ≠ false by decide)
  | none, some (.change c) =>
    exact absurd (hacts.trans (acts_toChange c)) (show false ≠ true by decide)
  | some (.change c), some (.plain r) =>
    exact absurd ((acts_toChange c).symm.trans hacts) (show true ≠ false by decide)
  | some (.plain r), some (.change c) =>
    exact absurd (hacts.trans (acts_toChange c)) (show false ≠ true by decide)
  | some (.change c), some (.change d) =>
    have hc := hx c rfl
    have hd := hy d rfl
    have hrow := congrArg (fun rc => rc.cells.map (·.value)) h
    have hsame : c.row = d.row := (row_toChange hc).symm.trans (hrow.trans (row_toChange hd))
    rw [changes_keyed keyed_t keyed_remote hc hd (congrArg p.key hsame)]
  | some (.plain r), some (.plain s) =>
    have hrow := congrArg (fun rc => rc.cells.map (·.value)) h
    simp only [Engine.shown, Engine.plainCells, List.map_map] at hrow
    have hsame : r = s := (List.map_id r).symm.trans (hrow.trans (List.map_id s))
    rw [hsame]

/-! ## When the rows are passed on as they are to be -/

/-- With texts apart, no two differences share one. -/
theorem texts_apart (h : ∀ r ∈ p.t.rows ++ p.remote.rows, ∀ s, p.OnlyInOne s →
    o.before (p.key r) (p.key s) = true → E.keyify (p.key r) ≠ E.keyify (p.key s)) :
    ∀ c ∈ p.differences, ∀ d ∈ p.differences, p.keyText E c = p.keyText E d → c = d := by
  intro c hc d hd htext
  by_contra hne
  have hk : p.key (ownEntry c).1 ≠ p.key (ownEntry d).1 := by
    rw [ownEntry_fst, ownEntry_fst]
    exact fun hk => hne (changes_keyed keyed_t keyed_remote hc hd hk)
  have hrow : ∀ c ∈ p.differences, c.row ∈ p.t.rows ++ p.remote.rows := fun c hc =>
    (onlyInOne_row hc).mem
  rcases before_total (o := o) (ownEntry_mem hc) (ownEntry_mem hd) hk with hbefore | hbefore
  · rw [ownEntry_fst, ownEntry_fst] at hbefore
    exact h _ (hrow c hc) _ (onlyInOne_row hd) hbefore htext
  · rw [ownEntry_fst, ownEntry_fst] at hbefore
    exact h _ (hrow d hd) _ (onlyInOne_row hc) hbefore htext.symm

/-- What the scan finds is what there is, or a change that comes too early. -/
theorem found_or (o : p.KeyOrder E)
    (htexts : ∀ c ∈ p.differences, ∀ d ∈ p.differences, p.keyText E c = p.keyText E d → c = d) :
    (Hits.Clean (entryText E p) ownEntry p.differences (p.contextRows E) ∧ found E p = ideal E p) ∨
      (¬ Hits.Clean (entryText E p) ownEntry p.differences (p.contextRows E) ∧
        ∃ before c late u rest,
        found E p = before ++ .change c :: late ∧ ideal E p = before ++ .plain u :: rest ∧
          .change c ∈ rest) :=
  Hits.scan_place (entries_contextRows htexts o) (pending_start htexts)

theorem interleaves_of_interleavable (h : Interleavable o) : Interleaves o := by
  have hafter := h.first.after_eq o
  obtain ⟨c, hc, hnot⟩ := h.data
  have hd : p.t.dataColumns ≠ [] := List.ne_nil_of_mem (List.mem_filter.2 ⟨hc, by simpa using hnot⟩)
  have hfound : found E p = ideal E p := by
    rcases found_or o (texts_apart h.texts) with ⟨-, heq⟩ | ⟨hnot, -⟩
    · exact heq
    · exact absurd ((clean_iff o).2 h.texts) hnot
  obtain ⟨xs, hxs, hselects, hrender⟩ :=
    (Hunks.withContext_iff Nat.zero_lt_two (ideal E p)).2 fun ⟨c, hc⟩ => by
    have hdiff := ((inOrder_ideal o).change c).1 hc
    rw [(inOrder_ideal o).trailing hdiff, ← hafter]
    exact h.tail ⟨_, onlyInOne_row hdiff⟩
  have hsingle := applySingle_found h.names hd
  rw [hfound, hrender] at hsingle
  exact ⟨_, xs, rfl, (h.first.inOrder_iff o _).2 (hxs ▸ inOrder_ideal o), hselects, hsingle⟩

theorem interleavable_of_interleaves (hT : p.TidyNames) (hf : p.FirstDecides) (h : Interleaves o) :
    Interleavable o := by
  obtain ⟨head, xs, -, hfull, hselects, hsingle⟩ := h
  have horder := (hf.inOrder_iff o _).1 hfull
  obtain ⟨hnames, hd⟩ := prepared hT (E := E) (by rw [hsingle]; nofun)
  rw [applySingle_found hnames hd, Option.some.injEq, List.cons.injEq] at hsingle
  have hsub := (Hunks.filterMap_withContext_sublist Nat.zero_lt_two (found E p)).subset
  have heq : Hunks.withContext 2 (found E p) = Hunks.render xs := by
    refine map_inj_on (fun x hx y hy => shown_inj ?_ ?_) hsingle.2
    · rintro c rfl
      exact (mem_of_waiting (found_change (hsub (List.mem_filterMap.2 ⟨_, hx, rfl⟩)))).2
    · rintro c rfl
      have hin : Item.change c ∈ (Hunks.render xs).filterMap id := List.mem_filterMap.2 ⟨_, hy, rfl⟩
      rw [Hunks.filterMap_render] at hin
      exact (horder.change c).1 (((List.filter_sublist (p := Prod.snd)).map Prod.fst).subset hin)
  have hxs : xs.map Prod.fst = ideal E p := horder.unique (inOrder_ideal o)
  -- a change that is written over by another one with its text is not found
  have htexts : ∀ c ∈ p.differences, ∀ d ∈ p.differences,
    p.keyText E c = p.keyText E d → c = d := by
    have hall : ∀ c ∈ p.differences, waiting E p (p.keyText E c) = some c := by
      intro c hc
      refine found_change (hsub ?_)
      rw [heq, Hunks.filterMap_render]
      obtain ⟨⟨x, b⟩, hin, hx⟩ := List.mem_map.1 ((horder.change c).2 hc)
      obtain rfl : x = .change c := hx
      exact List.mem_map.2 ⟨_, List.mem_filter.2 ⟨hin, hselects.changes c b hin⟩, rfl⟩
    intro c hc d hd htext
    have hboth := hall c hc
    rw [htext, hall d hd] at hboth
    exact (Option.some.inj hboth).symm
  rcases found_or o htexts with ⟨hclean, hfound⟩ | ⟨-, before, c, late, u, rest,
    hscan, hplace, hrest⟩
  · refine ⟨hnames, hf, ?_, (clean_iff o).1 hclean, fun ⟨s, hs⟩ => ?_⟩
    · obtain ⟨c, hc⟩ := List.exists_mem_of_ne_nil _ hd
      exact ⟨c, dataColumns_mem c hc, by simpa using (List.mem_filter.1 hc).2⟩
    · obtain ⟨c, hc, -⟩ := exists_difference hs
      rw [hf.after_eq o, ← (inOrder_ideal o).trailing hc]
      exact (Hunks.withContext_iff Nat.zero_lt_two (ideal E p)).1 ⟨xs, hxs, hselects, hfound ▸ heq⟩
        ⟨c, ((inOrder_ideal o).change c).2 hc⟩
  · have hnodup := nodup_found (E := E) (p := p)
    have hnodup' := (inOrder_ideal o).nodup
    rw [hplace] at hnodup'
    rw [hscan] at hnodup heq
    exact absurd heq
      (Hunks.withContext_ne_render Nat.zero_lt_two hnodup hnodup' hrest
        (hxs.trans hplace) hselects.changes)

end

/-- **When the rows are passed on as they are to be**: always where `Interleavable`, and nowhere
else among tables with tidy names that the first key column tells the rows of apart. -/
theorem interleaves_iff {V : Type} [DecidableEq V] (E : Engine V) (p : TablePair V)
    (o : p.KeyOrder E) : (Interleavable o → Interleaves o) ∧
    (p.TidyNames → p.FirstDecides → Interleaves o → Interleavable o) :=
  ⟨fun h => interleaves_of_interleavable (p := ⟨p, h.first.firstKeyed⟩) h,
    fun hT hf h => interleavable_of_interleaves (p := ⟨p, hf.firstKeyed⟩) hT hf h⟩

/-- An engine that gives the rows in the order of their first column. -/
def sortingEngine : Engine String :=
  { textEngine with
    orderBy := List.insertionSort fun e f =>
      (value e.1 0).toList < (value f.1 0).toList ∨ value e.1 0 = value f.1 0 ∧ e.2 ≤ f.2
    orderBy_perm := List.perm_insertionSort _ }

/-- A change with three unchanged rows behind it. -/
def shortTail : TablePair String where
  t := {
    schema := "main", name := "t", columns := ["id", "v"], key := ["id"]
    rows :=
      [[some "1", some "a"], [some "2", some "b"], [some "3", some "c"], [some "4", some "d"]] }
  remote := {
    schema := "main", name := "u", columns := ["id", "v"], key := ["id"]
    rows :=
      [[some "1", some "x"], [some "2", some "b"], [some "3", some "c"], [some "4", some "d"]] }
  apart := by decide
  sameColumns := rfl
  sameKey := rfl
  distinct := by decide
  keyed := by decide
  keyColumns := by decide
  rect := by decide
  unique := by decide
  uniqueRemote := by decide

def shortTailOrder : shortTail.KeyOrder sortingEngine where
  less v w := decide (v.toList < w.toList)
  less_irrefl v := decide_eq_false (List.lt_irrefl _)
  less_trans u v w h h' :=
    decide_eq_true (List.lt_trans (of_decide_eq_true h) (of_decide_eq_true h'))
  sorted := by decide +kernel

def wordListOrder : wordList.KeyOrder sortingEngine where
  less := shortTailOrder.less
  less_irrefl := shortTailOrder.less_irrefl
  less_trans := shortTailOrder.less_trans
  sorted := by decide +kernel

theorem interleaves_iff_wordList : Interleaves wordListOrder :=
  (interleaves_iff sortingEngine wordList wordListOrder).1
    { names := PlainNames.of_bare (by decide +kernel) (by decide +kernel)
      first := by
        unfold FirstDecides
        decide
      data := holds_wordList.data
      texts := fun r hr s hs hbefore he => by
        have hrows : ∀ r ∈ wordList.t.rows ++ wordList.remote.rows,
            ∀ s ∈ wordList.t.rows ++ wordList.remote.rows,
            wordListOrder.before (wordList.key r) (wordList.key s) = true →
              sortingEngine.keyify (wordList.key r) ≠ sortingEngine.keyify (wordList.key s) := by
          decide +kernel
        exact hrows r hr s hs.mem hbefore he
      tail := fun _ => by decide +kernel }

theorem shortTail_tidy : shortTail.TidyNames :=
  (PlainNames.of_bare (E := sortingEngine) (by decide +kernel) (by decide +kernel)).tidy

/-- The last of the rows is left out without a marker. -/
theorem shortTail_unmarked :
    (sortingEngine.applySingle shortTail.db shortTail.t.fullName shortTail.remote.fullName).map
        (fun rcs => rcs.map (·.rowMode)) = some ["@@", "->", "", ""] ∧
      ¬ Interleaves shortTailOrder := by
  have hlen : (after shortTailOrder shortTail.fullKey).length = 3 := by decide +kernel
  have hf : shortTail.FirstDecides := shortTail.firstDecides_of_length rfl
  refine ⟨by decide +kernel, fun h => ?_⟩
  have hdiffer : shortTail.OnlyInOne [some "1", some "a"] := Or.inl ⟨by decide, by decide⟩
  have htail :=
    (interleavable_of_interleaves (p := ⟨shortTail, hf.firstKeyed⟩) shortTail_tidy hf h).tail
      ⟨_, hdiffer⟩
  exact htail ⟨hlen ▸ Nat.lt_succ_self 2, hlen ▸ Nat.le_succ 3⟩

end TablePair

end Ruby

end Coopy
