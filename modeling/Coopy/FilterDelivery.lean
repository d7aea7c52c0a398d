import Coopy.FilterBuffer

/-!
# What a filter delivers

The chained output takes each change as one of the sheet that the last `setSheet` named.  In an
orderly run every sheet with accepted rows gets its names, columns and pools, each once, and then
its rows, each once and in order (`delivers_once`).

A run is not orderly if two tables or more are asked for and one that has rows is asked for twice,
if a change is made on a sheet without a name, if a sheet is given names of one kind twice, if a
sheet is to be created and has no final names, or if there is a pool and a row is inserted into a
sheet of the book that has a coined column: the pool of that column is then sent on too, with the
sheet that was set last.
-/

namespace Coopy

open Lib

namespace ChainCall

def row? : ChainCall → Option RowChange
  | changeRow change => some change
  | _ => none

def column? : ChainCall → Option OrderChange
  | changeColumn change => some change
  | _ => none

def pool? : ChainCall → Option PoolChange
  | changePool change => some change
  | _ => none

end ChainCall

namespace MergeOutputFilter

/-! ## The changes of a sheet -/

/-- The sheet at hand after some calls. -/
def sheetAt (cur : Option String) : List ChainCall → Option String
  | [] => cur
  | .setSheet name :: calls => sheetAt (some name) calls
  | _ :: calls => sheetAt cur calls

/-- The changes among some calls that are taken as those of `sheet`, with `cur` the sheet at
hand. -/
def received (sheet cur : Option String) : List ChainCall → List ChainCall
  | [] => []
  | .setSheet name :: calls => received sheet (some name) calls
  | .mergeDone :: calls => received sheet cur calls
  | .mergeAllDone :: calls => received sheet cur calls
  | call :: calls =>
    if cur = sheet then call :: received sheet cur calls else received sheet cur calls

/-- A change, not the start of a sheet or the end of the merge. -/
def IsChange : ChainCall → Prop
  | .setSheet _ => False
  | .mergeDone => False
  | .mergeAllDone => False
  | _ => True

theorem received_append (sheet : Option String) (calls calls' : List ChainCall) : ∀ cur,
    received sheet cur (calls ++ calls') = received sheet cur calls ++
    received sheet (sheetAt cur calls) calls' := by
  induction calls with
  | nil => exact fun cur => rfl
  | cons c calls ih =>
    intro cur
    cases c with
    | setSheet name => exact ih (some name)
    | mergeDone => exact ih cur
    | mergeAllDone => exact ih cur
    | changeName change => simp only [List.cons_append, received, sheetAt, ih]; split <;> rfl
    | changeColumn change => simp only [List.cons_append, received, sheetAt, ih]; split <;> rfl
    | changePool change => simp only [List.cons_append, received, sheetAt, ih]; split <;> rfl
    | changeRow change => simp only [List.cons_append, received, sheetAt, ih]; split <;> rfl

theorem sheetAt_append (calls calls' : List ChainCall) : ∀ cur,
    sheetAt cur (calls ++ calls') = sheetAt (sheetAt cur calls) calls' := by
  induction calls with
  | nil => exact fun cur => rfl
  | cons c calls ih =>
    intro cur
    cases c with
    | setSheet name => exact ih (some name)
    | _ => exact ih cur

theorem sheetAt_changes {calls : List ChainCall} (h : ∀ c ∈ calls, IsChange c)
    (cur : Option String) : sheetAt cur calls = cur := by
  induction calls with
  | nil => rfl
  | cons c calls ih =>
    have hrest := ih fun d hd => h d (List.mem_cons_of_mem c hd)
    cases c with
    | setSheet name => exact (h _ List.mem_cons_self).elim
    | _ => exact hrest

theorem received_changes {calls : List ChainCall} (h : ∀ c ∈ calls, IsChange c)
    (sheet cur : Option String) : received sheet cur calls = if cur = sheet then calls else [] := by
  induction calls with
  | nil => simp [received]
  | cons c calls ih =>
    have hrest := ih fun d hd => h d (List.mem_cons_of_mem c hd)
    cases c with
    | setSheet name => exact (h _ List.mem_cons_self).elim
    | mergeDone => exact (h _ List.mem_cons_self).elim
    | mergeAllDone => exact (h _ List.mem_cons_self).elim
    | changeName change => simp only [received, hrest]; split <;> rfl
    | changeColumn change => simp only [received, hrest]; split <;> rfl
    | changePool change => simp only [received, hrest]; split <;> rfl
    | changeRow change => simp only [received, hrest]; split <;> rfl

theorem isChange_preambleCalls (u : SheetUnit) : ∀ c ∈ preambleCalls u, IsChange c := by
  intro c hc
  unfold preambleCalls at hc
  simp only [List.mem_append, List.mem_map] at hc
  rcases hc with ((hc | ⟨o, -, rfl⟩) | hc) | ⟨o, -, rfl⟩
  · split at hc
    · rw [List.mem_singleton.1 hc]
      trivial
    · cases hc
  · trivial
  · split at hc
    · rw [List.mem_singleton.1 hc]
      trivial
    · cases hc
  · trivial

theorem rows_preambleCalls (u : SheetUnit) : (preambleCalls u).filterMap ChainCall.row? = [] := by
  rw [List.filterMap_eq_nil_iff]
  intro c hc
  unfold preambleCalls at hc
  simp only [List.mem_append, List.mem_map] at hc
  rcases hc with ((hc | ⟨o, -, rfl⟩) | hc) | ⟨o, -, rfl⟩
  · split at hc
    · rw [List.mem_singleton.1 hc]
      rfl
    · cases hc
  · rfl
  · split at hc
    · rw [List.mem_singleton.1 hc]
      rfl
    · cases hc
  · rfl

/-! ## The state of the delivery -/

/-- A name that a sheet can be told by. -/
def Named (t : String) : Prop := t ≠ "" ∧ t ≠ "[[ COOPY - SHEET NOT SET ]]"

instance : DecidablePred Named := fun t => by unfold Named; infer_instance

/-- The unit is that of a named sheet with preamble `P`, or it has nothing to send. -/
def Fits (P : String → List ChainCall) (u : SheetUnit) : Prop :=
  (Named u.sheetName → preambleCalls u = P u.sheetName) ∧
  (¬Named u.sheetName → preambleCalls u = [])

/-- What has gone out, when the rows `sent` of each sheet have. -/
structure Delivering (P : String → List ChainCall) (sent : String → List RowChange)
    (f : MergeOutputFilter) : Prop where
  current : Named f.lastSheetName → sheetAt none f.chain = some f.lastSheetName
  begun : Named f.lastSheetName → f.lastSheetName ∈ f.startedSheets
  before : ∀ t, sent t ≠ [] → t ∈ f.startedSheets
  got : ∀ t, Named t → received (some t) none f.chain =
    (if t ∈ f.startedSheets then P t else []) ++ (sent t).map ChainCall.changeRow
  stray : ∀ s, (∀ t, s = some t → ¬Named t) → received s none f.chain = []

/-- The book has the sheet, or it can be made: it has final names. -/
def Creatable (flags : FilterFlags) (book : Option FilterBook) (u : SheetUnit) : Prop :=
  ∀ b, flags.createUnknownSheets = true → book = some b →
    u.sheetName ∈ b.sheets ∨ (u.haveName1 = true ∧ u.name1.names.length ≠ 0)

/-- What no part of `mergeAllDone` touches; sheets are only added to the book. -/
structure Frame (f f' : MergeOutputFilter) : Prop where
  flags : f'.flags = f.flags
  sheetUnits : f'.sheetUnits = f.sheetUnits
  rows : f'.rows = f.rows
  creatable : ∀ u, Creatable f.flags f.book u → Creatable f'.flags f'.book u

theorem Frame.refl (f : MergeOutputFilter) : Frame f f := ⟨rfl, rfl, rfl, fun _ h => h⟩

theorem Frame.trans {f f' f'' : MergeOutputFilter} (h : Frame f f')
    (h' : Frame f' f'') : Frame f f'' :=
  ⟨h'.flags.trans h.flags, h'.sheetUnits.trans h.sheetUnits, h'.rows.trans h.rows,
    fun u hu => h'.creatable u (h.creatable u hu)⟩

theorem createSheet_spec {f : MergeOutputFilter} {u : SheetUnit} (h : Creatable f.flags f.book u) :
    ∃ book, f.createSheet u = some { f with book := book } ∧ Frame f { f with book := book } := by
  unfold createSheet
  split
  · next b hc hb =>
    split
    · exact ⟨f.book, rfl, Frame.refl f⟩
    · next hmem =>
      obtain ⟨h1, hlen⟩ := (h b hc hb).resolve_left hmem
      rw [if_pos h1, if_neg hlen]
      refine ⟨some { b with sheets := b.sheets ++ [u.sheetName] }, rfl, rfl, rfl, rfl,
        fun v hv b' hc' hb' => ?_⟩
      cases hb'
      rcases hv b hc' hb with hv | hv
      · exact Or.inl (List.mem_append_left _ hv)
      · exact Or.inr hv
  · exact ⟨f.book, rfl, Frame.refl f⟩

section
variable {P : String → List ChainCall} {sent : String → List RowChange} {f : MergeOutputFilter}

/-- A sheet comes up: its `setSheet`, and its preamble if this is the first time. -/
theorem Delivering.heading (h : Delivering P sent f) {u : SheetUnit} (hu : Fits P u)
    {f' : MergeOutputFilter}
    {S Q : List ChainCall} (hS : S = if u.sheetName ≠ "" then [.setSheet u.sheetName] else [])
    (hQ : Q = if u.sheetName ∈ f.startedSheets then [] else preambleCalls u)
    (hchain : f'.chain = f.chain ++ S ++ Q) (hlast : f'.lastSheetName = u.sheetName)
    (hstarted : ∀ t, t ∈ f'.startedSheets ↔ t = u.sheetName ∨ t ∈ f.startedSheets) :
    Delivering P sent f' := by
  have hQc : ∀ c ∈ Q, IsChange c := by
    rw [hQ]
    split
    · simp
    · exact isChange_preambleCalls u
  have hat : Named u.sheetName → sheetAt none (f.chain ++ S) = some u.sheetName := by
    intro hn
    rw [hS, if_pos hn.1, sheetAt_append]
    rfl
  have hQnil : ¬Named u.sheetName → Q = [] := by
    intro hn
    rw [hQ, hu.2 hn, ite_self]
  have hrec : ∀ s, received s none f'.chain =
      received s none f.chain ++ (if sheetAt none (f.chain ++ S) = s then Q else []) := by
    intro s
    have hnil : ∀ cur, received s cur S = [] := by
      intro cur
      rw [hS]
      split <;> rfl
    rw [hchain, received_append, received_append, hnil, List.append_nil, received_changes hQc]
  refine ⟨fun hn => ?_, fun _ => ?_, fun t ht => ?_, fun t ht => ?_, fun s hs => ?_⟩
  · rw [hlast] at hn ⊢
    rw [hchain, sheetAt_append, sheetAt_changes hQc, hat hn]
  · rw [hlast]
    exact (hstarted _).2 (Or.inl rfl)
  · exact (hstarted t).2 (Or.inr (h.before t ht))
  · rw [hrec, h.got t ht]
    by_cases hn : Named u.sheetName
    · rw [hat hn]
      by_cases heq : u.sheetName = t
      · subst heq
        rw [if_pos rfl,
          if_pos (show u.sheetName ∈ f'.startedSheets from (hstarted _).2 (Or.inl rfl)), hQ]
        by_cases hin : u.sheetName ∈ f.startedSheets
        · rw [if_pos hin, if_pos hin, List.append_nil]
        · have hnone : sent u.sheetName = [] := Decidable.not_not.1 fun hne => hin (h.before _ hne)
          rw [if_neg hin, if_neg hin, hnone, hu.1 hn]
          simp
      · rw [if_neg fun h => heq (Option.some.inj h), List.append_nil]
        have hiff : t ∈ f'.startedSheets ↔ t ∈ f.startedSheets := by
          rw [hstarted]
          exact ⟨fun h => h.resolve_left fun e => heq e.symm, Or.inr⟩
        simp only [hiff]
    · have hne : t ≠ u.sheetName := fun e => hn (e ▸ ht)
      have hiff : t ∈ f'.startedSheets ↔ t ∈ f.startedSheets := by
        rw [hstarted]
        exact ⟨fun h => h.resolve_left hne, Or.inr⟩
      rw [hQnil hn, ite_self, List.append_nil]
      simp only [hiff]
  · rw [hrec, h.stray s hs, List.nil_append]
    by_cases hn : Named u.sheetName
    · rw [hat hn, if_neg]
      intro hs'
      exact hs _ hs'.symm hn
    · rw [hQnil hn, ite_self]

/-- What `emitPreamble` leaves. -/
theorem emitPreamble_eq {f : MergeOutputFilter} {u : SheetUnit}
    (hlast : u.sheetName ≠ f.lastSheetName)
    {book : Option FilterBook} (hmade : f.createSheet u = some { f with book := book }) :
    f.emitPreamble u = some
      { f with
        book := book
        lastSheetName := u.sheetName
        startedSheets := if u.sheetName ∈ f.startedSheets then f.startedSheets
          else u.sheetName :: f.startedSheets
        chain := f.chain ++ (if u.sheetName ≠ "" then [.setSheet u.sheetName] else []) ++
          (if u.sheetName ∈ f.startedSheets then [] else preambleCalls u) } := by
  unfold emitPreamble
  rw [if_neg hlast, hmade, Option.map_some, Option.some.injEq]
  by_cases hname : u.sheetName = ""
  · by_cases hin : u.sheetName ∈ f.startedSheets
    · simp [hname, hname ▸ hin]
    · have hin' : "" ∉ f.startedSheets := hname ▸ hin
      simp [hname, hin', send]
  · by_cases hin : u.sheetName ∈ f.startedSheets
    · simp [hname, hin, send]
    · simp [hname, hin, send]

theorem emitPreamble_spec (h : Delivering P sent f) {u : SheetUnit} (hu : Fits P u)
    (hc : Creatable f.flags f.book u) :
    ∃ f', f.emitPreamble u = some f' ∧ Delivering P sent f' ∧ Frame f f' ∧
    f'.lastSheetName = u.sheetName := by
  by_cases hlast : u.sheetName = f.lastSheetName
  · exact ⟨f, if_pos hlast, h, Frame.refl f, hlast.symm⟩
  obtain ⟨book, hmade, hframe⟩ := createSheet_spec hc
  refine ⟨_, emitPreamble_eq hlast hmade, ?_, ⟨rfl, rfl, rfl, hframe.creatable⟩, rfl⟩
  refine h.heading hu rfl rfl rfl rfl fun t => ?_
  show t ∈ (if u.sheetName ∈ f.startedSheets then f.startedSheets
    else u.sheetName :: f.startedSheets) ↔ _
  split
  · next hin =>
    constructor
    · exact Or.inr
    · rintro (rfl | ht)
      · exact hin
      · exact ht
  · exact List.mem_cons

/-- A row goes out under the heading of its sheet. -/
theorem Delivering.row (h : Delivering P sent f) (hn : Named f.lastSheetName) (change : RowChange) :
    Delivering P (fun t => if t = f.lastSheetName then sent t ++ [change] else sent t)
    (f.send [.changeRow change]) := by
  have hcur := h.current hn
  have hone : ∀ c ∈ [ChainCall.changeRow change], IsChange c := by simp [IsChange]
  have hrec : ∀ s, received s none (f.chain ++ [.changeRow change]) =
      received s none f.chain ++ (if some f.lastSheetName =
        s then [.changeRow change] else []) := by
    intro s
    rw [received_append, hcur, received_changes hone]
  refine ⟨fun _ => ?_, fun _ => h.begun hn, fun t ht => ?_, fun t ht => ?_, fun s hs => ?_⟩
  · show sheetAt none (f.chain ++ [.changeRow change]) = _
    rw [sheetAt_append, sheetAt_changes hone, hcur]
    rfl
  · split at ht
    · next heq =>
      rw [heq]
      exact h.begun hn
    · exact h.before t ht
  · show received (some t) none (f.chain ++ [.changeRow change]) = _
    rw [hrec, h.got t ht]
    by_cases heq : t = f.lastSheetName
    · rw [if_pos (congrArg some heq.symm), if_pos heq, List.map_append, ← List.append_assoc]
      rfl
    · rw [if_neg fun e => heq (Option.some.inj e).symm, if_neg heq, List.append_nil]
      rfl
  · show received s none (f.chain ++ [.changeRow change]) = []
    rw [hrec, h.stray s hs, if_neg fun e => hs _ e.symm hn]
    rfl

/-- What a row needs to go out. -/
def Ready (P : String → List ChainCall) (f : MergeOutputFilter) (row : RowUnit) : Prop :=
  Named row.sheetName ∧ (f.unitOf row.sheetName).sheetName = row.sheetName ∧
  Fits P (f.unitOf row.sheetName) ∧
    Creatable f.flags f.book (f.unitOf row.sheetName)

theorem unitOf_frame {f f' : MergeOutputFilter} (h : Frame f f') (name : String) :
    f'.unitOf name = f.unitOf name := by
  unfold unitOf
  rw [h.sheetUnits]

theorem Ready.frame {f f' : MergeOutputFilter} {row : RowUnit} (h : Ready P f row)
    (hf : Frame f f') : Ready P f' row := by
  obtain ⟨h1, h2, h3, h4⟩ := h
  unfold Ready
  rw [unitOf_frame hf]
  exact ⟨h1, h2, h3, hf.creatable _ h4⟩

theorem emitRow_spec (hres : f.flags.resolve = "") (h : Delivering P sent f) {row : RowUnit}
    (hr : Ready P f row) : ∃ f', f.emitRow row = some f' ∧ Frame f f' ∧
      Delivering P (fun t => if t = row.sheetName then sent t ++ [row.change] else sent t) f' := by
  obtain ⟨hn, hname, hfits, hcreate⟩ := hr
  have hkeep : resolveChange "" row.change = some row.change := if_neg fun h => h.1 rfl
  unfold emitRow
  by_cases hlast : row.sheetName = f.lastSheetName
  · rw [if_neg (not_not_intro hlast), Option.map_some, hres, hkeep]
    refine ⟨f.send [.changeRow row.change], rfl, ⟨rfl, rfl, rfl, fun _ hu => hu⟩, ?_⟩
    have hsend := h.row (hlast ▸ hn) row.change
    rwa [← hlast] at hsend
  · obtain ⟨f', hf', hdel, hframe, hlast'⟩ := emitPreamble_spec h hfits hcreate
    rw [if_pos hlast, hf', Option.map_some, hframe.flags, hres, hkeep]
    refine ⟨f'.send [.changeRow row.change], rfl, hframe.trans ⟨rfl, rfl, rfl, fun _ hu => hu⟩, ?_⟩
    have hsend := hdel.row (by rw [hlast', hname]; exact hn) row.change
    rwa [hlast', hname] at hsend

/-- **A list of rows goes out**, sheet by sheet in order. -/
theorem emitRows_spec (rows : List RowUnit) :
    ∀ {sent : String → List RowChange} {f : MergeOutputFilter},
    f.flags.resolve = "" → Delivering P sent f → (∀ row ∈ rows, Ready P f row) →
    ∃ f', emitRows rows f = some f' ∧ Frame f f' ∧
      Delivering P
      (fun t => sent t ++ (rows.filter fun row => row.sheetName = t).map RowUnit.change) f' := by
  induction rows with
  | nil =>
    intro sent f _ h _
    refine ⟨f, rfl, Frame.refl f, ?_⟩
    simpa using h
  | cons row rows ih =>
    intro sent f hres h hr
    obtain ⟨f1, hf1, hframe1, h1⟩ := emitRow_spec hres h (hr row List.mem_cons_self)
    obtain ⟨f2, hf2, hframe2, h2⟩ := ih (by rw [hframe1.flags]; exact hres) h1
      fun r hmem => (hr r (List.mem_cons_of_mem row hmem)).frame hframe1
    refine ⟨f2, by rw [emitRows, hf1]; exact hf2, hframe1.trans hframe2, ?_⟩
    have hsame : (fun t => (if t = row.sheetName then sent t ++ [row.change] else sent t) ++
        (rows.filter fun r => r.sheetName = t).map RowUnit.change) =
        fun t => sent t ++ ((row :: rows).filter fun r => r.sheetName = t).map RowUnit.change := by
      funext t
      by_cases heq : t = row.sheetName
      · rw [if_pos heq, List.filter_cons_of_pos (by simpa using heq.symm), List.map_cons,
          List.append_assoc]
        rfl
      · rw [if_neg heq, List.filter_cons_of_neg (by simpa using fun e => heq e.symm)]
    rwa [hsame] at h2

/-- A unit comes up at the end of its sheet's rows, if it has to. -/
theorem emitPreambleIfNeeded_spec (h : Delivering P sent f) {u : SheetUnit} (hu : Fits P u)
    (hc : u.rowCount = 0 → (f.flags.canSchema = true ∨ u.orders.length > 0 ∨ u.pools.length > 0) →
      Creatable f.flags f.book u) :
    ∃ f', f.emitPreambleIfNeeded u = some f' ∧ Delivering P sent f' ∧ Frame f f' := by
  unfold emitPreambleIfNeeded
  by_cases hneed :
    u.rowCount = 0 ∧ (f.flags.canSchema = true ∨ u.orders.length > 0 ∨ u.pools.length > 0)
  · obtain ⟨f', hf', hdel, hframe, _⟩ := emitPreamble_spec h hu (hc hneed.1 hneed.2)
    exact ⟨f', by rw [if_pos hneed]; exact hf', hdel, hframe⟩
  · exact ⟨f, if_neg hneed, h, Frame.refl f⟩

/-- A unit that has something to send, or may have. -/
def Due (flags : FilterFlags) (u : SheetUnit) : Prop :=
  u.rowCount ≠ 0 ∨ flags.canSchema = true ∨ u.orders.length > 0 ∨ u.pools.length > 0

theorem emitPreambles_spec (units : List SheetUnit) :
    ∀ {f : MergeOutputFilter}, Delivering P sent f →
    (∀ u ∈ units, Fits P u ∧ (Due f.flags u → Creatable f.flags f.book u)) →
    ∃ f', emitPreambles units f = some f' ∧ Delivering P sent f' ∧ Frame f f' := by
  induction units with
  | nil => exact fun h _ => ⟨_, rfl, h, Frame.refl _⟩
  | cons u units ih =>
    intro f h hu
    obtain ⟨hfits, hc⟩ := hu u List.mem_cons_self
    obtain ⟨f1, hf1, h1, hframe1⟩ := emitPreambleIfNeeded_spec h hfits fun _ hd => hc (Or.inr hd)
    obtain ⟨f2, hf2, h2, hframe2⟩ := ih h1 fun v hv => by
      obtain ⟨hvf, hvc⟩ := hu v (List.mem_cons_of_mem u hv)
      exact ⟨hvf, fun hd => hframe1.creatable v (hvc (hframe1.flags ▸ hd))⟩
    exact ⟨f2, by rw [emitPreambles, hf1]; exact hf2, h2, hframe1.trans hframe2⟩

/-- Table by table: the rows of a table go out as often as the list has it. -/
theorem emitTables_spec (names : List String) :
    ∀ {sent : String → List RowChange} {f : MergeOutputFilter},
    f.flags.resolve = "" → Delivering P sent f → (∀ row ∈ f.rows, Ready P f row) →
    (∀ name ∈ names, Fits P (f.unitOf name) ∧
      (Due f.flags (f.unitOf name) → Creatable f.flags f.book (f.unitOf name))) →
    ∃ f', emitTables names f = some f' ∧ Frame f f' ∧
      Delivering P (fun t => sent t ++ (List.replicate (names.count t)
        ((f.rows.filter fun row => row.sheetName = t).map RowUnit.change)).flatten) f' := by
  induction names with
  | nil =>
    intro sent f _ h _ _
    refine ⟨f, rfl, Frame.refl f, ?_⟩
    simpa using h
  | cons name names ih =>
    intro sent f hres h hr hn
    obtain ⟨f1, hf1, hframe1, h1⟩ :=
      emitRows_spec (f.rows.filter fun row => row.sheetName = name) hres h
      fun row hrow => hr row (List.mem_of_mem_filter hrow)
    obtain ⟨hfits, hc⟩ := hn name List.mem_cons_self
    have hfits1 : Fits P (f1.unitOf name) := by
      rw [unitOf_frame hframe1]
      exact hfits
    obtain ⟨f2, hf2, h2, hframe2⟩ := emitPreambleIfNeeded_spec h1 hfits1 fun _ hd => by
      rw [unitOf_frame hframe1] at hd ⊢
      exact hframe1.creatable _ (hc (Or.inr (hframe1.flags ▸ hd)))
    have hframe := hframe1.trans hframe2
    obtain ⟨f3, hf3, hframe3, h3⟩ := ih (by rw [hframe.flags]; exact hres) h2
      (fun row hrow => (hr row (hframe.rows ▸ hrow)).frame hframe) fun other ho => by
        rw [unitOf_frame hframe, hframe.flags]
        obtain ⟨hof, hoc⟩ := hn other (List.mem_cons_of_mem name ho)
        exact ⟨hof, fun hd => hframe.flags ▸ hframe.creatable _ (hoc hd)⟩
    refine ⟨f3, by rw [emitTables, hf1, Option.bind_some, hf2]; exact hf3, hframe.trans hframe3, ?_⟩
    have hsame : (fun t => (sent t ++ (((f.rows.filter fun row => row.sheetName = name).filter
        fun row => row.sheetName = t).map RowUnit.change)) ++ (List.replicate (names.count t)
          ((f2.rows.filter fun row => row.sheetName = t).map RowUnit.change)).flatten) =
        fun t => sent t ++ (List.replicate ((name :: names).count t)
          ((f.rows.filter fun row => row.sheetName = t).map RowUnit.change)).flatten := by
      funext t
      rw [hframe.rows, List.append_assoc]
      congr 1
      by_cases heq : name = t
      · subst heq
        rw [List.count_cons_self, List.replicate_succ, List.flatten_cons, List.filter_filter]
        simp
      · rw [List.count_cons_of_ne heq, List.filter_filter]
        have hnone :
          (f.rows.filter fun row => decide (row.sheetName = t) && decide (row.sheetName = name)) =
          [] := by
          rw [List.filter_eq_nil_iff]
          intro row _ hrow
          simp only [Bool.and_eq_true, decide_eq_true_eq] at hrow
          exact heq (hrow.2.symm.trans hrow.1)
        rw [hnone]
        rfl
    rwa [hsame] at h3

end

/-! ## A whole run -/

section
variable (flags : FilterFlags) (book : Option FilterBook) (calls : List FilterCall)

/-- The filter when everything has been reported. -/
def held : MergeOutputFilter := calls.foldl call (start flags book)

/-- The row changes that are accepted for a table, and the same for columns, pools and names. -/
def acceptedRows (t : String) : List RowChange := (labelled "" calls).filterMap (rowOn flags t)

@[inherit_doc acceptedRows]
def acceptedColumns (t : String) : List OrderChange :=
  (labelled "" calls).filterMap (columnOn flags t)

@[inherit_doc acceptedRows]
def acceptedPools (t : String) : List PoolChange := (labelled "" calls).filterMap (poolOn flags t)

@[inherit_doc acceptedRows]
def acceptedNames (t : String) : List NameChange := (labelled "" calls).filterMap (nameOn flags t)

/-- The units that `mergeAllDone` goes through. -/
def visited (f : MergeOutputFilter) : List SheetUnit :=
  if f.desiredSheets.length < 2 then f.sheetUnits.map Prod.snd
  else f.flags.orderedTables.map f.unitOf

/-- The scan of the inserted rows finds no coined column. -/
def Uncoined : Prop :=
  flags.pool = true → flags.canSchema = true → active flags (calls.foldl sheetAfter "") = true →
    ∀ b, book = some b →
    ∀ t ∈ b.sheets, (∃ change ∈ acceptedRows flags calls t, change.mode = .insert) →
      ∀ schema, b.schemas.get? t = some schema → ∀ field ∈ flags.coined, field ∉ schema.2

/-- Nothing is asked for twice, left without a name, named twice, impossible to make or coined. -/
structure Orderly : Prop where
  distinct : flags.orderedTables.dedup.length < 2 ∨
    ∀ t, acceptedRows flags calls t ≠ [] → flags.orderedTables.count t ≤ 1
  named : ∀ ev ∈ labelled "" calls, FilterCall.IsChange ev.2 → active flags ev.1 = true → Named ev.1
  oneName : ∀ t, acceptedRows flags calls t ≠ [] → ∀ final,
    ((acceptedNames flags calls t).filter fun change => change.final == final).length ≤ 1
  creatable : ∀ u ∈ visited (held flags book calls), Due flags u → Creatable flags book u
  uncoined : Uncoined flags book calls

/-- The sheet gets its names, columns and pools, each once, and then its rows, each once and in
order. -/
def Delivered (t : String) (out : List ChainCall) : Prop :=
  ∃ pre, received (some t) none out = pre ++ (acceptedRows flags calls t).map .changeRow ∧
    pre.filterMap ChainCall.row? = [] ∧
    pre.filterMap ChainCall.column? = acceptedColumns flags calls t ∧
    pre.filterMap ChainCall.pool? = acceptedPools flags calls t ∧
    ∀ change ∈ acceptedNames flags calls t, pre.count (.changeName change) = 1

end

section
variable {flags : FilterFlags} {book : Option FilterBook} {calls : List FilterCall}

theorem mem_acceptedRows {t : String} {change : RowChange}
    (h : change ∈ acceptedRows flags calls t) :
    active flags t = true ∧ ∃ ev ∈ labelled "" calls, ev.1 = t ∧ FilterCall.IsChange ev.2 := by
  obtain ⟨⟨sheet, c⟩, hev, hon⟩ := List.mem_filterMap.1 h
  cases c with
  | changeRow c =>
    have hcond : sheet = t ∧ active flags t = true ∧ canMode flags c.mode = true := by
      unfold rowOn at hon
      simp only at hon
      split at hon
      · assumption
      · cases hon
    exact ⟨hcond.2.1, _, hev, hcond.1, trivial⟩
  | _ => cases hon

/-- A table with accepted rows is a named sheet. -/
theorem Orderly.named_of_rows (h : Orderly flags book calls) {t : String}
    (ht : acceptedRows flags calls t ≠ []) : Named t ∧ active flags t = true := by
  obtain ⟨change, hc⟩ := List.exists_mem_of_ne_nil _ ht
  obtain ⟨hact, ev, hev, rfl, hch⟩ := mem_acceptedRows hc
  exact ⟨h.named ev hev hch hact, hact⟩

theorem unitFor_unnamed (h : Orderly flags book calls) {t : String} (ht : ¬Named t) :
    (held flags book calls).unitFor t = { sheetName := t } := by
  have hstart : Holds flags book [] (start flags book) :=
    ⟨rfl, rfl, rfl, rfl, rfl, rfl, List.nodup_nil, fun table => ⟨rfl, rfl, rfl, rfl, rfl, rfl⟩,
      fun table => rfl⟩
  refine Holds.unitFor_run calls [] _ hstart fun ev hev hch hact he => ht ?_
  rw [← he]
  exact h.named ev hev hch hact

/-- The preamble of each sheet. -/
def preambleFor (flags : FilterFlags) (book : Option FilterBook) (calls : List FilterCall)
    (t : String) : List ChainCall :=
  preambleCalls ((held flags book calls).unitFor t)

theorem fits_unitFor (h : Orderly flags book calls) (t : String) :
    Fits (preambleFor flags book calls) ((held flags book calls).unitFor t) := by
  have hname := ((holds_run flags book calls).units t).sheetName
  change ((held flags book calls).unitFor t).sheetName = t at hname
  refine ⟨fun _ => ?_, fun hn => ?_⟩
  · rw [hname]
    rfl
  · rw [hname] at hn
    rw [unitFor_unnamed h hn]
    rfl

theorem fits_unitOf (h : Orderly flags book calls) (t : String) :
    Fits (preambleFor flags book calls) ((held flags book calls).unitOf t) := by
  unfold unitOf
  cases hget : (held flags book calls).sheetUnits.get? t with
  | none => exact ⟨fun hn => absurd rfl hn.1, fun _ => rfl⟩
  | some u =>
    have hfor : (held flags book calls).unitFor t = u := by
      unfold unitFor
      rw [hget]
      rfl
    have hfits := fits_unitFor h t
    rw [hfor] at hfits
    exact hfits

theorem fits_visited (h : Orderly flags book calls) {u : SheetUnit}
    (hu : u ∈ (held flags book calls).sheetUnits.map Prod.snd) :
    Fits (preambleFor flags book calls) u := by
  obtain ⟨⟨k, v⟩, hmem, rfl⟩ := List.mem_map.1 hu
  have hget := AssocMap.get?_of_mem (holds_run flags book calls).keys hmem
  have hfits := fits_unitOf h k
  unfold unitOf held at hfits
  rw [hget] at hfits
  exact hfits

/-- The unit of a table with accepted rows. -/
theorem unit_of_rows {t : String} (ht : acceptedRows flags calls t ≠ []) :
    ∃ u, (held flags book calls).sheetUnits.get? t = some u ∧ u.rowCount ≠ 0 ∧ u.sheetName = t := by
  have hold := (holds_run flags book calls).units t
  change HoldsUnit flags _ t ((held flags book calls).unitFor t) at hold
  have hcount := hold.rowCount
  have hpos : (acceptedRows flags calls t).length ≠ 0 := fun e => ht (List.length_eq_zero_iff.1 e)
  have hname := hold.sheetName
  unfold unitFor at hcount hname
  cases hget : (held flags book calls).sheetUnits.get? t with
  | none =>
    rw [hget] at hcount
    exact absurd hcount.symm hpos
  | some u =>
    rw [hget] at hcount hname
    exact ⟨u, rfl, fun e => hpos (hcount.symm.trans e), hname⟩

theorem visited_of_rows (h : Orderly flags book calls) {t : String}
    (ht : acceptedRows flags calls t ≠ [])
    {u : SheetUnit} (hu : (held flags book calls).sheetUnits.get? t = some u) :
    u ∈ visited (held flags book calls) := by
  unfold visited
  split
  · exact List.mem_map.2 ⟨(t, u), AssocMap.mem_of_get? hu, rfl⟩
  · next hlen =>
    have hheld := holds_run flags book calls
    have hmem : t ∈ flags.orderedTables := by
      have hact := (h.named_of_rows ht).2
      unfold active at hact
      rw [Bool.or_eq_true, List.isEmpty_iff, List.contains_iff_mem] at hact
      refine hact.resolve_left fun hnil => hlen ?_
      show (calls.foldl call (start flags book)).desiredSheets.length < 2
      rw [hheld.desired, hnil]
      decide
    refine List.mem_map.2 ⟨t, ?_, ?_⟩
    · show t ∈ (calls.foldl call (start flags book)).flags.orderedTables
      rw [hheld.flags_eq]
      exact hmem
    · unfold unitOf
      rw [hu]
      rfl

theorem rows_held (t : String) :
    ((held flags book calls).rows.filter fun row => row.sheetName = t).map RowUnit.change =
    acceptedRows flags calls t :=
  (holds_run flags book calls).rows t

theorem ready_held (h : Orderly flags book calls) {row : RowUnit}
    (hrow : row ∈ (held flags book calls).rows) :
    Ready (preambleFor flags book calls) (held flags book calls) row := by
  have hne : acceptedRows flags calls row.sheetName ≠ [] := by
    rw [← @rows_held flags book calls row.sheetName]
    exact List.ne_nil_of_mem (List.mem_map_of_mem (List.mem_filter.2 ⟨hrow, by simp⟩))
  obtain ⟨u, hget, hcount, hname⟩ := @unit_of_rows flags book calls _ hne
  have hunit : (held flags book calls).unitOf row.sheetName = u := by
    unfold unitOf
    rw [hget]
    rfl
  have hheld := holds_run flags book calls
  refine ⟨(h.named_of_rows hne).1, hunit ▸ hname, fits_unitOf h _, ?_⟩
  rw [hunit]
  have hc := h.creatable u (visited_of_rows h hne hget) (Or.inl hcount)
  show Creatable (calls.foldl call (start flags book)).flags
    (calls.foldl call (start flags book)).book u
  rwa [hheld.flags_eq, hheld.book_eq]

theorem delivering_held :
    Delivering (preambleFor flags book calls) (fun _ => []) (held flags book calls) := by
  have hheld := holds_run flags book calls
  have hchain : (held flags book calls).chain = [] := hheld.chain
  have hlast : (held flags book calls).lastSheetName = "[[ COOPY - SHEET NOT SET ]]" := hheld.last
  have hstarted : (held flags book calls).startedSheets = [] := hheld.started
  refine ⟨fun hn => absurd hlast hn.2, fun hn => absurd hlast hn.2, fun t ht => absurd rfl ht,
    fun t _ => ?_, fun s _ => ?_⟩
  · rw [hchain, hstarted]
    rfl
  · rw [hchain]
    rfl

theorem creatable_held (h : Orderly flags book calls) {u : SheetUnit}
    (hu : u ∈ visited (held flags book calls)) (hd : Due (held flags book calls).flags u) :
    Creatable (held flags book calls).flags (held flags book calls).book u := by
  have hheld := holds_run flags book calls
  have hf : (held flags book calls).flags = flags := hheld.flags_eq
  have hb : (held flags book calls).book = book := hheld.book_eq
  rw [hf] at hd
  rw [hf, hb]
  exact h.creatable u hu hd

theorem addPoolsFromFlags_eq_self {f : MergeOutputFilter} {schema : String × List String}
    (h : f.isActiveTable = true → f.flags.canSchema = true →
      ∀ field ∈ f.flags.coined, field ∉ schema.2) :
    f.addPoolsFromFlags schema = f := by
  by_cases hok : f.isActiveTable = true ∧ f.flags.canSchema = true
  · have hnone : ∀ field ∈ f.flags.coined, (schema.2.filter fun name => name = field) = [] := by
      intro field hfield
      rw [List.filter_eq_nil_iff]
      intro name hname he
      exact h hok.1 hok.2 field hfield (of_decide_eq_true he ▸ hname)
    refine foldl_eq_self f.flags.coined fun field hfield => ?_
    rw [hnone field hfield]
    rfl
  · have hrefused : ∀ change, (f.changePool change).1 = f := by
      intro change
      unfold changePool
      split
      · rfl
      split
      · rfl
      next h1 h2 => exact absurd ⟨Bool.not_eq_false _ ▸ h1, Bool.not_eq_false _ ▸ h2⟩ hok
    exact foldl_eq_self f.flags.coined fun field _ =>
      foldl_eq_self _ fun name _ => hrefused _

theorem scanRows_eq_self {f : MergeOutputFilter} (rows : List RowUnit)
    (h : ∀ row ∈ rows, row.change.mode = .insert → ∀ b, f.book = some b → row.sheetName ∈ b.sheets →
      ∀ schema, b.schemas.get? row.sheetName = some schema → f.addPoolsFromFlags schema = f) :
    ∀ seen, scanRows rows seen f = f := by
  induction rows with
  | nil => exact fun seen => rfl
  | cons row rows ih =>
    intro seen
    have hrest := ih fun r hr => h r (List.mem_cons_of_mem row hr)
    unfold scanRows
    split
    · next hins =>
      split
      · exact hrest seen
      · next b hb =>
        split
        · next hmem =>
          split
          · next schema hget =>
            rw [h row List.mem_cons_self hins.1 b hb hmem schema hget]
            exact hrest _
          · exact hrest _
        · exact hrest _
    · exact hrest seen

theorem sheetName_run (calls : List FilterCall) : ∀ f : MergeOutputFilter,
    (calls.foldl call f).sheetName = calls.foldl sheetAfter f.sheetName := by
  induction calls with
  | nil => exact fun f => rfl
  | cons c calls ih =>
    intro f
    rw [List.foldl_cons, List.foldl_cons, ih, sheetName_call]

/-- Without coined columns the scan of the inserted rows changes nothing. -/
theorem scanPools_held (h : Uncoined flags book calls) :
    (held flags book calls).scanPools = held flags book calls := by
  have hheld := holds_run flags book calls
  have hflags : (held flags book calls).flags = flags := hheld.flags_eq
  have hbook : (held flags book calls).book = book := hheld.book_eq
  have hactive :
    (held flags book calls).isActiveTable = active flags (held flags book calls).sheetName :=
    hheld.isActiveTable
  have hsheet : (held flags book calls).sheetName = calls.foldl sheetAfter "" :=
    sheetName_run calls _
  unfold scanPools
  split
  · next hpool =>
    refine scanRows_eq_self _ (fun row hrow hins b hb hmem schema hget => ?_) []
    refine addPoolsFromFlags_eq_self fun hact hcan => ?_
    rw [hflags] at hpool hcan ⊢
    rw [hactive, hsheet] at hact
    have haccepted : row.change ∈ acceptedRows flags calls row.sheetName := by
      rw [← @rows_held flags book calls row.sheetName]
      exact List.mem_map_of_mem (List.mem_filter.2 ⟨hrow, by simp⟩)
    exact h hpool hcan hact b (hbook ▸ hb) _ hmem ⟨_, haccepted, hins⟩ schema hget
  · rfl

/-- **All that was held goes out**: the accepted rows of each sheet. -/
theorem mergeAllDone_spec (hres : flags.resolve = "") (h : Orderly flags book calls) :
    ∃ f', (held flags book calls).mergeAllDone = some (f'.send [.mergeDone, .mergeAllDone]) ∧
      Delivering (preambleFor flags book calls) (acceptedRows flags calls) f' := by
  have hheld := holds_run flags book calls
  have hflags : (held flags book calls).flags = flags := hheld.flags_eq
  have hdesired : (held flags book calls).desiredSheets = flags.orderedTables.dedup := hheld.desired
  have hres' : (held flags book calls).flags.resolve = "" := by rw [hflags]; exact hres
  unfold mergeAllDone
  rw [scanPools_held h.uncoined]
  unfold emitAll
  by_cases hlen : (held flags book calls).desiredSheets.length < 2
  · obtain ⟨f1, hf1, hframe1, h1⟩ :=
      emitRows_spec (held flags book calls).rows hres' delivering_held
      fun row hrow => ready_held h hrow
    have hunits :
      ∀ u ∈ ((held flags book calls).sheetUnits.mergeSort fun a b => decide (a.1 ≤ b.1)).map Prod.snd,
        Fits (preambleFor flags book calls) u ∧
        (Due f1.flags u → Creatable f1.flags f1.book u) := by
      intro u hu
      have hmem : u ∈ (held flags book calls).sheetUnits.map Prod.snd :=
        ((List.mergeSort_perm _ _).map Prod.snd).mem_iff.1 hu
      refine ⟨fits_visited h hmem,
        fun hd => hframe1.creatable u (creatable_held h ?_ (hframe1.flags ▸ hd))⟩
      unfold visited
      rw [if_pos hlen]
      exact hmem
    obtain ⟨f2, hf2, h2, _⟩ := emitPreambles_spec _ h1 hunits
    refine ⟨f2, by rw [if_pos hlen, hf1, Option.bind_some, hf2]; rfl, ?_⟩
    simpa only [List.nil_append, rows_held] using h2
  · have hnames : ∀ name ∈ (held flags book calls).flags.orderedTables,
        Fits (preambleFor flags book calls) ((held flags book calls).unitOf name) ∧
          (Due (held flags book calls).flags ((held flags book calls).unitOf name) →
            Creatable (held flags book calls).flags (held flags book calls).book
              ((held flags book calls).unitOf name)) := by
      intro name hname
      refine ⟨fits_unitOf h name, fun hd => creatable_held h ?_ hd⟩
      unfold visited
      rw [if_neg hlen]
      exact List.mem_map_of_mem hname
    obtain ⟨f1, hf1, _, h1⟩ :=
      emitTables_spec _ hres' delivering_held (fun row hrow => ready_held h hrow) hnames
    refine ⟨f1, by rw [if_neg hlen, hf1]; rfl, ?_⟩
    have hsent :
      (fun t => [] ++ (List.replicate ((held flags book calls).flags.orderedTables.count t)
        (((held flags book calls).rows.filter fun row => row.sheetName = t).map
          RowUnit.change)).flatten) =
        acceptedRows flags calls := by
      funext t
      rw [List.nil_append, rows_held, hflags]
      by_cases ht : acceptedRows flags calls t = []
      · rw [ht]
        simp
      · have hle := (h.distinct.resolve_left (by rw [← hdesired]; exact hlen)) t ht
        have hmem : t ∈ flags.orderedTables := by
          have hact := (h.named_of_rows ht).2
          unfold active at hact
          rw [Bool.or_eq_true, List.isEmpty_iff, List.contains_iff_mem] at hact
          refine hact.resolve_left fun hnil => hlen ?_
          rw [hdesired, hnil]
          decide
        have hone : flags.orderedTables.count t = 1 := by
          have := List.count_pos_iff.2 hmem
          omega
        rw [hone]
        simp
    rwa [hsent] at h1

theorem received_done (s cur : Option String) : received s cur [.mergeDone, .mergeAllDone] = [] :=
  rfl

theorem filterMap_preambleCalls {β : Type} (u : SheetUnit) (g : ChainCall → Option β)
    (hname : ∀ change, g (.changeName change) = none) :
    (preambleCalls u).filterMap g =
      (u.orders.map ChainCall.changeColumn).filterMap g ++
      (u.pools.map ChainCall.changePool).filterMap g := by
  have hone : ∀ (b : Bool) change, (if b then [ChainCall.changeName change] else []).filterMap g =
    [] := by
    intro b change
    cases b
    · rfl
    · exact List.filterMap_cons_none (hname change)
  unfold preambleCalls
  rw [List.filterMap_append, List.filterMap_append, List.filterMap_append, hone, hone,
    List.nil_append, List.append_nil]

theorem count_preambleCalls (u : SheetUnit) (change : NameChange) :
    (preambleCalls u).count (.changeName change) =
      (if u.haveName0 = true ∧ u.name0 = change then 1 else 0) +
      (if u.haveName1 = true ∧ u.name1 = change then 1 else 0) := by
  have hcol : (u.orders.map ChainCall.changeColumn).count (.changeName change) = 0 := by
    rw [List.count_eq_zero]
    simp
  have hpool : (u.pools.map ChainCall.changePool).count (.changeName change) = 0 := by
    rw [List.count_eq_zero]
    simp
  have hone :
    ∀ (b : Bool) other, (if b then [ChainCall.changeName other] else []).count
    (.changeName change) =
      if b = true ∧ other = change then 1 else 0 := by
    intro b other
    cases b with
    | false => rfl
    | true => simp [List.count_cons]
  unfold preambleCalls
  rw [List.count_append, List.count_append, List.count_append, hone, hone, hcol, hpool]
  omega

/-- The only one of its kind is the last. -/
theorem lastName_of_mem {final : Bool} {names : List NameChange} {change : NameChange}
    (hmem : change ∈ names)
    (hf : change.final = final) (hone : (names.filter fun c => c.final == final).length ≤ 1) :
    lastName final names = some change := by
  have hin : change ∈ names.filter fun c => c.final == final :=
    List.mem_filter.2 ⟨hmem, by simpa using hf⟩
  unfold lastName
  cases hl : names.filter fun c => c.final == final with
  | nil =>
    rw [hl] at hin
    cases hin
  | cons a rest =>
    rw [hl] at hin hone
    have hrest : rest = [] := by
      rw [← List.length_eq_zero_iff]
      simpa using hone
    subst hrest
    rw [List.mem_singleton.1 hin]
    rfl

theorem delivered_preamble (h : Orderly flags book calls) {t : String}
    (ht : acceptedRows flags calls t ≠ []) :
    (preambleFor flags book calls t).filterMap ChainCall.column? = acceptedColumns flags calls t ∧
      (preambleFor flags book calls t).filterMap ChainCall.pool? = acceptedPools flags calls t ∧
      ∀ change ∈ acceptedNames flags calls t, (preambleFor flags book calls t).count
      (.changeName change) = 1 := by
  have hold := (holds_run flags book calls).units t
  change HoldsUnit flags _ t ((held flags book calls).unitFor t) at hold
  generalize hu : (held flags book calls).unitFor t = u at hold
  have hpre : preambleFor flags book calls t = preambleCalls u := by
    rw [← hu]
    rfl
  rw [hpre]
  refine ⟨?_, ?_, fun change hc => ?_⟩
  · rw [filterMap_preambleCalls u _ fun _ => rfl, List.filterMap_map, List.filterMap_map,
      acceptedColumns, ← hold.orders]
    simp [Function.comp_def, ChainCall.column?]
  · rw [filterMap_preambleCalls u _ fun _ => rfl, List.filterMap_map, List.filterMap_map,
      acceptedPools, ← hold.pools]
    simp [Function.comp_def, ChainCall.pool?]
  · have hlast := lastName_of_mem hc rfl (h.oneName t ht change.final)
    have h0 := hold.name0
    have h1 := hold.name1
    rw [count_preambleCalls]
    cases hfinal : change.final with
    | false =>
      rw [hfinal] at hlast
      cases hhave : u.haveName0 with
      | false =>
        rw [hhave, if_neg (by decide)] at h0
        exact absurd (hlast.symm.trans h0) (by simp)
      | true =>
        rw [hhave, if_pos rfl] at h0
        have hname : u.name0 = change := Option.some.inj (h0.symm.trans hlast)
        have hother : ¬(u.haveName1 = true ∧ u.name1 = change) := by
          rintro ⟨hh, he⟩
          rw [hh, if_pos rfl, he, hfinal] at h1
          exact Bool.false_ne_true h1.1
        rw [if_pos ⟨rfl, hname⟩, if_neg hother]
    | true =>
      rw [hfinal] at hlast
      cases hhave : u.haveName1 with
      | false =>
        rw [hhave, if_neg (by decide)] at h1
        exact absurd (hlast.symm.trans h1) (by simp)
      | true =>
        rw [hhave, if_pos rfl] at h1
        have hother : ¬(u.haveName0 = true ∧ u.name0 = change) := by
          rintro ⟨hh, he⟩
          rw [hh, if_pos rfl, he] at h0
          have hmem := List.mem_of_getLast? h0
          have hfalse := (List.mem_filter.1 hmem).2
          rw [hfinal] at hfalse
          cases hfalse
        rw [if_neg hother, if_pos ⟨rfl, h1.2 change hlast⟩]

/-- **Everything once.**  In an orderly run that resolves nothing, every sheet with accepted rows
gets its names, columns, pools and rows, and no row is taken as one of another sheet. -/
theorem delivers_once (flags : FilterFlags) (book : Option FilterBook) (calls : List FilterCall)
    (hres : flags.resolve = "") (h : Orderly flags book calls) :
    ∃ out, run flags book calls = some out ∧
      (∀ t, acceptedRows flags calls t ≠ [] → Delivered flags calls t out) ∧
      ∀ s, (received s none out).filterMap ChainCall.row? = (s.map (acceptedRows flags calls)).getD
      [] := by
  obtain ⟨f, hdone, hdel⟩ := mergeAllDone_spec hres h
  have hrec : ∀ s, received s none (f.chain ++ [.mergeDone, .mergeAllDone]) =
    received s none f.chain := by
    intro s
    rw [received_append, received_done, List.append_nil]
  have hrows :
    ∀ changes : List RowChange, (changes.map ChainCall.changeRow).filterMap ChainCall.row? =
    changes := by
    intro changes
    rw [List.filterMap_map]
    simp [Function.comp_def, ChainCall.row?]
  refine ⟨f.chain ++ [.mergeDone, .mergeAllDone], ?_, fun t ht => ?_, fun s => ?_⟩
  · show (held flags book calls).mergeAllDone.map chain = _
    rw [hdone]
    rfl
  · obtain ⟨hcol, hpool, hname⟩ := delivered_preamble h ht
    refine ⟨preambleFor flags book calls t, ?_, rows_preambleCalls _, hcol, hpool, hname⟩
    rw [hrec, hdel.got t (h.named_of_rows ht).1, if_pos (hdel.before t ht)]
  · rw [hrec]
    by_cases hn : ∃ t, s = some t ∧ Named t
    · obtain ⟨t, rfl, hn⟩ := hn
      rw [hdel.got t hn, List.filterMap_append, hrows]
      split
      · rw [preambleFor, rows_preambleCalls]
        rfl
      · rfl
    · rw [hdel.stray s fun t hs ht => hn ⟨t, hs, ht⟩]
      cases s with
      | none => rfl
      | some t =>
        have hnone : acceptedRows flags calls t = [] :=
          Decidable.not_not.1 fun hne => hn ⟨t, rfl, (h.named_of_rows hne).1⟩
        rw [Option.map_some, Option.getD_some, hnone]
        rfl

/-- A row of a table with one column. -/
def inserted (text : String) : RowChange where
  mode := .insert
  val := [("k", ⟨text, false⟩)]
  allNames := ["k"]

/-- Two sheets, turn about, with names for the first and a column change for the second. -/
def turnAbout : List FilterCall :=
  [.setSheet "a", .changeName ⟨false, true, ["k"]⟩, .changeRow (inserted "1"),
    .setSheet "b", .changeColumn
    { indicesBefore := [0]
      namesBefore := ["j"]
      indicesAfter := [0]
      namesAfter := ["k"]
      mode := .rename },
    .changeRow (inserted "2"), .setSheet "a", .changeRow (inserted "3")]

/-- Two tables, with a pool and a book that has one of them. -/
def twoTables : FilterFlags :=
  { orderedTables := ["b", "a"], createUnknownSheets := true, coined := ["id"], pool := true }

@[inherit_doc twoTables]
def oneSheet : Option FilterBook := some { sheets := ["a"], schemas := [("a", ("a", ["k"]))] }

/-- The rows of `b` and then those of `a`, as the list has the tables. -/
theorem delivers_once_turnAbout :
    ∃ out, run twoTables oneSheet turnAbout = some out ∧
      (∀ t, acceptedRows twoTables turnAbout t ≠ [] → Delivered twoTables turnAbout t out) ∧
      ∀ s, (received s none out).filterMap ChainCall.row? =
      (s.map (acceptedRows twoTables turnAbout)).getD [] := by
  refine delivers_once twoTables oneSheet turnAbout rfl ⟨Or.inr fun t _ => ?_, ?_,
    fun t _ final => ?_, ?_, ?_⟩
  · exact List.nodup_iff_count_le_one.1 (by decide) t
  · intro ev hev hch _
    have hnames : ∀ ev ∈ labelled "" turnAbout, Named ev.1 := by decide
    exact hnames ev hev
  · refine Nat.le_trans (List.length_filter_le _ _) ?_
    simp only [acceptedNames, turnAbout, labelled, sheetAfter, List.filterMap, nameOn]
    split
    · exact Nat.zero_le 1
    · exact Nat.le_refl 1
  · intro u hu _ b _ hb
    cases hb
    have hmade : ∀ u ∈ visited (held twoTables oneSheet turnAbout),
        u.sheetName ∈ ["a"] ∨ (u.haveName1 = true ∧ u.name1.names.length ≠ 0) := by decide
    exact hmade u hu
  · intro _ _ _ b hb t ht _ schema hget
    cases hb
    cases List.mem_singleton.1 ht
    cases hget
    decide

/-- A table asked for twice beside another: its row goes out twice. -/
theorem delivers_twice :
    ¬∃ out,
    run { orderedTables := ["a", "b", "a"] } none [.setSheet "a", .changeRow (inserted "1")] =
    some out ∧
      Delivered { orderedTables := ["a", "b", "a"] } [.setSheet "a", .changeRow (inserted "1")] "a"
      out := by
  rintro ⟨out, hrun, pre, hrec, hpre, -⟩
  have hall :
    run { orderedTables := ["a", "b", "a"] } none [.setSheet "a", .changeRow (inserted "1")] =
      some [.setSheet "a", .changeName ⟨true, true, ["k"]⟩, .changeRow (inserted "1"),
        .setSheet "a", .changeRow (inserted "1"), .mergeDone, .mergeAllDone] := by
    decide
  have hout := Option.some.inj (hrun.symm.trans hall)
  have hrows := congrArg (fun calls => (calls.filterMap ChainCall.row?).length) hrec
  simp only [List.filterMap_append, hpre] at hrows
  rw [hout] at hrows
  exact absurd hrows (by decide)

end

end MergeOutputFilter

end Coopy
