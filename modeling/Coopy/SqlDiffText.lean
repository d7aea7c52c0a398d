import Coopy.Lib.SqlText
import Coopy.MergeOutputSqlDiff
import Coopy.SqlCompare
import Coopy.SqlQuoting

/-!
# The statements that are printed

A name comes through if it is quoted, or is a word that can stand for a name as it is; and no text
goes on behind an end mark.  Then the line that is printed for a change is read as the statement
that is meant.

    Readable n → the text of n is read as the name n                                (Readable.names)
    the names and texts of a change come through → its line is read as its statement    (prints_row)
-/

namespace Coopy

open Lib Tdiff

namespace MergeOutputSqlDiff

/-! ## The dialect -/

def delimiter (variant : String) : Delimiter := if variant = "access" then .bracket else .double

theorem getSqlQuote_eq (variant : String) :
    getSqlQuote variant = ((delimiter variant).opening, Delimiter.single.opening) := by
  unfold getSqlQuote delimiter
  split
  · rfl
  · rfl

/-- The statements are read with the delimiters they are written with; `reserved` are the words that
are no names. -/
def dialect (variant : String) (reserved : String → Bool) : Sql.Dialect where
  opening := (delimiter variant).opening
  closing := (delimiter variant).closing
  reserved := reserved
  opening_special := by cases delimiter variant <;> decide
  closing_special := by cases delimiter variant <;> decide

/-- A name that comes through. -/
structure Readable (variant : String) (reserved : String → Bool) (n : String) : Prop where
  no_end : '\x00' ∉ n.toList
  quoted : (n.toList.any fun c => !isWordChar c) = true → delimiter variant = .bracket →
    paired n.toList = true
  bare : (n.toList.any fun c => !isWordChar c) = false → Sql.isBare n.toList = true ∧
    reserved n = false

section
variable {variant : String} {reserved : String → Bool} {n : String}

theorem Readable.names (h : Readable variant reserved n) :
    (dialect variant reserved).Names (quoteSql n.toList (delimiter variant).opening false) n := by
  rw [quoteSql_eq, Bool.false_or]
  cases hhard : n.toList.any fun c => !isWordChar c with
  | true =>
    rw [if_pos rfl, (body_eq_iff _ _).2 (h.quoted hhard)]
    have hnames := Sql.Dialect.Names.quoted (d := dialect variant reserved) n.toList
    rw [String.ofList_toList] at hnames
    exact hnames
  | false =>
    obtain ⟨hbare, hres⟩ := h.bare hhard
    rw [if_neg Bool.false_ne_true]
    have hnames :=
      Sql.Dialect.Names.bare (d := dialect variant reserved) hbare
        (by rw [String.ofList_toList]; exact hres)
    rw [String.ofList_toList] at hnames
    exact hnames

theorem valueText_values (c : SheetCell) :
    Sql.Values (valueText '\'' c) (RowChange.sqlValue c) := by
  unfold valueText RowChange.sqlValue
  split
  · exact Sql.Values.null
  · have htext : quoteSql c.text.toList '\'' true =
      '\'' :: doubleMark '\'' c.text.toList ++ ['\''] := by
      rw [show '\'' = Delimiter.single.opening from rfl, quoteSql_eq, Bool.true_or, if_pos rfl,
        (body_eq_iff .single _).2 (fun h => by cases h)]
      rfl
    have hvalues := Sql.Values.text c.text.toList
    rw [String.ofList_toList] at hvalues
    rw [htext]
    exact hvalues

/-! ## No end marks -/

theorem nul_not_mem_quoteSql {x : List Char} (h : '\x00' ∉ x) (d : Delimiter) (always : Bool) :
    '\x00' ∉ quoteSql x d.opening always := by
  have hdel : '\x00' ≠ d.opening ∧ '\x00' ≠ d.closing := by cases d <;> decide
  have hbody : '\x00' ∉ body d x := by
    intro hin
    obtain ⟨c, hc, hin⟩ := List.mem_flatMap.1 hin
    split at hin
    · rw [List.mem_singleton.1 hin] at h
      exact h hc
    · rcases List.mem_cons.1 hin with he | hin
      · exact hdel.1 he
      · exact hdel.2 (List.mem_singleton.1 hin)
  rw [quoteSql_eq]
  split
  · rw [List.mem_append, List.mem_cons, List.mem_singleton]
    rintro ((he | hin) | he)
    · exact hdel.1 he
    · exact hbody hin
    · exact hdel.2 he
  · exact h

/-- The text of a cell ends where it ends. -/
def Clean (c : SheetCell) : Prop := c.escaped = true ∨ '\x00' ∉ c.text.toList

theorem nul_not_mem_valueText {c : SheetCell} (h : Clean c) : '\x00' ∉ valueText '\'' c := by
  unfold valueText
  split
  · decide
  · next hesc => exact nul_not_mem_quoteSql (h.resolve_left hesc) .single true

theorem nul_not_mem_intercalate {glue : List Char} (hglue : '\x00' ∉ glue)
    {parts : List (List Char)}
    (h : ∀ part ∈ parts, '\x00' ∉ part) : '\x00' ∉ glue.intercalate parts := by
  induction parts with
  | nil => exact List.not_mem_nil
  | cons part parts ih =>
    obtain ⟨hpart, hparts⟩ := List.forall_mem_cons.1 h
    cases parts with
    | nil => rwa [List.intercalate_singleton]
    | cons next parts =>
      rw [List.intercalate_cons_cons, List.mem_append, List.mem_append]
      rintro ((hin | hin) | hin)
      · exact hpart hin
      · exact hglue hin
      · exact ih hparts hin

end

/-! ## The entries of a change -/

/-- The entries of a map as SQL has them, in the order in which they are printed. -/
def sqlEntries (m : AssocMap String SheetCell) : AssocMap String (Option String) :=
  (inOrder m).map fun e => (e.1, RowChange.sqlValue e.2)

theorem inOrder_perm (m : AssocMap String SheetCell) : (inOrder m).Perm m :=
  List.perm_insertionSort _ _

theorem inOrder_ne_nil {m : AssocMap String SheetCell} (h : m ≠ []) : inOrder m ≠ [] := fun hn =>
  h (List.length_eq_zero_iff.1 (by rw [← (inOrder_perm m).length_eq, hn]; rfl))

theorem keys_inOrder (m : AssocMap String SheetCell) : (AssocMap.keys (inOrder m)).Perm m.keys :=
  (inOrder_perm m).map _

theorem keys_sqlEntries (m : AssocMap String SheetCell) : (sqlEntries m).keys.Perm m.keys := by
  have hkeys : (sqlEntries m).keys = AssocMap.keys (inOrder m) := by
    unfold sqlEntries AssocMap.keys
    rw [List.map_map]
    rfl
  rw [hkeys]
  exact keys_inOrder m

theorem mem_sqlEntries {m : AssocMap String SheetCell} {P : String × Option String → Prop} :
    (∀ e ∈ sqlEntries m, P e) ↔ ∀ e ∈ m, P (e.1, RowChange.sqlValue e.2) := by
  unfold sqlEntries
  rw [List.forall_mem_map]
  exact forall_congr' fun e => by rw [(inOrder_perm m).mem_iff]

theorem get?_map_sqlValue (m : AssocMap String SheetCell) (n : String) :
    AssocMap.get? (m.map fun e => (e.1, RowChange.sqlValue e.2)) n =
    (m.get? n).map RowChange.sqlValue := by
  induction m with
  | nil => rfl
  | cons e m ih =>
    rw [List.map_cons, AssocMap.get?_cons, AssocMap.get?_cons, ih]
    split
    · rfl
    · rfl

theorem get?_sqlEntries {m : AssocMap String SheetCell} (h : m.keys.Nodup) (n : String) :
    (sqlEntries m).get? n = (m.get? n).map RowChange.sqlValue := by
  unfold sqlEntries
  rw [get?_map_sqlValue, AssocMap.get?_perm ((keys_inOrder m).nodup_iff.2 h) (inOrder_perm m)]

/-- All names and values of a map come through. -/
def Printable (variant : String) (reserved : String → Bool)
    (m : AssocMap String SheetCell) : Prop :=
  ∀ e ∈ m, Readable variant reserved e.1 ∧ Clean e.2

section
variable {variant : String} {reserved : String → Bool} {m : AssocMap String SheetCell}

/-- `name=value`, as `getText` writes it. -/
def assigned (variant : String) (e : String × SheetCell) : List Char :=
  quoteSql e.1.toList (delimiter variant).opening false ++ '=' :: valueText '\'' e.2

theorem Printable.inOrder (h : Printable variant reserved m) :
    ∀ e ∈ inOrder m, Readable variant reserved e.1 ∧ Clean e.2 :=
  fun e he => h e ((inOrder_perm m).mem_iff.1 he)

theorem pairs_assigned (h : Printable variant reserved m) :
    List.Forall₂ (dialect variant reserved).Pairs ((inOrder m).map (assigned variant))
    (sqlEntries m) := by
  unfold sqlEntries
  rw [List.forall₂_map_left_iff, List.forall₂_map_right_iff]
  exact List.forall₂_same.2 fun e he => ⟨_, _, rfl, (h.inOrder e he).1.names, valueText_values e.2⟩

theorem names_printed (h : Printable variant reserved m) :
    List.Forall₂ (dialect variant reserved).Names
      ((inOrder m).map fun e => quoteSql e.1.toList (delimiter variant).opening false)
        (sqlEntries m).keys := by
  unfold sqlEntries AssocMap.keys
  rw [List.map_map, List.forall₂_map_left_iff, List.forall₂_map_right_iff]
  exact List.forall₂_same.2 fun e he => (h.inOrder e he).1.names

theorem values_printed (m : AssocMap String SheetCell) :
    List.Forall₂ Sql.Values ((inOrder m).map fun e => valueText '\'' e.2)
    ((sqlEntries m).map Prod.snd) := by
  unfold sqlEntries
  rw [List.map_map, List.forall₂_map_left_iff, List.forall₂_map_right_iff]
  exact List.forall₂_same.2 fun e _ => valueText_values e.2

theorem cString_assigned (h : Printable variant reserved m) {glue : List Char}
    (hglue : '\x00' ∉ glue) : cString (glue.intercalate ((inOrder m).map (assigned variant))) =
    glue.intercalate ((inOrder m).map (assigned variant)) := by
  refine cString_of_not_mem (nul_not_mem_intercalate hglue (List.forall_mem_map.2 fun e he => ?_))
  obtain ⟨hname, hclean⟩ := h.inOrder e he
  unfold assigned
  rw [List.mem_append, List.mem_cons]
  rintro (hin | hin | hin)
  · exact nul_not_mem_quoteSql hname.no_end _ _ hin
  · cases hin
  · exact nul_not_mem_valueText hclean hin

theorem cString_names (h : Printable variant reserved m) :
    cString
      ([',', ' '].intercalate
        ((inOrder m).map fun e => quoteSql e.1.toList (delimiter variant).opening false)) =
      [',', ' '].intercalate
        ((inOrder m).map fun e => quoteSql e.1.toList (delimiter variant).opening false) :=
  cString_of_not_mem (nul_not_mem_intercalate (by decide) (List.forall_mem_map.2 fun e he =>
    nul_not_mem_quoteSql (h.inOrder e he).1.no_end _ _))

theorem cString_values (h : Printable variant reserved m) :
    cString ([',', ' '].intercalate ((inOrder m).map fun e => valueText '\'' e.2)) =
      [',', ' '].intercalate ((inOrder m).map fun e => valueText '\'' e.2) :=
  cString_of_not_mem (nul_not_mem_intercalate (by decide) (List.forall_mem_map.2 fun e he =>
    nul_not_mem_valueText (h.inOrder e he).2))

theorem Readable.cString_eq {n : String} (h : Readable variant reserved n) :
    cString n.toList = n.toList ∧ cString (quoteSql n.toList (delimiter variant).opening false) =
      quoteSql n.toList (delimiter variant).opening false :=
  ⟨cString_of_not_mem h.no_end, cString_of_not_mem (nul_not_mem_quoteSql h.no_end _ _)⟩

end

/-! ## What is printed for a call -/

variable (o : MergeOutputSqlDiff) (reserved : String → Bool)

/-- What is printed is read as these statements, in front of others. -/
def Prints (e : PatchEvent) (sts : List (Sql.Statement String String)) : Prop :=
  ∃ s, o.print e = some s ∧ ∀ rest rs, (dialect o.variant reserved).Tells rest rs →
    (dialect o.variant reserved).Tells (s ++ rest) (sts ++ rs)

/-- The same of many calls. -/
def PrintsAll (es : List PatchEvent) (sts : List (Sql.Statement String String)) : Prop :=
  ∃ s, o.printAll es = some s ∧ ∀ rest rs, (dialect o.variant reserved).Tells rest rs →
    (dialect o.variant reserved).Tells (s ++ rest) (sts ++ rs)

theorem print_changeColumn (change : OrderChange) :
    o.print (.changeColumn change) = o.changeColumn change := rfl

theorem print_changeRow (change : RowChange) :
    o.print (.changeRow change) = some (o.changeRow change) := rfl

variable {o} {reserved}

theorem PrintsAll.nil : o.PrintsAll reserved [] [] := ⟨[], rfl, fun _ _ h => h⟩

theorem PrintsAll.cons {e : PatchEvent} {es : List PatchEvent}
    {sts sts' : List (Sql.Statement String String)}
    (h : o.Prints reserved e sts) (h' : o.PrintsAll reserved es sts') :
    o.PrintsAll reserved (e :: es) (sts ++ sts') := by
  obtain ⟨s, hs, htells⟩ := h
  obtain ⟨s', hs', htells'⟩ := h'
  refine ⟨s ++ s', ?_, fun rest rs hrest => ?_⟩
  · unfold printAll
    rw [hs, Option.bind_some, hs']
    rfl
  · rw [List.append_assoc, List.append_assoc]
    exact htells _ _ (htells' _ _ hrest)

/-- **The printed text is read as the statements.** -/
theorem PrintsAll.script {es : List PatchEvent} {sts : List (Sql.Statement String String)}
    (h : o.PrintsAll reserved es sts) :
    ∃ text, o.printAll es = some text ∧ (dialect o.variant reserved).script text = some sts := by
  obtain ⟨s, hs, htells⟩ := h
  have hall := htells [] [] Sql.Dialect.Tells.nil
  rw [List.append_nil, List.append_nil] at hall
  exact ⟨s, hs, hall.script_eq⟩

theorem Prints.silent {e : PatchEvent} (h : o.print e = some []) : o.Prints reserved e [] :=
  ⟨[], h, fun _ _ h => h⟩

theorem Prints.line {e : PatchEvent} {s : List Char} {st : Sql.Statement String String}
    (h : o.print e = some (s ++ ['\n']))
    (hs : (dialect o.variant reserved).Written s st) : o.Prints reserved e [st] := by
  refine ⟨_, h, fun rest rs hrest => ?_⟩
  rw [List.append_assoc]
  exact Sql.Dialect.Tells.cons hs hrest

section
variable (hsheet : Readable o.variant reserved o.sheetName)

include hsheet

/-! ## Columns -/

section
variable {change : OrderChange} {c : String} (hc : Readable o.variant reserved c)

include hc

theorem prints_dropColumn (hmode : change.mode = .delete)
    (hname : SheetPatcher.nameIn change.namesBefore (change.identityToIndex change.subject) =
      some c) :
    o.Prints reserved (.changeColumn change) [⟨o.sheetName, .dropColumn c⟩] := by
  refine Prints.line ?_ (Sql.Dialect.Written.dropColumn hsheet.names hc.names)
  rw [print_changeColumn]
  unfold MergeOutputSqlDiff.changeColumn
  rw [hmode]
  simp only [hname, Option.map_some, getSqlQuote_eq, hsheet.cString_eq.2, hc.cString_eq.2,
    List.append_assoc]
  rfl

theorem prints_addColumn (hmode : change.mode = .insert)
    (hname : SheetPatcher.nameIn change.namesAfter (change.identityToIndexAfter change.subject) =
      some c) :
    o.Prints reserved (.changeColumn change) [⟨o.sheetName, .addColumn c⟩] := by
  refine Prints.line ?_ (Sql.Dialect.Written.addColumn hsheet.names hc.names)
  rw [print_changeColumn]
  unfold MergeOutputSqlDiff.changeColumn
  rw [hmode]
  simp only [hname, Option.map_some, getSqlQuote_eq, hsheet.cString_eq.2, hc.cString_eq.2,
    List.append_assoc]
  rfl

end

theorem prints_renameColumn {change : OrderChange} {c c2 : String}
    (hc : Readable o.variant reserved c)
    (hc2 : Readable o.variant reserved c2) (hmode : change.mode = .rename)
    (hname : SheetPatcher.nameIn change.namesAfter (change.identityToIndexAfter change.subject) =
      some c)
    (hname2 : SheetPatcher.nameIn change.namesBefore (change.identityToIndexAfter change.subject) =
      some c2) :
    o.Prints reserved (.changeColumn change) [⟨o.sheetName, .renameColumn c c2⟩] := by
  refine Prints.line ?_ (Sql.Dialect.Written.renameColumn hsheet.names hc.names hc2.names)
  rw [print_changeColumn]
  unfold MergeOutputSqlDiff.changeColumn
  rw [hmode]
  simp only [hname, hname2, Option.bind_some, Option.map_some, getSqlQuote_eq, hsheet.cString_eq.2,
    hc.cString_eq.2, hc2.cString_eq.2, List.append_assoc]
  rfl

/-! ## Rows -/

section
variable {change : RowChange}

theorem prints_insert (hmode : change.mode = .insert)
    (hval : Printable o.variant reserved change.val) (hne : change.val ≠ []) :
    o.Prints reserved (.changeRow change) [⟨o.sheetName,
      .insert (sqlEntries change.val).keys ((sqlEntries change.val).map Prod.snd)⟩] := by
  have hne' := inOrder_ne_nil hne
  refine Prints.line ?_
    (Sql.Dialect.Written.insert hsheet.names (names_printed hval) (values_printed change.val)
    (by simpa using hne') (by simpa using hne'))
  rw [print_changeRow]
  unfold MergeOutputSqlDiff.changeRow getText
  rw [hmode]
  simp only [getSqlQuote_eq, hsheet.cString_eq.1, hsheet.cString_eq.2]
  rw [show Delimiter.single.opening = '\'' from rfl, cString_names hval, cString_values hval]
  simp only [List.append_assoc]
  rfl

theorem prints_delete (hmode : change.mode = .delete)
    (hcond : Printable o.variant reserved change.cond) (hne : change.cond ≠ []) :
    o.Prints reserved (.changeRow change) [⟨o.sheetName, .delete (sqlEntries change.cond)⟩] := by
  have hne' := inOrder_ne_nil hne
  refine Prints.line ?_
    (Sql.Dialect.Written.delete hsheet.names (pairs_assigned hcond) (by simpa using hne'))
  have htext := @cString_assigned _ _ _ hcond " AND ".toList (by decide)
  rw [print_changeRow]
  unfold MergeOutputSqlDiff.changeRow getText
  rw [hmode]
  simp only [getSqlQuote_eq, hsheet.cString_eq.1, hsheet.cString_eq.2]
  unfold assigned at htext ⊢
  rw [show Delimiter.single.opening = '\'' from rfl, htext]
  simp only [List.append_assoc]
  rfl

theorem prints_update (hmode : change.mode = .update)
    (hval : Printable o.variant reserved change.val) (hvne : change.val ≠ [])
    (hcond : Printable o.variant reserved change.cond) (hcne : change.cond ≠ []) :
    o.Prints reserved (.changeRow change)
    [⟨o.sheetName, .update (sqlEntries change.val) (sqlEntries change.cond)⟩] := by
  have hvne' := inOrder_ne_nil hvne
  have hcne' := inOrder_ne_nil hcne
  refine Prints.line ?_
    (Sql.Dialect.Written.update hsheet.names (pairs_assigned hval) (pairs_assigned hcond)
    (by simpa using hvne') (by simpa using hcne'))
  have hvals := @cString_assigned _ _ _ hval [',', ' '] (by decide)
  have hconds := @cString_assigned _ _ _ hcond " AND ".toList (by decide)
  rw [print_changeRow]
  unfold MergeOutputSqlDiff.changeRow getText
  rw [hmode]
  simp only [getSqlQuote_eq, hsheet.cString_eq.1, hsheet.cString_eq.2]
  unfold assigned at hvals hconds ⊢
  rw [show Delimiter.single.opening = '\'' from rfl, hvals, hconds]
  simp only [List.append_assoc]
  rfl

end

end

/-- Nothing is printed for a move, a context row or a row of no mode. -/
theorem prints_nothing {change : RowChange} (h : change.mode = .move ∨ change.mode = .context ∨
    change.mode = .none) : o.Prints reserved (.changeRow change) [] := by
  refine Prints.silent ?_
  rw [print_changeRow]
  unfold MergeOutputSqlDiff.changeRow
  rcases h with h | h | h <;> rw [h]

theorem prints_moveColumn {change : OrderChange} (h : change.mode = .move) :
    o.Prints reserved (.changeColumn change) [] := by
  refine Prints.silent ?_
  rw [print_changeColumn]
  unfold MergeOutputSqlDiff.changeColumn
  rw [h]

/-! ## What is meant -/

section
variable (o : MergeOutputSqlDiff) (reserved : String → Bool)

def meantColumn (change : OrderChange) : List (Sql.Action String String) :=
  match change.mode with
  | .delete =>
    ((SheetPatcher.nameIn change.namesBefore (change.identityToIndex change.subject)).map
      Sql.Action.dropColumn).toList
  | .insert =>
    ((SheetPatcher.nameIn change.namesAfter (change.identityToIndexAfter change.subject)).map
      Sql.Action.addColumn).toList
  | .rename =>
    let idx := change.identityToIndexAfter change.subject
    ((SheetPatcher.nameIn change.namesAfter idx).bind fun c =>
      (SheetPatcher.nameIn change.namesBefore idx).map fun c2 =>
        Sql.Action.renameColumn c c2).toList
  | .move => []

def meantRow (change : RowChange) : List (Sql.Action String String) :=
  match change.mode with
  | .insert => [.insert (sqlEntries change.val).keys ((sqlEntries change.val).map Prod.snd)]
  | .delete => [.delete (sqlEntries change.cond)]
  | .update => [.update (sqlEntries change.val) (sqlEntries change.cond)]
  | _ => []

/-- The statements that a call stands for. -/
def meant : PatchEvent → List (Sql.Statement String String)
  | .changeColumn change => (meantColumn change).map (Sql.Statement.mk o.sheetName)
  | .changeRow change => (meantRow change).map (Sql.Statement.mk o.sheetName)
  | _ => []

/-- The names and the texts of a call come through, and no list of them is empty. -/
def ComesThrough : PatchEvent → Prop
  | .changeColumn change =>
    match change.mode with
    | .delete =>
      ∃ c, SheetPatcher.nameIn change.namesBefore (change.identityToIndex change.subject) = some c ∧
        Readable o.variant reserved c
    | .insert =>
      ∃ c, SheetPatcher.nameIn change.namesAfter (change.identityToIndexAfter change.subject) =
        some c ∧ Readable o.variant reserved c
    | .rename =>
      ∃ c c2, SheetPatcher.nameIn change.namesAfter (change.identityToIndexAfter change.subject) =
        some c ∧
        SheetPatcher.nameIn change.namesBefore (change.identityToIndexAfter change.subject) =
        some c2 ∧ Readable o.variant reserved c ∧ Readable o.variant reserved c2
    | .move => True
  | .changeRow change =>
    (change.mode = .insert ∨ change.mode = .update → Printable o.variant reserved change.val ∧
      change.val ≠ []) ∧
      (change.mode = .delete ∨ change.mode = .update → Printable o.variant reserved change.cond ∧
        change.cond ≠ [])
  | _ => True

end

theorem prints_meant (hsheet : Readable o.variant reserved o.sheetName) {e : PatchEvent}
    (h : o.ComesThrough reserved e) : o.Prints reserved e (o.meant e) := by
  cases e with
  | changeName change => exact Prints.silent rfl
  | mergeDone => exact Prints.silent rfl
  | changeColumn change =>
    unfold ComesThrough at h
    unfold meant meantColumn
    cases hm : change.mode with
    | delete =>
      simp only [hm] at h
      obtain ⟨c, hc, hreadable⟩ := h
      simp only [hm, hc]
      exact prints_dropColumn hsheet hreadable hm hc
    | insert =>
      simp only [hm] at h
      obtain ⟨c, hc, hreadable⟩ := h
      simp only [hm, hc]
      exact prints_addColumn hsheet hreadable hm hc
    | rename =>
      simp only [hm] at h
      obtain ⟨c, c2, hc, hc2, hreadable, hreadable2⟩ := h
      simp only [hm, hc, hc2]
      exact prints_renameColumn hsheet hreadable hreadable2 hm hc hc2
    | move =>
      simp only [hm]
      exact prints_moveColumn hm
  | changeRow change =>
    obtain ⟨hval, hcond⟩ := h
    unfold meant meantRow
    cases hm : change.mode with
    | insert =>
      simp only [hm]
      exact prints_insert hsheet hm (hval (Or.inl hm)).1 (hval (Or.inl hm)).2
    | delete =>
      simp only [hm]
      exact prints_delete hsheet hm (hcond (Or.inl hm)).1 (hcond (Or.inl hm)).2
    | update =>
      obtain ⟨hv, hvne⟩ := hval (Or.inr hm)
      obtain ⟨hc, hcne⟩ := hcond (Or.inr hm)
      simp only [hm]
      exact prints_update hsheet hm hv hvne hc hcne
    | move =>
      simp only [hm]
      exact prints_nothing (Or.inl hm)
    | context =>
      simp only [hm]
      exact prints_nothing (Or.inr (Or.inl hm))
    | none =>
      simp only [hm]
      exact prints_nothing (Or.inr (Or.inr hm))

/-- **What is printed is read as what is meant.** -/
theorem printAll_read (o : MergeOutputSqlDiff) (reserved : String → Bool)
    (hsheet : Readable o.variant reserved o.sheetName)
    (es : List PatchEvent) (h : ∀ e ∈ es, o.ComesThrough reserved e) :
    ∃ text, o.printAll es = some text ∧ (dialect o.variant reserved).script text =
    some (es.flatMap o.meant) := by
  refine PrintsAll.script ?_
  induction es with
  | nil => exact PrintsAll.nil
  | cons e es ih =>
    rw [List.flatMap_cons]
    exact PrintsAll.cons (prints_meant hsheet (h e List.mem_cons_self))
      (ih fun e' he' => h e' (List.mem_cons_of_mem e he'))

/-- A row with an apostrophe and a NULL is put in, and a column is renamed from one name to
another. -/
def quotedCalls : List PatchEvent :=
  [.changeRow { mode := .insert, val := [("id", ⟨"it's", false⟩), ("the name", ⟨"", true⟩)] },
    .changeColumn
      { indicesBefore := [0]
        namesBefore := ["a\"b"]
        indicesAfter := [0]
        namesAfter := ["places"]
        subject := 0
        mode := .rename }]

theorem printAll_read_quoted : ∃ text, MergeOutputSqlDiff.printAll ⟨"my sheet", ""⟩ quotedCalls =
    some text ∧ (dialect "" fun n => decide (n ∈ ["group", "order"])).script text =
      some [⟨"my sheet", .insert ["id", "the name"] [some "it's", none]⟩,
        ⟨"my sheet", .renameColumn "places" "a\"b"⟩] := by
  have hread :=
    printAll_read ⟨"my sheet", ""⟩ (fun n => decide (n ∈ ["group", "order"]))
    ⟨by decide, by decide, by decide⟩
    quotedCalls (by
    refine List.forall_mem_cons.2
      ⟨⟨fun _ => ⟨List.forall_mem_cons.2 ⟨⟨?_, Or.inr (by decide)⟩, ?_⟩, by decide⟩,
      fun hmode => absurd hmode (by decide)⟩, ?_⟩
    · exact ⟨by decide, by decide, by decide⟩
    · exact List.forall_mem_singleton.2 ⟨⟨by decide, by decide, by decide⟩, Or.inl rfl⟩
    · exact List.forall_mem_singleton.2 ⟨"places", "a\"b", rfl, rfl,
        ⟨by decide, by decide, by decide⟩, ⟨by decide, by decide, by decide⟩⟩)
  exact hread

end MergeOutputSqlDiff

end Coopy
