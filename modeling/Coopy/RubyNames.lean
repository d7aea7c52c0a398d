import Coopy.RubyCompare
import Coopy.SqlQueries

/-!
# Names that the Ruby wrapper quotes

A plain name is read by SQLite as the name that it is; a tidy one is read as that name or not at
all.

    column: found ↔ the name is plain                                     (readSingle_quoteWithDots)
    table: found in a query ↔ neither part of its name has a dot
                                                                 (table?_quoteTable, dots_of_table?)
    table: found in a pragma ↔ both parts of its name are plain                    (pragma_fullName)
-/

namespace Coopy

open Lib Relation Sqlite

namespace Ruby

/-- The kinds of names that could be read as another one are left out. -/
structure Tidy (x : List Char) : Prop where
  ne : x ≠ []
  backtick : backtick ∉ x
  line : '\n' ∉ x
  dot : x.getLast? ≠ some '.'

/-- A name that is one name in a statement; `word` says which of the words are. -/
structure Plain (word : List Char → Bool) (x : List Char) : Prop extends Tidy x where
  noDot : '.' ∉ x
  word : x.all isWordChar = true → word x = true

theorem isWordChar_ne {c d : Char} (h : isWordChar c = true)
    (hd : isWordChar d = false) : c ≠ d := by
  rintro rfl
  rw [h] at hd
  cases hd

theorem not_mem_of_all {x : List Char} {d : Char} (h : x.all isWordChar = true)
    (hd : isWordChar d = false) : d ∉ x :=
  fun hm => isWordChar_ne (List.all_eq_true.1 h d hm) hd rfl

/-- Words are plain. -/
theorem plain_of_word {word : List Char → Bool} {x : List Char} (hne : x ≠ [])
    (hall : x.all isWordChar = true) (hx : word x = true) : Plain word x where
  ne := hne
  backtick := not_mem_of_all hall (by decide)
  line := not_mem_of_all hall (by decide)
  dot h := not_mem_of_all hall (d := '.') (by decide) (List.mem_of_getLast? h)
  noDot := not_mem_of_all hall (by decide)
  word _ := hx

/-! ## Texts at their dots -/

theorem dot_mem_of_splitOn {x : List Char} (h : (x.splitOn '.').length = 1) : '.' ∉ x := by
  intro hm
  obtain ⟨a, b, rfl⟩ := List.append_of_mem hm
  rw [List.splitOn_append_cons_self, List.length_append] at h
  have ha := List.length_pos_iff.2 (List.splitOn_ne_nil '.' a)
  have hb := List.length_pos_iff.2 (List.splitOn_ne_nil '.' b)
  omega

theorem splitDot_tidy {x : List Char} (h : Tidy x) : splitDot x = x.splitOn '.' := by
  rw [splitDot, List.rdropWhile_eq_self_iff]
  intro hne hempty
  rw [List.isEmpty_iff] at hempty
  by_cases hm : '.' ∈ x
  · -- behind the last dot there is something
    obtain ⟨b, a, hrev, hb⟩ := List.eq_append_cons_of_mem (List.mem_reverse.2 hm)
    have hx : x = a.reverse ++ '.' :: b.reverse := by
      rw [← List.reverse_reverse x, hrev]
      simp
    have hlast : b.reverse.splitOn '.' = [b.reverse] :=
      List.splitOn_eq_singleton (by simpa using hb)
    have hsplit : x.splitOn '.' = a.reverse.splitOn '.' ++ [b.reverse] := by
      rw [hx, List.splitOn_append_cons_self, hlast]
    simp only [hsplit, List.getLast_append_singleton, List.reverse_eq_nil_iff] at hempty
    refine h.dot ?_
    rw [hx, hempty]
    simp
  · simp only [List.splitOn_eq_singleton hm, List.getLast_singleton] at hempty
    exact h.ne hempty

theorem matchesWord_tidy {x : List Char} (h : Tidy x) : matchesWord x = x.all isWordChar := by
  have hne : x.isEmpty = false := by simpa using h.ne
  rw [matchesWord, List.splitOn_eq_singleton h.line]
  simp [hne]

theorem quoteWithDots_tidy {x : List Char} (h : Tidy x) :
    quoteWithDots x = if x.all isWordChar then x
    else List.intercalate ['.'] ((x.splitOn '.').map backticked) := by
  rw [quoteWithDots, matchesWord_tidy h, splitDot_tidy h]

theorem subset_intercalate {sep p : List Char} {ps : List (List Char)} (h : p ∈ ps) :
    p ⊆ List.intercalate sep ps := by
  induction ps with
  | nil => cases h
  | cons q qs ih =>
    cases qs with
    | nil =>
      rw [List.mem_singleton.1 h, List.intercalate_singleton]
      exact List.Subset.refl _
    | cons q' qs =>
      rw [List.intercalate_cons_cons]
      rcases List.mem_cons.1 h with rfl | h
      · exact List.subset_append_of_subset_left _ (List.subset_append_left _ _)
      · exact fun c hc => List.mem_append_right _ (ih h hc)

/-! ## Reading -/

theorem splitOutside_word {x : List Char} (h : x.all isWordChar = true) :
    splitOutside false x = [x] := by
  induction x with
  | nil => rfl
  | cons c x ih =>
    obtain ⟨hc, hx⟩ := Bool.and_eq_true_iff.1 (List.all_cons ▸ h)
    have hdot : (c == '.') = false := beq_eq_false_iff_ne.2 (isWordChar_ne hc (by decide))
    have hback : (c == backtick) = false := beq_eq_false_iff_ne.2 (isWordChar_ne hc (by decide))
    rw [splitOutside, hdot, hback, Bool.false_and, if_neg Bool.false_ne_true, Bool.xor_false, ih hx]
    rfl

/-- Between backticks no dot counts. -/
theorem splitOutside_inside {x : List Char} (h : backtick ∉ x) (rest : List Char) :
    splitOutside true (x ++ backtick :: rest) = (splitOutside false rest).modifyHead
      (x ++ [backtick] ++ ·) := by
  induction x with
  | nil =>
    rw [List.nil_append, splitOutside]
    simp [show (backtick == '.') = false from rfl]
  | cons c x ih =>
    obtain ⟨hc, hx⟩ := not_or.1 (mt List.mem_cons.2 h)
    have hback : (c == backtick) = false := beq_eq_false_iff_ne.2 fun he => hc he.symm
    rw [List.cons_append, splitOutside, hback, Bool.not_true, Bool.and_false,
      if_neg Bool.false_ne_true, Bool.xor_false, ih hx]
    simp [Function.comp_def]

theorem splitOutside_backticked {x : List Char} (h : backtick ∉ x) (rest : List Char) :
    splitOutside false (backticked x ++ rest) = (splitOutside false rest).modifyHead
      (backticked x ++ ·) := by
  have happ : backticked x ++ rest = backtick :: (x ++ backtick :: rest) := by simp [backticked]
  rw [happ, splitOutside, show (backtick == '.') = false from rfl, Bool.false_and,
    if_neg Bool.false_ne_true, beq_self_eq_true, Bool.false_xor, splitOutside_inside h]
  simp [Function.comp_def, backticked]

theorem splitOutside_intercalate {ps : List (List Char)} (hne : ps ≠ [])
    (h : ∀ p ∈ ps, backtick ∉ p) :
    splitOutside false (List.intercalate ['.'] (ps.map backticked)) = ps.map backticked := by
  induction ps with
  | nil => exact absurd rfl hne
  | cons p ps ih =>
    have hp := h p List.mem_cons_self
    cases ps with
    | nil =>
      have := splitOutside_backticked hp []
      simpa [splitOutside, List.intercalate] using this
    | cons q qs =>
      have hrest := ih (List.cons_ne_nil _ _) fun p hp => h p (List.mem_cons_of_mem _ hp)
      have happ : List.intercalate ['.'] ((p :: q :: qs).map backticked) =
          backticked p ++ '.' :: List.intercalate ['.'] ((q :: qs).map backticked) := by
        simp [List.intercalate]
      rw [happ, splitOutside_backticked hp, splitOutside]
      simp only [beq_self_eq_true, Bool.not_false, Bool.and_self, if_true, hrest]
      simp

variable {V : Type} (E : Engine V)

namespace Engine

theorem readPart_backticked {x : List Char} (h : backtick ∉ x) :
    E.readPart (backticked x) = some (String.ofList x) := by
  have hread := readBody_append h
  rw [backticked, List.cons_append, readPart, beq_self_eq_true, if_pos rfl, readName,
    beq_self_eq_true, if_pos rfl, hread]
  rfl

theorem readPart_word {x : List Char} (hne : x ≠ []) (h : x.all isWordChar = true) :
    E.readPart x = if E.bare x then some (String.ofList x) else none := by
  cases x with
  | nil => exact absurd rfl hne
  | cons c x =>
    have hc : isWordChar c = true := List.all_eq_true.1 h c List.mem_cons_self
    have hback : (c == backtick) = false := beq_eq_false_iff_ne.2 (isWordChar_ne hc (by decide))
    rw [readPart, hback, if_neg Bool.false_ne_true]

theorem backtick_not_mem_part {x p : List Char} (h : backtick ∉ x) (hp : p ∈ x.splitOn '.') :
    backtick ∉ p := by
  intro hm
  refine h ?_
  have hx : List.intercalate ['.'] (x.splitOn '.') = x := List.intercalate_splitOn '.'
  exact hx ▸ subset_intercalate hp hm

/-- **What a tidy name is read as.** -/
theorem readPath_quoteWithDots {x : List Char} (h : Tidy x) : E.readPath (quoteWithDots x) =
    if x.all isWordChar then (if E.bare x then some [String.ofList x] else none)
    else some ((x.splitOn '.').map String.ofList) := by
  rw [quoteWithDots_tidy h, readPath]
  split
  · next hw =>
    rw [splitOutside_word hw, List.mapM_cons, List.mapM_nil, E.readPart_word h.ne hw]
    split <;> rfl
  · have hparts : ∀ p ∈ x.splitOn '.', backtick ∉ p :=
      fun p hp => backtick_not_mem_part h.backtick hp
    rw [splitOutside_intercalate (List.splitOn_ne_nil _ _) hparts, List.mapM_map]
    exact mapM_eq_some_map fun p hp => E.readPart_backticked (hparts p hp)

theorem readSingle_quoteWithDots {x : List Char} (h : Tidy x) {n : String} :
    E.readSingle (quoteWithDots x) = some n ↔ Plain E.bare x ∧ n = String.ofList x := by
  rw [readSingle, E.readPath_quoteWithDots h]
  by_cases hw : x.all isWordChar = true
  · have hdot : '.' ∉ x := not_mem_of_all hw (by decide)
    rw [if_pos hw]
    by_cases hb : E.bare x = true
    · rw [if_pos hb]
      exact ⟨fun he => ⟨⟨h, hdot, fun _ => hb⟩, (Option.some.inj he).symm⟩,
        fun he => congrArg some he.2.symm⟩
    · rw [if_neg hb]
      exact ⟨nofun, fun he => absurd (he.1.word hw) hb⟩
  · rw [if_neg hw]
    constructor
    · intro he
      split at he
      · next name hpath =>
        have hlen : (x.splitOn '.').length = 1 := by
          have := congrArg List.length (Option.some.inj hpath)
          simpa using this
        have hdot := dot_mem_of_splitOn hlen
        rw [List.splitOn_eq_singleton hdot, List.map_cons, List.map_nil, Option.some.injEq,
          List.cons.injEq] at hpath
        exact ⟨⟨h, hdot, fun hw' => absurd hw' hw⟩, ((Option.some.inj he).symm.trans hpath.1.symm)⟩
      · cases he
    · rintro ⟨hp, rfl⟩
      rw [List.splitOn_eq_singleton hp.noDot]
      rfl

/-! ## Tables and columns -/

theorem toList_fullName (t : Table V) :
    t.fullName.toList = t.schema.toList ++ '.' :: t.name.toList := by
  rw [Table.fullName, String.toList_append, String.toList_append, List.append_assoc]
  rfl

theorem tidy_fullName {t : Table V} (hs : Tidy t.schema.toList) (hn : Tidy t.name.toList) :
    Tidy t.fullName.toList := by
  rw [toList_fullName]
  refine ⟨by simp, ?_, ?_, ?_⟩
  · simp [hs.backtick, hn.backtick, show ¬ (Sqlite.backtick = '.') by decide]
  · simp [hs.line, hn.line]
  · rw [List.getLast?_append, List.getLast?_cons]
    obtain ⟨c, hc⟩ := Option.ne_none_iff_exists'.1 (mt List.getLast?_eq_none_iff.1 hn.ne)
    have := hn.dot
    rw [hc] at this ⊢
    simpa using this

theorem dots_of_table? {db : Database V} {t : Table V} (hs : Tidy t.schema.toList)
    (hn : Tidy t.name.toList) (h : E.table? db (quoteTable t.fullName) ≠ none) :
    '.' ∉ t.schema.toList ∧ '.' ∉ t.name.toList := by
  have hnot : ¬ t.fullName.toList.all isWordChar = true := by
    intro hall
    refine not_mem_of_all hall (d := '.') (by decide) ?_
    simp [toList_fullName]
  rw [table?, quoteTable, E.readPath_quoteWithDots (tidy_fullName hs hn), if_neg hnot,
    toList_fullName, List.splitOn_append_cons_self] at h
  split at h
  · next schema name hpath =>
    have hlen := congrArg List.length (Option.some.inj hpath)
    simp only [List.length_map, List.length_append, List.length_cons, List.length_nil] at hlen
    have h1 := List.length_pos_iff.2 (List.splitOn_ne_nil '.' t.schema.toList)
    have h2 := List.length_pos_iff.2 (List.splitOn_ne_nil '.' t.name.toList)
    exact ⟨dot_mem_of_splitOn (by omega), dot_mem_of_splitOn (by omega)⟩
  · exact absurd rfl h

/-- **A table in a query.** -/
theorem table?_quoteTable {db : Database V} {t : Table V} (hs : Tidy t.schema.toList)
    (hn : Tidy t.name.toList) (hdots : '.' ∉ t.schema.toList ∧ '.' ∉ t.name.toList) :
    E.table? db (quoteTable t.fullName) = db.find t.schema t.name := by
  have hnot : ¬ t.fullName.toList.all isWordChar = true := by
    intro hall
    refine not_mem_of_all hall (d := '.') (by decide) ?_
    simp [toList_fullName]
  rw [table?, quoteTable, E.readPath_quoteWithDots (tidy_fullName hs hn), if_neg hnot,
    toList_fullName, List.splitOn_append_cons_self, List.splitOn_eq_singleton hdots.1,
      List.splitOn_eq_singleton hdots.2]
  simp

/-- The words that are names or numbers. -/
def argument (x : List Char) : Bool := E.bare x || E.number (String.ofList x)

/-- **A table in a pragma.** -/
theorem pragma_fullName {db : Database V} {t u : Table V} (hs : Tidy t.schema.toList)
    (hn : Tidy t.name.toList) (hdots : '.' ∉ t.schema.toList ∧ '.' ∉ t.name.toList) :
    E.pragma db t.fullName = some u ↔
      (Plain E.bare t.schema.toList ∧ Plain E.argument t.name.toList) ∧
      db.find t.schema t.name = some u := by
  have hsplit : splitDot t.fullName.toList = [t.schema.toList, t.name.toList] := by
    rw [splitDot_tidy (tidy_fullName hs hn), toList_fullName, List.splitOn_append_cons_self,
      List.splitOn_eq_singleton hdots.1, List.splitOn_eq_singleton hdots.2]
    rfl
  have hschema : ∀ n, E.readSingle (quoteWithDots t.schema.toList) = some n ↔
      Plain E.bare t.schema.toList ∧ n = t.schema := by
    intro n
    rw [E.readSingle_quoteWithDots hs, String.ofList_toList]
  have hname : ∀ n, E.readArgument (quoteWithDots t.name.toList) = some n ↔
    Plain E.argument t.name.toList ∧ n = t.name := by
    intro n
    rw [readArgument]
    by_cases hw : t.name.toList.all isWordChar = true
    · have hquote : quoteWithDots t.name.toList = t.name.toList := by
        rw [quoteWithDots_tidy hn, if_pos hw]
      rw [hquote, hw, Bool.true_and, String.ofList_toList]
      by_cases hnum : E.number t.name = true
      · rw [if_pos hnum, Option.some.injEq, eq_comm]
        refine ⟨fun h => ⟨⟨hn, hdots.2, fun _ => ?_⟩, h⟩, And.right⟩
        rw [argument, String.ofList_toList, hnum, Bool.or_true]
      · have hread := E.readSingle_quoteWithDots hn (n := n)
        rw [hquote, String.ofList_toList] at hread
        rw [if_neg hnum, hread]
        refine and_congr_left fun _ =>
          ⟨fun h => ⟨h.toTidy, h.noDot, fun hw => ?_⟩, fun h => ⟨h.toTidy, h.noDot, fun hw => ?_⟩⟩
        · rw [argument, h.word hw, Bool.true_or]
        · have := h.word hw
          rwa [argument, String.ofList_toList, Bool.eq_false_iff.2 hnum, Bool.or_false] at this
    · have hquote : quoteWithDots t.name.toList = backticked t.name.toList := by
        rw [quoteWithDots_tidy hn, if_neg hw, List.splitOn_eq_singleton hdots.2]
        exact List.intercalate_singleton
      have hnot : (quoteWithDots t.name.toList).all isWordChar = false := by
        rw [hquote]
        exact List.all_eq_false.2 ⟨Sqlite.backtick, by simp [backticked], by decide⟩
      rw [hnot, Bool.false_and, if_neg Bool.false_ne_true, E.readSingle_quoteWithDots hn,
        String.ofList_toList]
      exact and_congr_left fun _ => ⟨fun h => ⟨h.toTidy, h.noDot, fun hw' => absurd hw' hw⟩,
        fun h => ⟨h.toTidy, h.noDot, fun hw' => absurd hw' hw⟩⟩
  rw [pragma, hsplit]
  simp only [Option.bind_eq_bind, Option.bind_eq_some_iff, hschema, hname]
  constructor
  · rintro ⟨_, ⟨hps, rfl⟩, _, ⟨hpn, rfl⟩, hfind⟩
    exact ⟨⟨hps, hpn⟩, hfind⟩
  · rintro ⟨⟨hps, hpn⟩, hfind⟩
    exact ⟨_, ⟨hps, rfl⟩, _, ⟨hpn, rfl⟩, hfind⟩

/-- **A column in a statement.** -/
theorem column?_quoteColumn {t : Table V} {c : String} (hc : Plain E.bare c.toList)
    (hm : c ∈ t.columns) : E.column? t (quoteColumn c) = some (t.columns.idxOf c) := by
  have hread : E.readSingle (quoteColumn c) = some c :=
    (E.readSingle_quoteWithDots hc.toTidy).2 ⟨hc, String.ofList_toList.symm⟩
  rw [column?, hread]
  exact List.findIdx?_eq_some_iff_findIdx_eq.2 ⟨List.idxOf_lt_length_iff.2 hm, rfl⟩

theorem plain_of_column? {t : Table V} {c : String} (hc : Tidy c.toList)
    (h : E.column? t (quoteColumn c) ≠ none) : Plain E.bare c.toList := by
  obtain ⟨i, hi⟩ := Option.ne_none_iff_exists'.1 h
  obtain ⟨n, hread, -⟩ := Option.bind_eq_some_iff.1 hi
  exact ((E.readSingle_quoteWithDots hc).1 hread).1

end Engine

end Ruby

end Coopy
