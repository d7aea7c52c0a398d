import Coopy.TdiffNames

/-!
# Column lines in a tdiff

A column line names the column that changes, and then all columns as they are after the change.
Both are quoted where they have to be, but the names before the change come from a declaration,
which is not.

    the declaration and the change are read back ↔ ReadsBack                 (columnLines_iff)
-/

namespace Coopy

open Lib

open PatchColumnNames

/-! ## The change that is inferred -/

namespace ColumnEdit

variable {names : List String}

/-- A move that can as well be one of the neighbour to the right. -/
def ToLeftByOne : ColumnEdit names → Prop
  | move i k _ _ _ => i = k + 1
  | _ => False

theorem subject_mem (e : ColumnEdit names) : e.subject ∈ names ∨ e.subject ∈ e.target := by
  have hget : ∀ {i}, i < names.length → names.getD i "" ∈ names := fun hi => by
    rw [List.getD_eq_getElem _ _ hi]
    exact List.getElem_mem hi
  cases e with
  | insert k name hk hnew => exact Or.inr ((List.mem_insertIdx hk).2 (Or.inl rfl))
  | delete i hi => exact Or.inl (hget hi)
  | move i k hi hk hne => exact Or.inl (hget hi)
  | rename i name hi hnew => exact Or.inr (List.mem_set hi name)

/-- The name at the place of the subject. -/
theorem subjectName_before {change : OrderChange} {ids : List Int} (hmode : change.mode = .delete ∨
    change.mode = .move)
    (hnames : change.namesBefore = names) (hids : change.indicesBefore = ids)
    (hdistinct : ids.Nodup) {i : Nat}
    (hi : i < names.length) (hsubject : ids[i]? = some change.subject) :
    change.subjectName = some (names.getD i "") := by
  have hidx : change.identityToIndex change.subject = i := by
    unfold OrderChange.identityToIndex
    rw [hids]
    exact indexIn_of_getElem? hdistinct hsubject
  have hnot : ¬ (i : Int) < 0 := by omega
  unfold OrderChange.subjectName
  rcases hmode with h | h
  · simp only [h, hidx, hnames, if_neg hnot, Int.toNat_natCast]
    rw [List.getD_eq_getElem _ _ hi, List.getElem?_eq_getElem hi]
  · simp only [h, hidx, hnames, if_neg hnot, Int.toNat_natCast]
    rw [List.getD_eq_getElem _ _ hi, List.getElem?_eq_getElem hi]

theorem subjectName_after {change : OrderChange} (hmode : change.mode = .insert ∨
    change.mode = .rename) {k : Nat}
    (hidx : change.identityToIndexAfter change.subject = k) :
    change.subjectName = change.namesAfter[k]? := by
  have hnot : ¬ (k : Int) < 0 := by omega
  unfold OrderChange.subjectName
  rcases hmode with h | h
  · simp only [h, hidx, if_neg hnot, Int.toNat_natCast]
  · simp only [h, hidx, if_neg hnot, Int.toNat_natCast]

/-- A change that follows the edit is about its subject. -/
theorem Follows.subjectName {e : ColumnEdit names} {new : Int} {indices : List Int}
    {change : OrderChange}
    (h : Follows new indices e change) : change.subjectName = some e.subject := by
  have hget : ∀ {i}, i < names.length → indices[i]? = some (indices.getD i new) := fun hi => by
    have hlt := h.parallel.symm ▸ hi
    rw [List.getD_eq_getElem _ _ hlt, List.getElem?_eq_getElem hlt]
  cases e with
  | insert k name hk hnew =>
    rw [subjectName_after (Or.inl h.mode)
      (h.identityToIndexAfter (by rw [h.mode]; exact OrderChangeMode.noConfusion)),
      h.namesAfter]
    show (names.insertIdx k name)[k]? = some name
    rw [List.getElem?_insertIdx_self, if_pos hk]
  | delete i hi =>
    exact subjectName_before (Or.inl h.mode) h.namesBefore h.indicesBefore h.distinct hi
      (h.subject ▸ hget hi)
  | move i k hi hk hne =>
    exact subjectName_before (Or.inr h.mode) h.namesBefore h.indicesBefore h.distinct hi
      (h.subject ▸ hget hi)
  | rename i name hi hnew =>
    rw [subjectName_after (Or.inr h.mode)
      (h.identityToIndexAfter (by rw [h.mode]; exact OrderChangeMode.noConfusion)),
      h.namesAfter]
    show (names.set i name)[i]? = some name
    rw [List.getElem?_set_self hi]

/-- The same mode, the same subject, and the same names after the change. -/
structure SaysSame (e : ColumnEdit names) (change : OrderChange) : Prop where
  mode : change.mode = e.mode
  subject : change.subjectName = some e.subject
  after : change.namesAfter = e.target

theorem Follows.saysSame {e : ColumnEdit names} {new : Int} {indices : List Int}
    {change : OrderChange} (h : Follows new indices e change) : SaysSame e change :=
  ⟨h.mode, h.subjectName, h.namesAfter⟩

/-- Names with their places as identities. -/
def fresh (hn : names.Nodup) : DistinctColumns where
  toPatchColumnNames := .read names
  lst_nodup := hn
  indices_nodup := Follows.nodup_positions names.length
  parallel := Follows.length_positions names.length

/-- **The change inferred** from the names before and after says the same as the edit, unless that
is a move to the left by one. -/
theorem inferred_saysSame_iff (hn : names.Nodup) (e : ColumnEdit names) {given : String}
    (hgiven : names = [] → given = e.subject) :
    (∃ change, inferChange (.read e.target) (.read names) e.mode (some given) = some change ∧
      SaysSame e change) ↔ ¬ e.ToLeftByOne := by
  have hfollows :
    ∀ {e : ColumnEdit names},
    (∃ change, inferChange (.read e.target) (.read names) e.mode (some given) = some change ∧
      Follows (freshIndex (fresh hn).indices) (fresh hn).indices e change) →
      ∃ change, inferChange (.read e.target) (.read names) e.mode (some given) = some change ∧
      SaysSame e change :=
    fun ⟨change, hchange, hf⟩ => ⟨change, hchange, hf.saysSame⟩
  cases e with
  | insert k name hk hnew =>
    refine iff_of_true (hfollows (follows_insert (fresh hn) _ hk hnew fun hnil y hy => ?_)) id
    exact (Option.some.inj hy).symm.trans (hgiven hnil)
  | delete i hi => exact iff_of_true (hfollows (follows_delete (fresh hn) _ hi)) id
  | rename i name hi hnew => exact iff_of_true (hfollows (follows_rename (fresh hn) _ hi hnew)) id
  | move i k hi hk hne =>
    rcases Nat.lt_or_gt_of_ne hne with hik | hki
    · obtain ⟨v, hv, hchange⟩ := inferChange_later (fresh hn) (some given) hik hk
      have hone : ¬ (ColumnEdit.move i k hi hk hne).ToLeftByOne := fun h => by
        have he : i = k + 1 := h
        omega
      refine iff_of_true ⟨_, hchange, rfl, ?_, rfl⟩ hone
      exact subjectName_before (Or.inr rfl) rfl rfl (fresh hn).indices_nodup hi hv
    · by_cases hone : i = k + 1
      · subst hone
        refine iff_of_false ?_ fun h => h rfl
        rintro ⟨change, hchange, hsame⟩
        -- the neighbour is taken for the column that moves
        obtain ⟨v, hv, hlater⟩ := inferChange_later (fresh hn) (some given) (Nat.lt_succ_self k) hi
        rw [(move_swap hi hk hne).1] at hchange
        obtain rfl := Option.some.inj (hlater.symm.trans hchange)
        have hneighbour := hsame.subject
        rw [subjectName_before (Or.inr rfl) rfl rfl (fresh hn).indices_nodup hk hv] at hneighbour
        have he := Option.some.inj hneighbour
        have hgets : names[k] = names[k + 1] := by
          have h : names.getD k "" = names.getD (k + 1) "" := he
          rwa [List.getD_eq_getElem _ _ hk, List.getD_eq_getElem _ _ hi] at h
        have := (hn.getElem_inj_iff).1 hgets
        omega
      · have hone' : ¬ (ColumnEdit.move i k hi hk hne).ToLeftByOne := hone
        exact iff_of_true (hfollows (follows_move (fresh hn) _ hi hk hne (Or.inl (by omega)))) hone'

end ColumnEdit

namespace Tdiff

/-! ## Before the bar -/

/-- The quotes are closed at the end, and neither a bar nor a blank stands outside of them. -/
def tight : (quote : Bool) → List Char → Bool
  | quote, [] => !quote
  | quote, ch :: rest =>
    if ch = '\'' then tight (!quote) rest
    else (quote || decide (ch ≠ '|' ∧ ch ≠ ' ' ∧ ch ≠ '\t' ∧ ch ≠ '\r')) && tight quote rest

open Transducer

/-- A tight text is read as one word. -/
theorem passes_tight {text : List Char} :
    ∀ {result : List Char} {quote : Bool}, tight quote text = true →
    Passes Scanner.step ⟨result, quote, true, false, false⟩ text []
    (beforeBar (result ++ text) true) := by
  induction text with
  | nil =>
    intro result quote h
    obtain rfl : quote = false := by simpa [tight] using h
    rw [List.append_nil]
    exact Passes.nil _
  | cons ch text ih =>
    intro result quote h
    rw [tight] at h
    have happ : result ++ ch :: text = result ++ [ch] ++ text := by simp
    rw [happ]
    by_cases hq : ch = '\''
    · rw [if_pos hq] at h
      refine Passes.quiet ?_ (ih h)
      unfold Scanner.step
      rw [if_pos hq]
    · rw [if_neg hq, Bool.and_eq_true] at h
      refine Passes.quiet ?_ (ih h.2)
      unfold Scanner.step
      rw [if_neg hq]
      cases quote with
      | true => rfl
      | false =>
        have hch : ch ≠ '|' ∧ ch ≠ ' ' ∧ ch ≠ '\t' ∧ ch ≠ '\r' := by simpa using h.1
        rw [if_neg (by exact Bool.false_ne_true), if_neg (by simp [hch])]

/-- A word starts with a character that is no blank. -/
theorem passes_word {text : List Char} (hne : text ≠ []) (h : tight false text = true) :
    Passes Scanner.step (beforeBar [] false) text [] (beforeBar text true) := by
  obtain ⟨ch, text, rfl⟩ := List.exists_cons_of_ne_nil hne
  rw [tight] at h
  by_cases hq : ch = '\''
  · rw [if_pos hq] at h
    have hrest :
      Passes Scanner.step ⟨[ch], true, true, false, false⟩ text []
      (beforeBar ([ch] ++ text) true) := passes_tight h
    refine Passes.quiet ?_ hrest
    unfold Scanner.step
    rw [if_pos hq]
    rfl
  · rw [if_neg hq, Bool.and_eq_true] at h
    have hch : ch ≠ '|' ∧ ch ≠ ' ' ∧ ch ≠ '\t' ∧ ch ≠ '\r' := by simpa using h.1
    have hrest :
      Passes Scanner.step ⟨[ch], false, true, false, false⟩ text []
      (beforeBar ([ch] ++ text) true) := passes_tight h.2
    refine Passes.quiet ?_ hrest
    unfold Scanner.step
    rw [if_neg hq, if_neg (by exact Bool.false_ne_true), if_neg (by simp [hch])]
    rfl

theorem tight_quotedWords (text rest : List Char) :
    tight true (text.flatMap quotedWord ++ rest) = tight true rest := by
  induction text with
  | nil => rfl
  | cons ch text ih =>
    rw [List.flatMap_cons, List.append_assoc, ← ih]
    unfold quotedWord
    by_cases hq : ch = '\''
    · subst hq
      rfl
    · by_cases hn : ch = '\n'
      · subst hn
        rfl
      · by_cases hr : ch = '\r'
        · subst hr
          rfl
        · rw [if_neg hq, if_neg hn, if_neg hr, List.singleton_append, tight, if_neg hq,
            Bool.true_or, Bool.true_and]

theorem tight_of_plain {text : List Char} (h : ∀ ch ∈ text, ch ≠ '\'' ∧ ch ≠ '|' ∧ ch ≠ ' ' ∧
    ch ≠ '\t' ∧ ch ≠ '\r') : tight false text = true := by
  induction text with
  | nil => rfl
  | cons ch text ih =>
    obtain ⟨⟨hq, hch⟩, htext⟩ := List.forall_mem_cons.1 h
    rw [tight, if_neg hq, ih htext, decide_eq_true hch]
    rfl

theorem blank_notMem {text : List Char} :
    ∀ {lastWasMinus : Bool}, needQuote true lastWasMinus text = false → ' ' ∉ text := by
  induction text with
  | nil => exact fun _ => List.not_mem_nil
  | cons ch text ih =>
    intro lastWasMinus h
    unfold needQuote at h
    simp only [Bool.or_eq_false_iff] at h
    obtain ⟨⟨⟨-, hblank⟩, -⟩, hrest⟩ := h
    rw [Bool.and_true, decide_eq_false_iff_not] at hblank
    exact List.not_mem_cons_of_ne_of_not_mem (Ne.symm hblank) (ih hrest)

theorem tight_stringy (s : String) : tight false (stringy s true) = true := by
  rw [stringy]
  rcases celly_cases (c := ⟨s, false⟩) rfl true with heq | ⟨hneed, heq⟩
  · rw [heq, tight, if_pos rfl, Bool.not_false, tight_quotedWords]
    rfl
  · rw [heq]
    refine tight_of_plain fun ch hch => ?_
    obtain ⟨hnot, hlow⟩ := (needQuote_eq_false hneed).1 ch hch
    refine ⟨fun he => hnot (by simp [he]), fun he => hnot (by simp [he]),
      fun he => blank_notMem hneed (he ▸ hch), ?_, ?_⟩
    · rintro rfl
      exact absurd hlow (by decide)
    · rintro rfl
      exact absurd hlow (by decide)

/-! ## The tokens of a column line -/

def marks (mode : OrderChangeMode) : Operator where
  text := columnMark mode
  some_char := by cases mode <;> exact List.cons_ne_nil _ _
  plain := by cases mode <;> exact plain_of_all (by decide)

/-- A column line without its end. -/
def lineOf (mode : OrderChangeMode) (subject : List Char) (terms : List (List Char)) : List Char :=
  columnMark mode ++ ' ' :: subject ++ [' ', '|'] ++ barred terms

theorem passes_mark (mode : OrderChangeMode) :
    Passes Scanner.step {} (columnMark mode ++ [' ']) [columnMark mode] (beforeBar [] false) :=
  (passes_operator (marks mode)).snoc (step_blank (Or.inl rfl) _ _)

/-- The mark comes first in any case. -/
theorem tokens_lineOf_mark (mode : OrderChangeMode) (subject : List Char)
    (terms : List (List Char)) :
    ∃ es, tokens (lineOf mode subject terms) = columnMark mode :: es := by
  obtain ⟨es, s', h⟩ :=
    exists_passes Scanner.step (beforeBar [] false) (subject ++ [' ', '|'] ++ barred terms)
  have hpass := (passes_mark mode).append h
  have hline :
    lineOf mode subject terms = columnMark mode ++ [' '] ++
    (subject ++ [' ', '|'] ++ barred terms) := by
    simp [lineOf]
  rw [hline, tokens_of_passes hpass]
  exact ⟨es ++ s'.last, rfl⟩

/-- A subject that is not empty is the second token. -/
theorem tokens_lineOf (mode : OrderChangeMode) {subject : List Char}
    (htight : tight false subject = true)
    {terms : List (List Char)} (hterms : ∀ t ∈ terms, closes false t = true) :
    tokens (lineOf mode subject terms) = columnMark mode ::
    ((if subject = [] then [] else [subject]) ++ terms) := by
  have hbar : Scanner.step (beforeBar [] false) '|' = ([], inTerm [] false) := rfl
  have hsubject :
    Passes Scanner.step (beforeBar [] false) (subject ++ [' '])
    (if subject = [] then [] else [subject])
      (beforeBar [] false) := by
    by_cases hnil : subject = []
    · rw [if_pos hnil, hnil]
      exact (Passes.nil _).snoc (step_blank (Or.inl rfl) _ _)
    · rw [if_neg hnil]
      exact (passes_word hnil htight).snoc (step_blank (Or.inl rfl) _ _)
  have hpass := ((passes_mark mode).append (hsubject.snoc hbar)).append (passes_terms hterms)
  have hline :
    lineOf mode subject terms = columnMark mode ++ [' '] ++ (subject ++ [' '] ++ ['|']) ++
    barred terms := by
    simp [lineOf]
  rw [hline]
  unfold barred
  rw [tokens_of_passes hpass, last_inTerm, List.append_nil, List.append_nil]
  rfl

/-! ## A column line read -/

section
variable (other : List TDiffPart → List (List Char) → Option (List TDiffPart × List PatchCall))

theorem applyLine_lineOf (s : TdiffState) (hs : s.inComment = false) {mode : OrderChangeMode}
    {line : List Char} {es : List (List Char)} (h : tokens line = columnMark mode :: es) :
    applyLine other s line = applyColumnLine s mode (es.map unescape) := by
  have hmessage : normalizedMessage line = columnMark mode :: es.map unescape := by
    unfold normalizedMessage
    rw [h, List.map_cons]
    exact congrArg (· :: _) (marks mode).unescape_text
  unfold applyLine
  rw [hs, if_neg Bool.false_ne_true, hmessage]
  cases mode <;> rfl

end

theorem inferChange_after {names prior : PatchColumnNames} {mode : OrderChangeMode}
    {name : Option String} {change : OrderChange}
    (h : inferChange names prior mode name = some change) :
    change.mode = mode ∧ change.namesAfter = names.lst := by
  obtain ⟨r, hr, rfl⟩ := Option.map_eq_some_iff.1 h
  refine ⟨rfl, ?_⟩
  cases mode with
  | move =>
    unfold infer inferMove at hr
    simp only [] at hr
    split at hr
    · obtain ⟨mover, -, hr⟩ := Option.bind_eq_some_iff.1 hr
      split at hr
      · obtain ⟨v, -, rfl⟩ := Option.map_eq_some_iff.1 hr
        rfl
      · cases hr
    · cases hr
  | insert =>
    unfold infer inferInsert at hr
    simp only [] at hr
    split at hr
    · obtain ⟨mover, -, rfl⟩ := Option.map_eq_some_iff.1 hr
      rfl
    · cases hr
  | delete =>
    unfold infer inferDelete at hr
    simp only [] at hr
    split at hr
    · obtain ⟨mover, -, hr⟩ := Option.bind_eq_some_iff.1 hr
      obtain ⟨v, -, rfl⟩ := Option.map_eq_some_iff.1 hr
      rfl
    · cases hr
  | rename =>
    unfold infer inferRename at hr
    simp only [] at hr
    split at hr
    · obtain ⟨mover, -, hr⟩ := Option.bind_eq_some_iff.1 hr
      obtain ⟨v, -, rfl⟩ := Option.map_eq_some_iff.1 hr
      rfl
    · cases hr

/-- A key has no null character if its token has none. -/
theorem nul_notMem_keyOf {token : List Char} (h : '\x00' ∉ token) :
    '\x00' ∉ (keyOf token).toList := by
  rcases keyOf_cases token with hkey | ⟨e, he, hkey⟩
  · rw [hkey]
    exact List.not_mem_nil
  · rw [hkey, String.toList_ofList]
    exact notMem_peels (by decide) 4 h e he

/-- The names a column line gives have no null character. -/
theorem nul_notMem_after {s s' : TdiffState} {mode : OrderChangeMode} {tokens : List (List Char)}
    {calls : List PatchCall}
    (htokens : ∀ t ∈ tokens, '\x00' ∉ t) (h : applyColumnLine s mode tokens = some (s', calls)) :
    ∃ change, calls = [.changeColumn change] ∧ ∀ n ∈ change.namesAfter, '\x00' ∉ n.toList := by
  cases tokens with
  | nil => cases h
  | cons name rest =>
    obtain ⟨hname, hrest⟩ := List.forall_mem_cons.1 htokens
    unfold applyColumnLine at h
    obtain ⟨change, hchange, he⟩ := Option.map_eq_some_iff.1 h
    refine ⟨change, (Prod.mk.inj he).2.symm, ?_⟩
    intro n hn
    rw [(inferChange_after hchange).2] at hn
    unfold PatchColumnNames.read at hn
    simp only [] at hn
    split at hn
    · rw [List.mem_singleton.1 hn, String.toList_ofList]
      exact nul_not_mem_cString name
    · rw [List.map_map] at hn
      obtain ⟨t, ht, rfl⟩ := List.mem_map.1 hn
      exact nul_notMem_keyOf (hrest t ht)

/-- The terms of a column line are read as the names with their escapes undone. -/
theorem keyOf_stringy (n : String) :
    keyOf (unescape (stringy n false)) = String.ofList (unescape n.toList) :=
  keyOf_shown (shown_celly ⟨n, false⟩ false)

theorem nul_notMem_stringy {n : String} (h : '\x00' ∉ n.toList) (quoteSpace : Bool) :
    '\x00' ∉ stringy n quoteSpace :=
  nul_notMem_celly (Or.inr h) quoteSpace

theorem stringy_eq_nil {n : String} : stringy n true = [] ↔ n = "" := by
  constructor
  · intro h
    rw [stringy] at h
    rcases celly_cases (c := ⟨n, false⟩) rfl true with heq | ⟨-, heq⟩
    · rw [heq] at h
      cases h
    · rw [heq] at h
      exact String.toList_eq_nil_iff.1 h
  · rintro rfl
    decide

/-! ## The two lines -/

/-- The condition under which the two lines are read back: the names before stand between bars as
they are, those after have no null character and no escapes, the subject is not empty unless it is
the first column of all, which is not quoted, and the change is no move to the left by one. -/
structure ReadsBack {names : List String} (e : ColumnEdit names) : Prop where
  before : ∀ n ∈ names, RawFine n
  after : ∀ n ∈ e.target, '\x00' ∉ n.toList ∧ Unescaped n.toList
  named : e.subject ≠ "" ∨ names = []
  first : names = [] → quotes ⟨e.subject, false⟩ true = false
  unmistaken : ¬ e.ToLeftByOne

/-- The calls are the declaration of the names, and a change that says the same. -/
def ReadAs {names : List String} (e : ColumnEdit names) (calls : List PatchCall) : Prop :=
  ∃ change, calls = [.changeName names false, .changeColumn change] ∧ e.SaysSame change

section
variable {names : List String} (e : ColumnEdit names)

/-- The names before the change, as the declaration leaves them. -/
def declared (names : List String) : TdiffState :=
  { cols := names.map fun n => TDiffPart.apply n.toList true }

theorem names_declared {names : List String} (h : ∀ n ∈ names, RawFine n) :
    (declared names).cols.map TDiffPart.name = names := by
  unfold declared
  rw [List.map_map]
  conv_rhs => rw [← List.map_id names]
  refine List.map_congr_left fun n hm => ?_
  exact (keyOf_whole (h n hm).whole).trans String.ofList_toList

/-- The column line of an edit. -/
def editLine : List Char :=
  lineOf e.mode (cString (stringy e.subject true)) (e.target.map fun n => cString (stringy n false))

theorem changeColumn_eq {new : Int} {indices : List Int} {change : OrderChange}
    (h : ColumnEdit.Follows new indices e change) :
    changeColumn change = some (editLine e ++ ['\n']) := by
  unfold changeColumn editLine lineOf
  rw [h.subjectName, h.mode, h.namesAfter]
  rfl

theorem feed_notMem_stringy (s : String) (quoteSpace : Bool) : '\n' ∉ stringy s quoteSpace := by
  rw [stringy]
  rcases celly_cases (c := ⟨s, false⟩) rfl quoteSpace with heq | ⟨hneed, heq⟩
  · rw [heq, List.mem_cons, List.mem_append]
    rintro (h | h | h)
    · exact absurd h (by decide)
    · exact (mem_quotedWords (by decide) h).2.1 rfl
    · exact absurd h (by decide)
  · rw [heq]
    exact fun h => ((needQuote_eq_false hneed).1 _ h).1 (by decide)

/-- The column line is one line. -/
theorem readLines_editLine : readLines [] (editLine e ++ ['\n']) = [editLine e] := by
  have hcut : ∀ {t : List Char}, '\n' ∉ t → '\n' ∉ cString t :=
    fun h hm => h ((cString_initial _).subset hm)
  have hmark : ∀ mode, '\n' ∉ columnMark mode := fun mode => by cases mode <;> decide
  have hfree : '\n' ∉ editLine e := by
    unfold editLine lineOf barred
    rw [List.mem_append, List.mem_append, List.mem_append, List.mem_cons, List.mem_flatMap]
    rintro (((h | h | h) | h) | ⟨t, ht, h⟩)
    · exact hmark _ h
    · exact absurd h (by decide)
    · exact hcut (feed_notMem_stringy _ _) h
    · exact absurd h (by decide)
    · obtain ⟨n, -, rfl⟩ := List.mem_map.1 ht
      rcases List.mem_append.1 h with h | h
      · exact hcut (feed_notMem_stringy _ _) h
      · exact absurd h (by decide)
  have hstrip : stripReturns (editLine e) = editLine e := by
    refine stripReturns_eq ?_ ?_
    · unfold editLine lineOf
      cases e.mode <;> exact fun h => absurd (Option.some.inj h) (by decide)
    · unfold editLine lineOf
      rcases List.eq_nil_or_concat (e.target.map fun n => cString (stringy n false)) with h
        | ⟨init, last, h⟩
      · have hlast : columnMark e.mode ++ ' ' :: cString (stringy e.subject true) ++ [' ', '|'] ++
          barred [] =
            columnMark e.mode ++ ' ' :: cString (stringy e.subject true) ++ [' '] ++ ['|'] := by
              simp [barred]
        rw [h, hlast, List.getLast?_concat]
        decide
      · unfold barred
        rw [h, List.concat_eq_append, List.flatMap_append, List.flatMap_singleton,
          ← List.append_assoc, ← List.append_assoc, List.getLast?_concat]
        decide
  have h := readLines_append hfree [] []
  rw [List.nil_append, hstrip] at h
  exact h

theorem nul_notMem_editLine : '\x00' ∉ editLine e := by
  have hmark : ∀ mode, '\x00' ∉ columnMark mode := fun mode => by cases mode <;> decide
  unfold editLine lineOf barred
  rw [List.mem_append, List.mem_append, List.mem_append, List.mem_cons, List.mem_flatMap]
  rintro (((h | h | h) | h) | ⟨t, ht, h⟩)
  · exact hmark _ h
  · exact absurd h (by decide)
  · exact nul_not_mem_cString _ h
  · exact absurd h (by decide)
  · obtain ⟨n, -, rfl⟩ := List.mem_map.1 ht
    rcases List.mem_append.1 h with h | h
    · exact nul_not_mem_cString _ h
    · exact absurd h (by decide)

/-- The tokens of a column line behind its mark, if no name has a null character. -/
theorem tokens_editLine (hsubject : '\x00' ∉ e.subject.toList)
    (htarget : ∀ n ∈ e.target, '\x00' ∉ n.toList) :
    tokens (editLine e) = columnMark e.mode ::
      ((if e.subject = "" then [] else [stringy e.subject true]) ++ e.target.map fun n =>
        stringy n false) := by
  have hterms : (e.target.map fun n => cString (stringy n false)) = e.target.map fun n =>
    stringy n false :=
    List.map_congr_left fun n hn => cString_of_not_mem (nul_notMem_stringy (htarget n hn) false)
  have hclosed : ∀ t ∈ e.target.map fun n => stringy n false, closes false t = true :=
    List.forall_mem_map.2 fun n _ => closes_celly ⟨n, false⟩ false
  unfold editLine
  rw [hterms, cString_of_not_mem (nul_notMem_stringy hsubject true),
    tokens_lineOf e.mode (tight_stringy _) hclosed]
  simp only [stringy_eq_nil]

/-- The name that is given for a quoted subject is another. -/
theorem given_ne {x : String} (hx : Unescaped x.toList) (hq : quotes ⟨x, false⟩ true = true) :
    String.ofList (unescape (stringy x true)) ≠ x := by
  have hshown := shown_celly ⟨x, false⟩ true
  rw [hq] at hshown
  have htold : told ⟨x, false⟩ = x.toList :=
    (if_neg Bool.false_ne_true).trans (unescape_of_unescaped hx)
  rw [htold] at hshown
  intro h
  have hlen := congrArg (fun s : String => s.toList.length) h
  simp only [String.toList_ofList] at hlen
  have hdouble : ∀ text : List Char, text.length ≤ (double text).length := by
    intro text
    induction text with
    | nil => exact le_refl _
    | cons ch text ih =>
      have hcons : double (ch :: text) = (if ch = '\'' then ['\'', '\''] else [ch]) ++
        double text := rfl
      rw [hcons, List.length_append, List.length_cons]
      have hone : 1 ≤ (if ch = '\'' then ['\'', '\''] else [ch]).length := by split <;> simp
      omega
  have hle := hdouble x.toList
  unfold stringy at hlen
  generalize unescape (celly ⟨x, false⟩ true) = piece at *
  cases hshown with
  | quoted =>
    rw [List.length_append, List.length_cons, List.length_singleton] at hlen
    omega

/-- A bare subject is given as it is. -/
theorem given_eq {x : String} (hx : Unescaped x.toList) (hq : quotes ⟨x, false⟩ true = false) :
    String.ofList (unescape (stringy x true)) = x := by
  have hshown := shown_celly ⟨x, false⟩ true
  rw [hq] at hshown
  have htold : told ⟨x, false⟩ = x.toList :=
    (if_neg Bool.false_ne_true).trans (unescape_of_unescaped hx)
  rw [htold] at hshown
  unfold stringy
  generalize unescape (celly ⟨x, false⟩ true) = piece at *
  cases hshown with
  | bare => exact String.ofList_toList

/-- The first column of all is found if its own name is given with it. -/
theorem first_notInferred {x given : String} (h : given ≠ x) :
    inferChange (.read [x]) (.read []) .insert (some given) = none := by
  have hkeep : ([x].filter fun y => decide (y ≠ given) || false) = [x] := by simp [Ne.symm h]
  unfold inferChange infer inferInsert autoStart PatchColumnNames.read
  simp only [List.length_nil, if_true, hkeep]
  rfl

variable (other : List TDiffPart → List (List Char) → Option (List TDiffPart × List PatchCall))

theorem applyLines_singleton (s : TdiffState) (line : List Char) :
    applyLines other s [line] = (applyLine other s line).map Prod.snd := by
  rw [applyLines]
  cases applyLine other s line with
  | none => rfl
  | some r => exact congrArg some (List.append_nil r.2)

/-- A line whose names have no null character, with a subject that is not empty. -/
theorem applyLine_editLine (hbefore : ∀ n ∈ names, RawFine n)
    (htarget : ∀ n ∈ e.target, '\x00' ∉ n.toList) (hsubject : e.subject ≠ "") :
    (applyLine other (declared names) (editLine e)).map Prod.snd =
      (inferChange (.read (e.target.map fun n => String.ofList (unescape n.toList)))
        (.read names) e.mode
          (some (String.ofList (unescape (stringy e.subject true))))).map fun change =>
          [.changeColumn change] := by
  have hnul : '\x00' ∉ e.subject.toList :=
    e.subject_mem.elim (fun h => (hbefore _ h).nul) (htarget _)
  have htokens := tokens_editLine e hnul htarget
  rw [if_neg hsubject, List.singleton_append] at htokens
  have hgiven :
    cString (unescape (stringy e.subject true)) = unescape (stringy e.subject true) := by
    refine cString_of_not_mem fun h => ?_
    rcases mem_of_mem_unescape h with h | h | h | h
    · exact nul_notMem_stringy hnul true h
    · exact absurd h (by decide)
    · exact absurd h (by decide)
    · exact absurd h (by decide)
  have hnames :
    (((e.target.map fun n => stringy n false).map unescape).map (TDiffPart.apply · true)).map
    TDiffPart.name =
      e.target.map fun n => String.ofList (unescape n.toList) := by
    rw [List.map_map, List.map_map, List.map_map]
    exact List.map_congr_left fun n _ => keyOf_stringy n
  have hfirst : ¬ (e.mode = .insert ∧
      ((e.target.map fun n => stringy n false).map unescape).map (TDiffPart.apply · true) =
        []) := by
    rintro ⟨hmode, hnil⟩
    cases e with
    | insert k name hk hnew =>
      have hlen := congrArg List.length hnil
      rw [List.length_map, List.length_map, List.length_map] at hlen
      have hinsert : ((ColumnEdit.insert k name hk hnew).target).length = names.length + 1 :=
        List.length_insertIdx_of_le_length hk name
      rw [hinsert] at hlen
      cases hlen
    | _ => cases hmode
  rw [applyLine_lineOf other (declared names) rfl htokens, List.map_cons]
  unfold applyColumnLine
  simp only [hgiven, if_neg hfirst, hnames, names_declared hbefore]
  rw [Option.map_map]
  rfl

/-- An empty subject is passed over, and the first name is taken for it. -/
theorem not_saysSame_of_empty (htarget : ∀ n ∈ e.target, '\x00' ∉ n.toList)
    (hsubject : e.subject = "") (hnames : names ≠ []) {s' : TdiffState} {change : OrderChange}
    (h : applyLine other (declared names) (editLine e) = some (s', [.changeColumn change])) :
    ¬ e.SaysSame change := by
  intro hsame
  have hnul : '\x00' ∉ e.subject.toList := by
    rw [hsubject]
    exact List.not_mem_nil
  have htokens := tokens_editLine e hnul htarget
  rw [if_pos hsubject, List.nil_append] at htokens
  rw [applyLine_lineOf other (declared names) rfl htokens] at h
  cases hrest : e.target with
  | nil =>
    rw [hrest] at h
    cases h
  | cons t ts =>
    rw [hrest] at h
    unfold applyColumnLine at h
    obtain ⟨change', hchange, he⟩ := Option.map_eq_some_iff.1 h
    have hsays := (inferChange_after hchange).2
    have hsame' : change' = change := by
      injection (List.cons.inj (Prod.mk.inj he).2).1
    rw [hsame', hsame.after, hrest] at hsays
    have hlen := congrArg List.length hsays
    unfold PatchColumnNames.read at hlen
    simp only [] at hlen
    split at hlen
    · next hone =>
      -- an insertion with a single name behind it is the first column
      obtain ⟨hmode, hnil⟩ := hone
      rw [List.map_eq_nil_iff, List.map_eq_nil_iff, List.map_eq_nil_iff] at hnil
      cases e with
      | insert k name hk hnew =>
        have hinsert : ((ColumnEdit.insert k name hk hnew).target).length = names.length + 1 :=
          List.length_insertIdx_of_le_length hk name
        rw [hrest, hnil, List.length_singleton] at hinsert
        exact hnames (List.eq_nil_of_length_eq_zero (by omega))
      | _ => cases hmode
    · rw [List.length_cons, List.length_map, List.length_map, List.length_map,
        List.length_map] at hlen
      omega

/-- The first column of all, if its name is empty. -/
theorem applyLine_firstEmpty {e : ColumnEdit []} (hsubject : e.subject = "") :
    ∃ change, (applyLine other (declared []) (editLine e)).map Prod.snd =
    some [.changeColumn change] ∧ e.SaysSame change := by
  cases e with
  | insert k name hk hnew =>
    obtain rfl : name = "" := hsubject
    obtain rfl : k = 0 := Nat.le_zero.1 hk
    have hgiven : ([] : List String) = [] → "" = (ColumnEdit.insert 0 "" hk hnew).subject :=
      fun _ => rfl
    obtain ⟨change, hchange, hsame⟩ :=
      (ColumnEdit.inferred_saysSame_iff List.nodup_nil (.insert 0 "" hk hnew) hgiven).2 id
    refine ⟨change, ?_, hsame⟩
    have htokens : tokens (editLine (.insert 0 "" hk hnew)) = columnMark .insert :: [[]] := by
      show tokens
        (lineOf .insert (cString (stringy "" true)) ([""].map fun n => cString (stringy n false))) =
        _
      decide
    have hline := applyLine_lineOf other (declared []) rfl htokens
    have hcall : applyColumnLine (declared []) .insert [[]] =
        (inferChange (.read [""]) (.read []) .insert (some "")).map fun change =>
        (declared [], [.changeColumn change]) := rfl
    have hread : inferChange (.read [""]) (.read []) .insert (some "") = some change := hchange
    have hunescape : List.map unescape [[]] = [[]] := rfl
    rw [hline, hunescape, hcall, hread]
    rfl
  | delete i hi => exact absurd hi (Nat.not_lt_zero i)
  | move i k hi hk hne => exact absurd hi (Nat.not_lt_zero i)
  | rename i name hi hnew => exact absurd hi (Nat.not_lt_zero i)

/-- A column without a name goes in first of all, or there was one before. -/
theorem target_of_nil {e : ColumnEdit []} : e.mode = .insert ∧ e.target = [e.subject] := by
  cases e with
  | insert k name hk hnew =>
    obtain rfl : k = 0 := Nat.le_zero.1 hk
    exact ⟨rfl, rfl⟩
  | delete i hi => exact absurd hi (Nat.not_lt_zero i)
  | move i k hi hk hne => exact absurd hi (Nat.not_lt_zero i)
  | rename i name hi hnew => exact absurd hi (Nat.not_lt_zero i)

/-- The column line, behind a declaration that is read. -/
theorem secondLine_iff (hn : names.Nodup) (hbefore : ∀ n ∈ names, RawFine n) :
    (∃ change, (applyLine other (declared names) (editLine e)).map Prod.snd =
      some [.changeColumn change] ∧ e.SaysSame change) ↔
      ReadsBack e := by
  have hnul :
    (∃ change, (applyLine other (declared names) (editLine e)).map Prod.snd =
      some [.changeColumn change] ∧ e.SaysSame change) → ∀ n ∈ e.target, '\x00' ∉ n.toList := by
    rintro ⟨change, hcall, hsame⟩
    obtain ⟨⟨s', calls⟩, hline, rfl⟩ := Option.map_eq_some_iff.1 hcall
    obtain ⟨es, htokens⟩ : ∃ es, tokens (editLine e) = columnMark e.mode :: es :=
      tokens_lineOf_mark ..
    rw [applyLine_lineOf other (declared names) rfl htokens] at hline
    have hfree : ∀ t ∈ es.map unescape, '\x00' ∉ t := fun t ht => by
      refine nul_notMem_normalizedMessage (nul_notMem_editLine e) t ?_
      have hmessage : normalizedMessage (editLine e) = (columnMark e.mode :: es).map unescape :=
        congrArg (List.map unescape) htokens
      rw [hmessage]
      exact List.mem_cons_of_mem _ ht
    obtain ⟨change', hcalls, hafter⟩ := nul_notMem_after hfree hline
    have hsame' : change = change' := by
      injection (List.cons.inj hcalls).1
    rw [← hsame.after, hsame']
    exact hafter
  by_cases htarget : ∀ n ∈ e.target, '\x00' ∉ n.toList
  swap
  · exact iff_of_false (fun h => htarget (hnul h)) fun h => htarget fun n hm => (h.after n hm).1
  by_cases hsubject : e.subject = ""
  · by_cases hnames : names = []
    · subst hnames
      refine iff_of_true (applyLine_firstEmpty other hsubject) ⟨hbefore, ?_, Or.inr rfl,
        fun _ => ?_, ?_⟩
      · rw [target_of_nil.2, hsubject]
        exact List.forall_mem_singleton.2 ⟨List.not_mem_nil, unescaped_of_notMem List.not_mem_nil⟩
      · rw [hsubject]
        decide
      · cases e with
        | move i k hi hk hne => exact absurd hi (Nat.not_lt_zero i)
        | _ => exact id
    · refine iff_of_false ?_ fun h => h.named.elim (fun hne => hne hsubject) hnames
      rintro ⟨change, hcall, hsame⟩
      obtain ⟨⟨s', calls⟩, hline, rfl⟩ := Option.map_eq_some_iff.1 hcall
      exact not_saysSame_of_empty e other htarget hsubject hnames hline hsame
  · rw [applyLine_editLine e other hbefore htarget hsubject]
    -- what is inferred says the names as they are read
    have hself : (e.target.map fun n => String.ofList (unescape n.toList)) = e.target ↔
      ∀ n ∈ e.target, Unescaped n.toList := by
      have hone : ∀ n : String, String.ofList (unescape n.toList) = n ↔ Unescaped n.toList :=
        fun n => by
        rw [← unescape_eq_self_iff]
        exact ⟨fun h => by rw [← String.toList_ofList (l := unescape n.toList), h],
          fun h => by rw [h, String.ofList_toList]⟩
      constructor
      · intro h n hm
        exact (hone n).1 (List.map_inj_left.1 (h.trans (List.map_id _).symm) n hm)
      · intro h
        exact (List.map_congr_left fun n hm => (hone n).2 (h n hm)).trans (List.map_id _)
    have hfirst : names = [] → ∀ {change}, (∀ n ∈ e.target, Unescaped n.toList) →
        inferChange (.read e.target) (.read names) e.mode
          (some (String.ofList (unescape (stringy e.subject true)))) = some change →
        quotes ⟨e.subject, false⟩ true = false := by
      rintro rfl change hun hchange
      obtain ⟨hmode, honly⟩ := target_of_nil (e := e)
      rw [hmode, honly] at hchange
      rw [← Bool.not_eq_true]
      intro hq
      have hx : Unescaped e.subject.toList := hun _ (by rw [honly]; exact List.mem_singleton_self _)
      rw [first_notInferred (given_ne hx hq)] at hchange
      cases hchange
    have hgiven : (∀ n ∈ e.target, Unescaped n.toList) →
      (names = [] → quotes ⟨e.subject, false⟩ true = false) →
        names = [] → String.ofList (unescape (stringy e.subject true)) = e.subject := by
      rintro hun hbare rfl
      obtain ⟨-, honly⟩ := target_of_nil (e := e)
      exact given_eq (hun _ (by rw [honly]; exact List.mem_singleton_self _)) (hbare rfl)
    constructor
    · rintro ⟨change, hcall, hsame⟩
      obtain ⟨change', hchange, hcalls⟩ := Option.map_eq_some_iff.1 hcall
      have hsame' : change' = change := by
        injection (List.cons.inj hcalls).1
      subst hsame'
      have hun := hself.1 ((inferChange_after hchange).2.symm.trans hsame.after)
      rw [hself.2 hun] at hchange
      have hbare := fun hnil => hfirst hnil hun hchange
      exact ⟨hbefore, fun n hm => ⟨htarget n hm, hun n hm⟩, Or.inl hsubject, hbare,
        (ColumnEdit.inferred_saysSame_iff hn e (hgiven hun hbare)).1 ⟨change', hchange, hsame⟩⟩
    · intro h
      have hun := fun n hm => (h.after n hm).2
      rw [hself.2 hun]
      obtain ⟨change, hchange, hsame⟩ :=
        (ColumnEdit.inferred_saysSame_iff hn e (hgiven hun h.first)).2 h.unmistaken
      exact ⟨change, by rw [hchange]; rfl, hsame⟩

end

/-- A change of distinct columns, as it is reported. -/
structure ColumnReport where
  names : List String
  nodup : names.Nodup
  edit : ColumnEdit names
  new : Int
  indices : List Int
  change : OrderChange
  follows : edit.Follows new indices change

/-- **The two lines are read back**: the same names, and a change that says the same, if and only if
the names and the change are of this kind. -/
theorem columnLines_iff (other : List TDiffPart → List (List Char) →
    Option (List TDiffPart × List PatchCall)) (r : ColumnReport) :
    (∃ line calls, changeColumn r.change = some line ∧
      applyTdiff other (changeName r.names ++ line) = some calls ∧
      ReadAs r.edit calls) ↔ ReadsBack r.edit := by
  have hread :
    ∀ calls : List PatchCall, applyTdiff other (changeName r.names ++ (editLine r.edit ++ ['\n'])) =
    some calls →
      (∀ n ∈ r.names, RawFine n) →
      ∃ more, (applyLine other (declared r.names) (editLine r.edit)).map Prod.snd = some more ∧
        calls = .changeName r.names false :: more := by
    intro calls hcalls hbefore
    rw [applyTdiff_declared other hbefore, readLines_editLine] at hcalls
    obtain ⟨more, hmore, rfl⟩ := Option.map_eq_some_iff.1 hcalls
    rw [← declared, applyLines_singleton] at hmore
    exact ⟨more, hmore, rfl⟩
  constructor
  · rintro ⟨line, calls, hline, hcalls, change, rfl, hsame⟩
    rw [changeColumn_eq r.edit r.follows] at hline
    obtain rfl := Option.some.inj hline
    have hbefore := raw_of_declared other hcalls
    obtain ⟨more, hmore, he⟩ := hread _ hcalls hbefore
    rw [← (List.cons.inj he).2] at hmore
    exact (secondLine_iff r.edit other r.nodup hbefore).1 ⟨change, hmore, hsame⟩
  · intro h
    obtain ⟨change, hcall, hsame⟩ := (secondLine_iff r.edit other r.nodup h.before).2 h
    refine ⟨_, _, changeColumn_eq r.edit r.follows, ?_, change, rfl, hsame⟩
    rw [applyTdiff_declared other h.before, readLines_editLine, ← declared,
      applyLines_singleton, hcall]
    rfl

/-- A column `b` goes in behind a column `a:b`: the declaration is read as the single name `a`. -/
theorem columnLines_cut :
    ∃ r : ColumnReport, ∃ line, r.names = ["a:b"] ∧ r.change.mode = .insert ∧
    r.change.namesAfter = ["a:b", "b"] ∧
      changeColumn r.change = some line ∧
      ¬ ∃ calls, applyTdiff (fun _ _ => none) (changeName r.names ++ line) = some calls ∧
      ReadAs r.edit calls := by
  refine ⟨⟨["a:b"], List.nodup_singleton _, .insert 1 "b" (by decide) (by decide), -1, [0],
    ⟨[0], ["a:b"], [0, -1], ["a:b", "b"], -1, -1, .insert⟩, rfl, rfl, rfl, rfl, rfl, rfl, by
      decide, by decide, rfl⟩,
    "@+ b |'a:b'|b|\n".toList, rfl, rfl, rfl, by decide +kernel, ?_⟩
  rintro ⟨calls, hcalls, change, rfl, -⟩
  have hread :
    (applyTdiff (fun _ _ => none) (changeName ["a:b"] ++ "@+ b |'a:b'|b|\n".toList)).map
    List.head? =
      some (some (.changeName ["a"] false)) := by
    decide +kernel
  rw [hcalls] at hread
  have hnames : ["a:b"] = ["a"] := by
    injection Option.some.inj (Option.some.inj hread)
  exact absurd hnames (by decide)

end Tdiff

end Coopy
