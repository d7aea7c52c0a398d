import Coopy.TdiffColumns
import Coopy.TdiffRowChanges

/-!
# A tdiff written and read

The text of the writer is read line by line, and the two go on in step.  A header is written only
where the operations change, so what is kept between two rows is `Agreed`: the columns that the
parser has fit every row with the operations that the writer has.  It holds behind a row in either
form, behind a blank one as well, which leaves no columns and no operations.

    a row, written in either form, is read back, and the two agree again       (Written.writeRow)
    the rows come back in their order, whichever of them are factored          (rows_roundTrip)
-/

namespace Coopy

open Lib MergeOutputTdiff

namespace Tdiff

/-! ## Lines -/

/-- From `s` on, the text is read to its end with these rows as calls. -/
structure Told (text : List Char) (s s' : Reading) (rows : List RowChange) : Prop where
  ends : text = [] ∨ text.getLast? = some '\n'
  read : ∃ calls, readText {} s (readLines [] text) = some (s', calls) ∧
    calls.filterMap PatcherCall.row? = rows

section
variable {text text' line : List Char} {s s' s'' : Reading} {rows rows' : List RowChange}
    {calls : List PatcherCall}

theorem Told.append (h : Told text s s' rows) (h' : Told text' s' s'' rows') :
    Told (text ++ text') s s'' (rows ++ rows') where
  ends := by
    rcases h'.ends with rfl | hlast
    · rw [List.append_nil]
      exact h.ends
    · exact Or.inr (by rw [List.getLast?_append, hlast]; rfl)
  read := by
    obtain ⟨calls, hread, hrows⟩ := h.read
    obtain ⟨calls', hread', hrows'⟩ := h'.read
    refine ⟨calls ++ calls', ?_, ?_⟩
    · rw [readLines_between h.ends, readText_append, hread]
      show Option.map (after calls) (readText {} s' _) = _
      rw [hread']
      rfl
    · rw [List.filterMap_append, hrows, hrows']

theorem Told.of_line (line : List Char) (calls : List PatcherCall) (hfeed : '\n' ∉ line)
    (hhead : line.head? ≠ some '\r') (hlast : line.getLast? ≠ some '\r')
    (h : readLine {} s line = some (s', calls)) :
    Told (line ++ ['\n']) s s' (calls.filterMap PatcherCall.row?) where
  ends := Or.inr (List.getLast?_concat ..)
  read := by
    refine ⟨calls, ?_, rfl⟩
    rw [readLines_append hfeed, List.nil_append, stripReturns_eq hhead hlast, readText, h]
    show some (s', calls ++ []) = _
    rw [List.append_nil]

/-- An empty line. -/
theorem Told.feed (hs : s.inComment = false) : Told ['\n'] s s [] := by
  refine Told.of_line [] [] List.not_mem_nil nofun nofun ?_
  unfold readLine
  rw [if_neg (by rw [hs]; exact Bool.false_ne_true)]
  rfl

/-- A line that is neither a comment nor a row in conflict. -/
theorem readLine_words (hs : s.inComment = false) {first : List Char} {rest : List (List Char)}
    (hmessage : normalizedMessage line = first :: rest) (hbang : first.head? ≠ some '!')
    (hhash : first.head? ≠ some '#') (hopen : first.head? ≠ some '/') :
    readLine {} s line = applyWords {} s first false rest := by
  have hnone : ['/', '*'].isPrefixOf first = false := by
    refine Bool.eq_false_iff.2 fun h => hopen ?_
    obtain ⟨t, rfl⟩ := List.isPrefixOf_iff_prefix.1 h
    rfl
  unfold readLine
  rw [if_neg (by rw [hs]; exact Bool.false_ne_true), hmessage]
  simp only [decide_eq_false hbang, Bool.false_eq_true, if_false, if_neg hhash, hnone]

/-- A line with a mark and terms. -/
theorem Told.of_terms (op : Operator) (hop : op.text.head? ∉ [some '!', some '#', some '/'] ∧
    '\n' ∉ op.text)
    {terms : List (List Char)} (hterms : ∀ t ∈ terms, Clean t) (hs : s.inComment = false)
    (h : applyWords {} s op.text false terms = some (s', calls)) :
    Told (op.text ++ [' ', '|'] ++ barred terms ++ ['\n']) s s'
      (calls.filterMap PatcherCall.row?) := by
  have hbarred : '\n' ∉ barred terms := by
    unfold barred
    rw [List.mem_flatMap]
    rintro ⟨t, ht, hin⟩
    rcases List.mem_append.1 hin with h | h
    · exact (hterms t ht).oneLine h
    · exact absurd h (by decide)
  have hmessage : normalizedMessage (op.text ++ [' ', '|'] ++ barred terms) = op.text :: terms := by
    have htokens : tokens (op.text ++ [' ', '|'] ++ barred terms) = op.text :: terms :=
      tokens_terms op fun t ht => (hterms t ht).closed
    have hself : terms.map unescape = terms := by
      conv_rhs => rw [← List.map_id terms]
      exact List.map_congr_left fun t ht =>
        unescape_of_unescaped (unescaped_of_notMem (hterms t ht).unescaped)
    unfold normalizedMessage
    rw [htokens, List.map_cons, op.unescape_text, hself]
  have hheads : op.text.head? ≠ some '!' ∧ op.text.head? ≠ some '#' ∧ op.text.head? ≠ some '/' := by
    simpa using hop.1
  obtain ⟨hbang, hhash, hopen⟩ := hheads
  refine Told.of_line _ calls ?_ ?_ ?_ ((readLine_words hs hmessage hbang hhash hopen).trans h)
  · rw [List.mem_append, List.mem_append]
    rintro ((h | h) | h)
    · exact hop.2 h
    · exact absurd h (by decide)
    · exact hbarred h
  · rw [List.append_assoc, List.head?_append_of_ne_nil _ op.some_char]
    exact fun h => (op.plain _ (List.mem_of_mem_head? h)).2.2.1 rfl
  · -- the last character is a bar
    rcases List.eq_nil_or_concat terms with rfl | ⟨init, last, rfl⟩
    · rw [show barred [] = [] from rfl, List.append_nil, List.getLast?_append]
      exact fun h => absurd (Option.some.inj h) (by decide)
    · unfold barred
      rw [List.concat_eq_append, List.flatMap_append, List.flatMap_singleton, ← List.append_assoc,
        ← List.append_assoc, List.getLast?_concat]
      decide

theorem needTable_default (s : Reading) : needTable {} s = (s, []) := by
  unfold needTable
  split <;> rfl

/-! ## Lines of the writer -/

/-- The operator of a kind of rows. -/
theorem rowKind_operator {mode : RowChangeMode} {ch : Char} {assign update : Bool}
    (h : RowKind mode ch assign update) :
    Plain ch ∧ some ch ∉ [some '!', some '#', some '/'] ∧ ch ≠ '\n' ∧ skipsRow {} mode = false := by
  cases h <;> decide

theorem applyWords_row {mode : RowChangeMode} {ch : Char} {assign update : Bool}
    (h : RowKind mode ch assign update) (terms : List (List Char)) :
    applyWords {} s [ch] false terms = applyRow {} s mode false terms := by
  have hmode : applyWords {} s [ch] false terms =
      (applyRow {} (needTable {} s).1 mode false terms).map (after (needTable {} s).2) := by
    cases h <;> rfl
  rw [hmode, needTable_default, after_nil, Option.map_id]
  rfl

theorem applyRow_eq (flags : FilterFlags) {mode : RowChangeMode} (conflict : Bool)
    {terms : List (List Char)}
    {cols : List TDiffPart} (hcols : rowColumns s.cols (terms.map (TDiffPart.apply · false)) =
      some cols)
    (hskip : skipsRow flags mode = false) :
    ∃ allNames, applyRow flags s mode conflict terms =
      some ({ s with cols, allNames }, [.changeRow
        { rowChange mode conflict cols (terms.map (TDiffPart.apply · false)) with allNames }]) := by
  unfold applyRow
  simp only [hcols, hskip]
  exact ⟨_, rfl⟩

/-- The columns in a header line. -/
def headerTerm (w : MergeOutputTdiff) (n : String) : List Char :=
  cString (stringy n false) ++ if w.showForSelect.holds n then ['='] else []

theorem operateRow_out {w : MergeOutputTdiff} {r : RowChange} (hw : Chosen w r) :
    (w.operateRow r).out = w.out ++
    (['@'] ++ [' ', '|'] ++ barred ((active r).map (headerTerm w)) ++ ['\n']) := by
  unfold operateRow MergeOutputTdiff.print barred headerTerm
  rw [hw.actives, List.flatMap_map]
  rfl

theorem updateRow_out {w : MergeOutputTdiff} {r : RowChange} (hw : Chosen w r)
    (hconflict : r.conflicted = false) (ch : Char) (assign update factored : Bool) :
    (w.updateRow r ch assign update factored).out =
      w.out ++
      ([ch] ++ [' ', '|'] ++ barred ((active r).map (rowTerm w r ch assign update factored)) ++
        ['\n']) := by
  unfold updateRow MergeOutputTdiff.print barred rowTerm
  rw [hw.actives, List.flatMap_map, hconflict]
  rfl

section
variable {names condColumns : List String} {r : RowChange} {w : MergeOutputTdiff}

/-- The mark of a header. -/
def heads : Operator where
  text := ['@']
  some_char := List.cons_ne_nil _ _
  plain := plain_of_all (by decide)

/-- The header gives the columns of the row. -/
theorem told_header (condColumns : List String) (w : MergeOutputTdiff)
    (halpha : ∀ n ∈ active r, Alphanumeric n.toList) (hs : s.inComment = false) :
    ∃ cols, List.Forall₂ (Fits condColumns) cols (active r) ∧
      Told (['@'] ++ [' ', '|'] ++ barred ((active r).map (headerTerm w)) ++ ['\n']) s
        { s with cols } [] := by
  have hterm : ∀ n ∈ active r, Clean (headerTerm w n) ∧
      TDiffPart.apply (headerTerm w n) true =
      { key := some n, isId := w.showForSelect.holds n } := by
    intro n hn
    obtain ⟨q, hname⟩ := piece_stringy (halpha n hn) false
    unfold headerTerm
    rw [cString_stringy (halpha n hn)]
    refine ⟨hname.clean.append ?_, (apply_header hname _).trans (by rw [String.ofList_toList])⟩
    cases w.showForSelect.holds n with
    | false => exact piece_nil.clean
    | true => exact clean_sep .equals
  refine ⟨((active r).map (headerTerm w)).map (TDiffPart.apply · true), ?_, ?_⟩
  · rw [List.map_map, List.forall₂_map_left_iff, List.forall₂_same]
    intro n hn
    rw [Function.comp_apply, (hterm n hn).2]
    exact ⟨rfl, nofun⟩
  · exact Told.of_terms heads (by decide) (List.forall_mem_map.2 fun n hn => (hterm n hn).1) hs rfl

/-- The line of a row gives the row, if the columns are right. -/
theorem told_row (hr : Reported names condColumns r) (hw : Chosen w r)
    (halpha : ∀ n ∈ active r, Alphanumeric n.toList)
    {ch : Char} {assign update : Bool} (hkind : RowKind r.mode ch assign update) {factored : Bool}
    (hs : s.inComment = false)
    (hcols : factored = true → active r ≠ [] → List.Forall₂ (Fits condColumns) s.cols (active r)) :
    ∃ s' r',
      Told ([ch] ++ [' ', '|'] ++ barred ((active r).map (rowTerm w r ch assign update factored)) ++
        ['\n']) s s' [r'] ∧
      s'.inComment = false ∧ List.Forall₂ (Fits condColumns) s'.cols (active r) ∧
      Restored r r' := by
  obtain ⟨hplain, hmark, hfeed, hskip⟩ := rowKind_operator hkind
  let terms := (active r).map (rowTerm w r ch assign update factored)
  let op : Operator := ⟨[ch], List.cons_ne_nil _ _, fun c hc => List.mem_singleton.1 hc ▸ hplain⟩
  have hsaid := fun n hn => says_term hw hr hn (halpha n hn) hkind factored
  have hterms :
    List.Forall₂ (fun p n => n ∈ active r ∧ Says p r factored n)
    (terms.map (TDiffPart.apply · false))
      (active r) := by
    rw [List.map_map, List.forall₂_map_left_iff, List.forall₂_same]
    exact fun n hn => ⟨hn, (hsaid n hn).1⟩
  obtain ⟨cols, hcols', hfits, hinsert⟩ := rowColumns_eq hr hterms hcols
  have hrestored := rowChange_restored hr halpha hterms hfits hinsert
  obtain ⟨allNames, happly⟩ := applyRow_eq {} false hcols' hskip
  have hread := (applyWords_row hkind _).trans happly
  refine ⟨{ s with cols, allNames },
    { rowChange r.mode false cols (terms.map (TDiffPart.apply · false)) with allNames }, ?_, hs,
    hfits, hrestored.mode, hrestored.cond, hrestored.val⟩
  refine Told.of_terms op ⟨hmark, fun h => hfeed (List.mem_singleton.1 h).symm⟩ ?_ hs hread
  exact List.forall_mem_map.2 fun n hn => (hsaid n hn).2

end

/-- The first line is a comment. -/
theorem told_start (hs : s.inComment = false) : Told "# tdiff version 0.3\n".toList s s [] := by
  have hmessage : normalizedMessage "# tdiff version 0.3".toList =
      ["#".toList, "tdiff".toList, "version".toList, "0.3".toList] := by decide
  refine Told.of_line "# tdiff version 0.3".toList [] (by decide) (by decide) (by decide) ?_
  unfold readLine
  rw [if_neg (by rw [hs]; exact Bool.false_ne_true), hmessage]
  rfl

/-- The mark of a sheet. -/
def entitles : Operator where
  text := ['@', '@', '@']
  some_char := List.cons_ne_nil _ _
  plain := plain_of_all (by decide)

/-- The line of a sheet leaves the columns. -/
theorem told_sheet {name : String} (hne : name ≠ "") (halpha : Alphanumeric name.toList)
    (hs : s.inComment = false) :
    ∃ s', Told ("\n@@@ ".toList ++ cString (stringy name true) ++ ['\n']) s s' [] ∧
    s'.inComment = false ∧
      s'.cols = s.cols := by
  obtain ⟨q, hname⟩ := piece_stringy halpha true
  generalize htext : stringy name true = text at *
  have hnil : text ≠ [] := fun h => hne (stringy_eq_nil.1 (htext.trans h))
  have htight : tight false text = true := htext ▸ tight_stringy name
  have hpass :
      Transducer.Passes Scanner.step {} ("@@@ ".toList ++ text) ([entitles.text] ++ [])
      (beforeBar text true) :=
    ((passes_operator entitles).snoc (step_blank (Or.inl rfl) _ _)).append (passes_word hnil htight)
  have hlast : (beforeBar text true).last = [text] := if_pos ⟨rfl, hnil, rfl⟩
  have hmessage : normalizedMessage ("@@@ ".toList ++ text) = [entitles.text, text] := by
    unfold normalizedMessage
    rw [tokens_of_passes hpass, hlast]
    show [unescape entitles.text, unescape text] = _
    rw [entitles.unescape_text, unescape_of_unescaped (unescaped_of_notMem hname.unescaped)]
  have hline : Told ("@@@ ".toList ++ text ++ ['\n']) s
      { s with tableName := (TDiffPart.apply text true).name, allNames := [] } [] := by
    refine Told.of_line _ [.setSheet (cName (TDiffPart.apply text true).name)] ?_ nofun ?_
      ((readLine_words hs hmessage (by decide) (by decide) (by decide)).trans rfl)
    · rw [List.mem_append]
      exact fun h => h.elim (by decide) hname.oneLine
    · rw [List.getLast?_append_of_ne_nil _ hnil]
      exact fun h => hname.unreturned (List.mem_of_getLast? h)
  refine ⟨{ s with tableName := (TDiffPart.apply text true).name, allNames := [] }, ?_, hs, rfl⟩
  have htwo :
    "\n@@@ ".toList ++ cString text ++ ['\n'] = ['\n'] ++ ("@@@ ".toList ++ text ++ ['\n']) := by
    rw [cString_of_not_mem hname.printed]
    rfl
  rw [htwo]
  exact (Told.feed hs).append hline

/-- Names that are declared. -/
theorem told_changeName {declared : List String} (halpha : ∀ n ∈ declared, Alphanumeric n.toList)
    (hs : s.inComment = false) : ∃ s', Told (changeName declared) s s' [] ∧
    s'.inComment = false := by
  have hterms : (declared.map fun n => cString n.toList) = declared.map String.toList :=
    List.map_congr_left fun n hn => cString_of_not_mem ((halpha n hn).notMem (by decide))
  have hwords :
    ∀ terms, applyWords {} s declares.text false terms =
    some (declareColumns s declares.text terms) := by
    intro terms
    have h : applyWords {} s declares.text false terms =
        some (after (needTable {} s).2 (declareColumns (needTable {} s).1 declares.text terms)) :=
        rfl
    rw [h, needTable_default]
    rfl
  refine ⟨(declareColumns s declares.text (declared.map String.toList)).1, ?_, hs⟩
  unfold changeName
  rw [hterms]
  exact Told.of_terms declares (by decide) (List.forall_mem_map.2 fun n hn =>
    (halpha n hn).piece.clean) hs (hwords _)

end

/-! ## The writer, line after line -/

/-- The text so far is read with these rows. -/
structure Written (w : MergeOutputTdiff) (s : Reading) (rows : List RowChange) : Prop where
  told : Told w.out {} s rows
  outside : s.inComment = false
  sheet : w.sheetNameShown = false → w.sheetName ≠ "" ∧ Alphanumeric w.sheetName.toList

/-- The parser has the columns of every row with these operations. -/
def Agreed (names condColumns ops : List String) (cols : List TDiffPart) : Prop :=
  ∀ r, Reported names condColumns r → active r ≠ [] → columnOps r = ops →
    List.Forall₂ (Fits condColumns) cols (active r)

section
variable {names condColumns : List String} {w : MergeOutputTdiff} {s : Reading}
    {rows : List RowChange} {r : RowChange}

theorem Written.add (h : Written w s rows) (w' : MergeOutputTdiff) {s' : Reading} {text : List Char}
    {rows' : List RowChange} (ht : Told text s s' rows') (hout : w'.out = w.out ++ text)
    (hs : s'.inComment = false)
    (hsheet : w'.sheetNameShown = false → w.sheetNameShown = false ∧ w'.sheetName = w.sheetName) :
    Written w' s' (rows ++ rows') :=
  ⟨hout ▸ h.told.append ht, hs, fun hshown => (hsheet hshown).2 ▸ h.sheet (hsheet hshown).1⟩

/-- What stands before the rows of a sheet. -/
theorem Written.showSheet (h : Written w s rows) (bound : Bool) :
    ∃ s', Written (w.showSheet bound) s' rows ∧ s'.cols = s.cols ∧ (w.showSheet bound).ops = w.ops ∧
      (w.showSheet bound).rowCache = w.rowCache := by
  let shown : MergeOutputTdiff :=
    if w.sheetNameShown then w
    else { w.print ("\n@@@ ".toList ++ cString (stringy w.sheetName true) ++ ['\n']) with
      sheetNameShown := true
      sheetNameBreakShown := false }
  have htitle : ∃ s', Written shown s' rows ∧ s'.cols = s.cols ∧ shown.ops = w.ops ∧
    shown.rowCache = w.rowCache := by
    cases hshown : w.sheetNameShown with
    | true =>
      have hsame : shown = w := if_pos hshown
      rw [hsame]
      exact ⟨s, h, rfl, rfl, rfl⟩
    | false =>
      have hnew :
        shown = { w.print ("\n@@@ ".toList ++ cString (stringy w.sheetName true) ++ ['\n']) with
          sheetNameShown := true
          sheetNameBreakShown := false } := if_neg (by rw [hshown]; exact Bool.false_ne_true)
      obtain ⟨hne, halpha⟩ := h.sheet hshown
      obtain ⟨s', htold, hs', hcols⟩ := told_sheet hne halpha h.outside
      have hadd :=
        h.add shown htold (by rw [hnew]; rfl) hs' (fun hc => by rw [hnew] at hc; cases hc)
      rw [List.append_nil] at hadd
      exact ⟨s', hadd, hcols, by rw [hnew]; rfl, by rw [hnew]; rfl⟩
  obtain ⟨s', hwritten, hcols, hops, hcache⟩ := htitle
  have hbreak : w.showSheet bound =
      if bound || shown.sheetNameBreakShown then shown
      else { shown.print ['\n'] with sheetNameBreakShown := true } := rfl
  rw [hbreak]
  split
  · exact ⟨s', hwritten, hcols, hops, hcache⟩
  · have hadd :=
      hwritten.add { shown.print ['\n'] with sheetNameBreakShown := true }
      (Told.feed hwritten.outside)
      rfl hwritten.outside fun hc => ⟨hc, rfl⟩
    rw [List.append_nil] at hadd
    exact ⟨s', hadd, hcols, hops, hcache⟩

theorem opText_or {a b c d : Bool} (h : opText a b = opText c d) : (a || b) = (c || d) := by
  revert a b c d
  decide

/-- The operations tell the active columns. -/
theorem active_eq_of_columnOps {r r' : RowChange} (hnames : r.names = r'.names)
    (h : columnOps r = columnOps r') : active r = active r' := by
  unfold columnOps at h
  rw [hnames] at h
  unfold active
  rw [hnames]
  refine List.filter_congr fun n hn => opText_or ?_
  have hop := congrArg String.toList (List.map_inj_left.1 h n hn)
  rw [String.toList_append, String.toList_append] at hop
  exact String.toList_injective (List.append_cancel_right hop)

theorem agreed_of_fits (hr : Reported names condColumns r) {cols : List TDiffPart}
    (h : List.Forall₂ (Fits condColumns) cols (active r)) :
    Agreed names condColumns (columnOps r) cols := by
  intro r' hr' hactive hops
  obtain ⟨n, hn⟩ := List.exists_mem_of_ne_nil _ hactive
  have hnames := names_of_active hr' hn
  have hlen : r'.names.length = r.names.length := by
    have := congrArg List.length hops
    unfold columnOps at this
    rwa [List.length_map, List.length_map] at this
  have hsome : r.names ≠ [] := by
    refine List.length_pos_iff.1 (hlen ▸ List.length_pos_iff.2 ?_)
    exact List.ne_nil_of_mem (List.mem_filter.1 hn).1
  have hnames' : r.names = names := hr.columns.resolve_right fun hblank => hsome hblank.2.1
  rwa [active_eq_of_columnOps (hnames.trans hnames'.symm) hops]

/-- The header, if there is one, makes the parser ready for the row. -/
theorem Written.beginRow (h : Written w s rows) (hagreed : Agreed names condColumns w.ops s.cols)
    (hr : Reported names condColumns r) (halpha : ∀ n ∈ active r, Alphanumeric n.toList)
    (factored : Bool) :
    ∃ s', Written (w.beginRow r factored) s' rows ∧ Chosen (w.beginRow r factored) r ∧
      (w.beginRow r factored).ops = columnOps r ∧
      (factored = true → active r ≠ [] → List.Forall₂ (Fits condColumns) s'.cols (active r)) := by
  obtain ⟨s', hwritten, hcols, hops, -⟩ := h.showSheet false
  let chosen := (w.showSheet false).chooseOps r
  let named : MergeOutputTdiff := { chosen with ops := columnOps r }
  have hchosen : Chosen chosen r := chosen_chooseOps _ r
  have hw : Written chosen s' rows := ⟨hwritten.told, hwritten.outside, hwritten.sheet⟩
  have hops' : chosen.ops = w.ops := hops
  have hnamed : Written named s' rows := ⟨hwritten.told, hwritten.outside, hwritten.sheet⟩
  have hbegin : w.beginRow r factored =
      if factored then if columnOps r ≠ chosen.ops then named.operateRow r else chosen else named :=
      rfl
  rw [hbegin]
  cases factored with
  | false => exact ⟨s', hnamed, hchosen.withOps _, rfl, fun hf => by cases hf⟩
  | true =>
    rw [if_pos rfl, hops']
    by_cases hsame : columnOps r = w.ops
    · rw [if_neg (not_not_intro hsame)]
      refine ⟨s', hw, hchosen, hops'.trans hsame.symm, fun _ hactive => ?_⟩
      rw [hcols]
      exact hagreed r hr hactive hsame
    · rw [if_pos hsame]
      obtain ⟨cols, hfits, htold⟩ := told_header condColumns named halpha hw.outside
      have hadd :=
        hnamed.add (named.operateRow r) htold (operateRow_out (hchosen.withOps _)) hw.outside
        fun hc => ⟨hc, rfl⟩
      rw [List.append_nil] at hadd
      exact ⟨{ s' with cols }, hadd, (hchosen.withOps _).print _, rfl, fun _ _ => hfits⟩

theorem writeRow_eq {ch : Char} {assign update : Bool} (hkind : RowKind r.mode ch assign update)
    (factored : Bool) : w.writeRow r factored =
    some ((w.beginRow r factored).updateRow r ch assign update factored) := by
  unfold MergeOutputTdiff.writeRow
  generalize r.mode = mode at hkind
  cases hkind <;> rfl

theorem exists_rowKind {mode : RowChangeMode} (h : mode ≠ .none) :
    ∃ ch assign update, RowKind mode ch assign update := by
  cases mode with
  | none => exact absurd rfl h
  | insert => exact ⟨_, _, _, .insert⟩
  | delete => exact ⟨_, _, _, .delete⟩
  | context => exact ⟨_, _, _, .context⟩
  | move => exact ⟨_, _, _, .move⟩
  | update => exact ⟨_, _, _, .update⟩

/-- A row is written and read, in either form. -/
theorem Written.writeRow (h : Written w s rows) (hagreed : Agreed names condColumns w.ops s.cols)
    (hr : Reported names condColumns r) (halpha : ∀ n ∈ active r, Alphanumeric n.toList)
    (factored : Bool) : ∃ w' s' r', w.writeRow r factored = some w' ∧ Written w' s' (rows ++ [r']) ∧
      Agreed names condColumns w'.ops s'.cols ∧ Restored r r' := by
  obtain ⟨ch, assign, update, hkind⟩ := exists_rowKind hr.mode
  obtain ⟨s₁, hw, hchosen, hops, hcols⟩ := h.beginRow hagreed hr halpha factored
  obtain ⟨s', r', htold, hs', hfits, hrestored⟩ := told_row hr hchosen halpha hkind hw.outside hcols
  refine ⟨_, s', r', writeRow_eq hkind factored, ?_, ?_, hrestored⟩
  · exact hw.add _ htold (updateRow_out hchosen hr.conflictFree.1 ch assign update factored) hs'
      fun hc => ⟨hc, rfl⟩
  · have hops' : ((w.beginRow r factored).updateRow r ch assign update factored).ops =
      columnOps r := hops
    rw [hops']
    exact agreed_of_fits hr hfits

/-- All rows, each in the form that is chosen for it. -/
theorem Written.writeRows (form : Nat → Bool) {changes : List RowChange}
    (hchanges : ∀ r ∈ changes, Reported names condColumns r)
    (halpha : ∀ n ∈ names, Alphanumeric n.toList) :
    ∀ {i : Nat} {w : MergeOutputTdiff} {s : Reading} {rows : List RowChange},
    Written w s rows → Agreed names condColumns w.ops s.cols →
      ∃ w' s' rows', MergeOutputTdiff.writeRows form i changes w = some w' ∧
      Written w' s' (rows ++ rows') ∧
        List.Forall₂ Restored changes rows' := by
  induction changes with
  | nil =>
    intro i w s rows h _
    exact ⟨w, s, [], rfl, (List.append_nil rows).symm ▸ h, .nil⟩
  | cons r changes ih =>
    intro i w s rows h hagreed
    obtain ⟨hr, hchanges⟩ := List.forall_mem_cons.1 hchanges
    have hactive : ∀ n ∈ active r, Alphanumeric n.toList := fun n hn =>
      halpha n (names_of_active hr hn ▸ (List.mem_filter.1 hn).1)
    obtain ⟨w₁, s₁, r', hrow, h₁, hagreed₁, hrestored⟩ := h.writeRow hagreed hr hactive (form i)
    obtain ⟨w', s', rows', hrows, h', hrest⟩ := ih hchanges h₁ hagreed₁ (i := i + 1)
    refine ⟨w', s', r' :: rows', ?_, ?_, .cons hrestored hrest⟩
    · rw [MergeOutputTdiff.writeRows, hrow]
      exact hrows
    · rwa [List.append_assoc] at h'

/-- With no operations before, any columns will do. -/
theorem agreed_nil (cols : List TDiffPart) : Agreed names condColumns [] cols := by
  intro r hr hactive hops
  obtain ⟨n, hn⟩ := List.exists_mem_of_ne_nil _ hactive
  have hnil : r.names = [] := List.map_eq_nil_iff.1 hops
  have hmem := (List.mem_filter.1 hn).1
  rw [hnil] at hmem
  exact absurd hmem List.not_mem_nil

theorem Written.flushRows (form : Nat → Bool) (h : Written w s rows)
    (hcache : ∀ r ∈ w.rowCache, Reported names condColumns r)
    (halpha : ∀ n ∈ names, Alphanumeric n.toList) :
    ∃ w' s' rows', w.flushRows form = some w' ∧ Written w' s' (rows ++ rows') ∧
    List.Forall₂ Restored w.rowCache rows' ∧
      w'.rowCache = [] := by
  have hstart :
    Written { w with ops := [], activeColumn := [], showForSelect := [], showForDescribe := [] } s
    rows := ⟨h.told, h.outside, h.sheet⟩
  obtain ⟨w', s', rows', hrows, h', hrestored⟩ :=
    hstart.writeRows form hcache halpha (i := 0) (agreed_nil s.cols)
  refine ⟨{ w' with rowCache := [] }, s', rows', ?_, ⟨h'.told, h'.outside, h'.sheet⟩, hrestored,
    rfl⟩
  exact congrArg (Option.map _) hrows

/-- No rows have been kept. -/
theorem Written.flushNothing (form : Nat → Bool) (h : Written w s rows) (hcache : w.rowCache = []) :
    ∃ w', w.flushRows form = some w' ∧ Written w' s rows ∧ w'.rowCache = [] := by
  refine ⟨{ w with
    ops := []
    activeColumn := []
    showForSelect := []
    showForDescribe := []
    rowCache := [] }, ?_, ⟨h.told, h.outside, h.sheet⟩, rfl⟩
  unfold MergeOutputTdiff.flushRows
  rw [hcache]
  rfl

theorem Written.setSheet (form : Nat → Bool) (h : Written w s rows) (hcache : w.rowCache = [])
    {name : String} (hname : name ≠ "" ∧ Alphanumeric name.toList) :
    ∃ w', w.setSheet form name = some w' ∧ Written w' s rows ∧ w'.rowCache = [] := by
  obtain ⟨w₁, hflush, h₁, hcache₁⟩ := h.flushNothing form hcache
  refine ⟨{ w₁ with sheetNameShown := false, sheetNameBreakShown := true, sheetName := name }, ?_,
    ⟨h₁.told, h₁.outside, fun _ => hname⟩, hcache₁⟩
  unfold MergeOutputTdiff.setSheet
  rw [hflush]
  rfl

/-- A declaration is written and read, or not written. -/
theorem Written.changeName (form : Nat → Bool) (h : Written w s rows) (hcache : w.rowCache = [])
    {change : NameChange} (halpha : ∀ n ∈ change.names, Alphanumeric n.toList) (loud : Bool) :
    ∃ w' s', w.changeName form change loud = some w' ∧ Written w' s' rows ∧ w'.rowCache = [] := by
  obtain ⟨w₁, hflush, h₁, hcache₁⟩ := h.flushNothing form hcache
  unfold MergeOutputTdiff.changeName
  rw [hflush, Option.map_some]
  by_cases hfinal : change.final = true
  · rw [if_pos hfinal]
    exact ⟨w₁, s, rfl, h₁, hcache₁⟩
  rw [if_neg hfinal]
  by_cases hloud : (loud || !change.constant) = true
  · let active : MergeOutputTdiff := { w₁ with
      activeColumn := AssocMap.setAll (fun _ => true) change.names []
      showForSelect := w₁.showForSelect.setAll (fun _ => true) change.names
      showForDescribe := w₁.showForDescribe.setAll (fun _ => true) change.names }
    have hactive : Written active s rows := ⟨h₁.told, h₁.outside, h₁.sheet⟩
    obtain ⟨s₂, h₂, -, -, hcache₂⟩ := hactive.showSheet false
    obtain ⟨s', htold, hs'⟩ := told_changeName halpha h₂.outside
    have hadd :=
      h₂.add ((active.showSheet false).print (Tdiff.changeName change.names)) htold rfl hs'
      fun hc => ⟨hc, rfl⟩
    rw [List.append_nil] at hadd
    refine ⟨_, s', congrArg some (if_pos hloud), hadd, hcache₂.trans hcache₁⟩
  · exact ⟨_, s, congrArg some (if_neg hloud), ⟨h₁.told, h₁.outside, h₁.sheet⟩, hcache₁⟩

theorem Written.declared (form : Nat → Bool) {declared : List (NameChange × Bool)}
    (halpha : ∀ d ∈ declared, ∀ n ∈ d.1.names, Alphanumeric n.toList) :
    ∀ {w : MergeOutputTdiff} {s : Reading}, Written w s rows → w.rowCache = [] →
      ∃ w' s', declared.foldlM (fun w d => w.changeName form d.1 d.2) w = some w' ∧
      Written w' s' rows ∧
        w'.rowCache = [] := by
  induction declared with
  | nil => exact fun {w s} h hcache => ⟨w, s, rfl, h, hcache⟩
  | cons d declared ih =>
    intro w s h hcache
    obtain ⟨hd, hdeclared⟩ := List.forall_mem_cons.1 halpha
    obtain ⟨w₁, s₁, hone, h₁, hcache₁⟩ := h.changeName form hcache hd d.2
    obtain ⟨w', s', hall, h', hcache'⟩ := ih hdeclared h₁ hcache₁
    refine ⟨w', s', ?_, h', hcache'⟩
    rw [List.foldlM_cons, hone]
    exact hall

/-- The rows are kept until the end. -/
theorem Written.changeRows (changes : List RowChange) :
    ∀ {w : MergeOutputTdiff} {s : Reading}, Written w s rows →
    ∃ s', Written (changes.foldl MergeOutputTdiff.changeRow w) s' rows ∧
      (changes.foldl MergeOutputTdiff.changeRow w).rowCache = w.rowCache ++ changes := by
  induction changes with
  | nil => exact fun {w s} h => ⟨s, h, (List.append_nil _).symm⟩
  | cons r changes ih =>
    intro w s h
    obtain ⟨s₁, h₁, -, -, -⟩ := h.showSheet false
    have hkept : Written (w.changeRow r) s₁ rows := ⟨h₁.told, h₁.outside, h₁.sheet⟩
    obtain ⟨s', h', hcache⟩ := ih hkept
    refine ⟨s', h', hcache.trans ?_⟩
    show w.rowCache ++ [r] ++ changes = _
    rw [List.append_assoc, List.singleton_append]

end

/-! ## The text -/

/-- What a merge reports of a sheet: rows of one kind over fixed columns, with plain names and
cells. -/
structure TdiffReport where
  sheetName : Option String
  names : List String
  condColumns : List String
  declared : List (NameChange × Bool)
  rows : List RowChange
  sheet : ∀ name ∈ sheetName, name ≠ "" ∧ Alphanumeric name.toList
  plain : ∀ n ∈ names, Alphanumeric n.toList
  plainDeclared : ∀ d ∈ declared, ∀ n ∈ d.1.names, Alphanumeric n.toList
  conditions : condColumns ⊆ names
  reported : ∀ r ∈ rows, Reported names condColumns r

/-- A row, and what is read of it: the values that it assigns, and its conditions on the columns
that are indexed or assigned. -/
structure RoundTrips (r r' : RowChange) : Prop where
  mode : r'.mode = r.mode
  val : ∀ n, r'.val.get? n = if r.mode = .delete ∨ r.mode = .context then none
    else (r.val.get? n).map asRead
  cond : ∀ n,
    r'.cond.get? n = if r.indexes.holds n = true ∨
    r.val.contains n = true then (r.cond.get? n).map asRead else none

section
variable {names condColumns : List String} {r : RowChange}

/-- A row that has a condition or a value is not blank. -/
theorem names_eq_of_contains (hr : Reported names condColumns r) {n : String}
    (h : r.cond.contains n = true ∨ r.val.contains n = true) : r.names = names := by
  refine hr.columns.resolve_right fun ⟨_, _, hcond, hval⟩ => ?_
  rw [hcond, hval] at h
  rcases h with h | h <;> cases h

/-- A value is assigned in a column that is written. -/
theorem mem_active_of_val (hr : Reported names condColumns r) {n : String}
    (hmode : r.mode ≠ .delete) (h : r.val.contains n = true) : n ∈ active r := by
  have hassign : shouldAssign r n = true := (if_neg hmode).trans h
  refine List.mem_filter.2 ⟨?_, by rw [hassign, Bool.or_true]⟩
  rw [names_eq_of_contains hr (Or.inr h)]
  refine hr.val n (by_contra fun hn => ?_)
  unfold AssocMap.contains at h
  rw [AssocMap.get?_eq_none_iff.2 hn] at h
  cases h

/-- So is a column that the row is chosen by. -/
theorem mem_active_of_shouldMatch (hr : Reported names condColumns r)
    (hsub : condColumns ⊆ names) {n : String} (h : shouldMatch r n = true) : n ∈ active r := by
  have hc := cond_of_shouldMatch h
  have hnames := names_eq_of_contains hr (Or.inl hc)
  have hi : r.mode ≠ .insert := fun hi => by
    rw [hr.inserted hi] at hc
    cases hc
  refine List.mem_filter.2 ⟨?_, by rw [h, Bool.true_or]⟩
  rw [hnames]
  exact hsub ((hr.cond hi hnames n).1 hc)

/-- The row is chosen by its conditions on the columns that are indexed or assigned. -/
theorem readCond_eq (hr : Reported names condColumns r) (n : String) :
    readCond r n = if r.indexes.holds n = true ∨
    r.val.contains n = true then (r.cond.get? n).map asRead else none := by
  unfold readCond
  cases hc : r.cond.contains n with
  | false =>
    have hnone : r.cond.get? n = none := Option.isNone_iff_eq_none.1 (by
      rw [← Option.not_isSome]
      exact congrArg _ hc)
    rw [hnone, Option.map_none, ite_self, ite_self]
  | true =>
    have hi : r.mode ≠ .insert := fun hi => by
      rw [hr.inserted hi] at hc
      cases hc
    have hmatch : shouldMatch r n = (r.indexes.holds n || r.val.contains n) := by
      unfold shouldMatch
      rw [if_neg hi, hc, Bool.true_and, Bool.and_true]
    simp only [hmatch, Bool.or_eq_true]

theorem Restored.roundTrips {r' : RowChange} (h : Restored r r') (hr : Reported names condColumns r)
    (hsub : condColumns ⊆ names) : RoundTrips r r' where
  mode := h.mode
  val := fun n => by
    rw [h.val]
    by_cases hmode : r.mode = .delete ∨ r.mode = .context
    · have hnone : readVal r n = none := by
        unfold readVal
        rcases hmode with hmode | hmode <;> rw [hmode]
      rw [hnone, ite_self, if_pos hmode]
    · obtain ⟨hdelete, hcontext⟩ := not_or.1 hmode
      have hread : readVal r n = (r.val.get? n).map asRead := by
        unfold readVal
        split
        · next hd => exact absurd hd hdelete
        · next hc => exact absurd hc hcontext
        · rfl
      rw [hread, if_neg hmode]
      split
      · rfl
      · next hn =>
        have hnone : r.val.get? n = none :=
          Option.not_isSome_iff_eq_none.1 fun hsome => hn (mem_active_of_val hr hdelete hsome)
        rw [hnone]
        rfl
  cond := fun n => by
    rw [h.cond, ← readCond_eq hr]
    split
    · rfl
    · next hn =>
      unfold readCond
      rw [if_neg fun hm => hn (mem_active_of_shouldMatch hr hsub hm)]

end

/-- **A tdiff comes back**: whichever rows are factored, the text is read as the same rows in the
same order. -/
theorem rows_roundTrip (p : TdiffReport) (form : Nat → Bool) :
    ∃ text calls, write form p.sheetName p.declared p.rows = some text ∧
    readTdiff {} text = some calls ∧
      List.Forall₂ RoundTrips p.rows (calls.filterMap PatcherCall.row?) := by
  let start := ({} : MergeOutputTdiff).mergeStart
  have hstart : Written start {} [] := ⟨told_start rfl, rfl, fun h => by cases h⟩
  have htitled : ∃ w', p.sheetName.elim (some start) (start.setSheet form) = some w' ∧
    Written w' {} [] ∧
      w'.rowCache = [] := by
    cases hname : p.sheetName with
    | none => exact ⟨start, rfl, hstart, rfl⟩
    | some name => exact hstart.setSheet form rfl (p.sheet name hname)
  obtain ⟨w₁, htitle, h₁, hcache₁⟩ := htitled
  obtain ⟨w₂, s₂, hdeclared, h₂, hcache₂⟩ := h₁.declared form p.plainDeclared hcache₁
  obtain ⟨s₃, h₃, hcache₃⟩ := h₂.changeRows p.rows
  rw [hcache₂, List.nil_append] at hcache₃
  obtain ⟨w', s', rows', hflush, h', hrestored, -⟩ :=
    h₃.flushRows form (hcache₃ ▸ p.reported) p.plain
  obtain ⟨calls, hread, hrows⟩ := h'.told.read
  rw [hcache₃] at hrestored
  have hwrite : write form p.sheetName p.declared p.rows = some w'.out := by
    have hall : write form p.sheetName p.declared p.rows =
        (p.sheetName.elim (some start) (start.setSheet form)).bind fun w =>
          (p.declared.foldlM (fun (w : MergeOutputTdiff) d => w.changeName form d.1 d.2) w).bind
            fun w =>
            ((p.rows.foldl MergeOutputTdiff.changeRow w).flushRows form).bind fun w => some w.out :=
              rfl
    rw [hall, htitle, Option.bind_some, hdeclared, Option.bind_some, hflush, Option.bind_some]
  have hcalls : (merged (s', calls)).filterMap PatcherCall.row? = rows' := by
    unfold merged
    show List.filterMap _ (calls ++ [.mergeDone, .mergeAllDone]) = _
    rw [List.filterMap_append, hrows]
    exact List.append_nil _
  refine ⟨w'.out, merged (s', calls), hwrite, ?_, ?_⟩
  · unfold readTdiff
    rw [hread]
    rfl
  · rw [hcalls]
    have hall :
      List.Forall₂ (fun r r' => Reported p.names p.condColumns r ∧ Restored r r') p.rows rows' :=
      (List.forall₂_and_left _ _).2 ⟨p.reported, hrestored⟩
    exact hall.imp fun r r' h => h.2.roundTrips h.1 p.conditions

/-- A price list over three columns, the rows found by the first: one is changed, one inserted, one
deleted, one moved, and behind them stand a NULL and a blank row. -/
def priceRows : List RowChange :=
  let names := ["id", "name", "price"]
  let indexes := [("id", true)]
  [{ mode := .update, names, indexes, cond := [("id", ⟨"1", false⟩)], val := [("price", ⟨"20", false⟩)] },
    { mode := .insert
      names
      val := [("id", ⟨"7", false⟩), ("name", ⟨"pear", false⟩), ("price", SheetCell.null)] },
    { mode := .delete, names, indexes, cond := [("id", ⟨"3", false⟩)] },
    { mode := .move
      names
      indexes
      cond := [("id", SheetCell.null)]
      val := [("name", ⟨"fig", false⟩)] },
    { mode := .context, names := [] }]

theorem reported_priceRows : ∀ r ∈ priceRows, Reported ["id", "name", "price"] ["id"] r := by
  have hkey : ∀ (c : SheetCell) n, AssocMap.contains [("id", c)] n = true ↔ n ∈ ["id"] :=
    fun c n => by
    rw [List.mem_singleton, AssocMap.contains, AssocMap.get?_cons]
    by_cases h : "id" = n
    · simp [h]
    · simp [h, Ne.symm h]
  intro r hr
  simp only [priceRows, List.mem_cons, List.not_mem_nil, or_false] at hr
  rcases hr with rfl | rfl | rfl | rfl | rfl
  all_goals
    refine ⟨by decide, by decide, by decide, by decide, ?_, by decide, by decide, by decide, ?_⟩
    rotate_left
    · unfold SimpleCell
      decide
  · exact fun _ _ => hkey _
  · exact fun h => absurd rfl h
  · exact fun _ _ => hkey _
  · exact fun _ _ => hkey _
  · exact fun _ h => by cases h

def priceReport : TdiffReport where
  sheetName := some "prices"
  names := ["id", "name", "price"]
  condColumns := ["id"]
  declared := [(⟨true, false, ["id", "name", "price"]⟩, true)]
  rows := priceRows
  sheet := by decide
  plain := by decide
  plainDeclared := by decide
  conditions := by decide
  reported := reported_priceRows

theorem rows_roundTrip_priceReport :
    ∃ text calls, write (fun i => i % 2 == 0) priceReport.sheetName priceReport.declared
    priceReport.rows = some text ∧
      readTdiff {} text = some calls ∧
      List.Forall₂ RoundTrips priceReport.rows (calls.filterMap PatcherCall.row?) :=
  rows_roundTrip priceReport fun i => i % 2 == 0

end Tdiff

end Coopy
