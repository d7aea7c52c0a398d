import Coopy.TdiffText

/-!
# Comments in a tdiff

A comment opens on a line of its own and goes on to the first `*/`.  The reader does not look for
the end of a comment on the line that opens it, so a comment on one line takes what follows with it:

    the text is read as if the comment were not there, wherever it stands
      ↔ there is a line end in the comment                                    (transparent_iff)
    a comment on one line hides the lines up to the end of the next comment   (readTdiff_oneLine)
-/

namespace Coopy

open Lib

namespace Tdiff

/-- A comment as a block of lines: blanks, `/*`, a body without `*/`, and `*/` with nothing but
blanks behind it. -/
structure Comment where
  indent : Blanks
  body : List Char
  tail : List Char
  closes_once : ¬ ['*', '/'] <:+: body
  blank : ∀ ch ∈ tail, ch = ' ' ∨ ch = '\t' ∨ ch = '\r'

def Comment.text (c : Comment) : List Char :=
  c.indent.text ++ ['/', '*'] ++ c.body ++ ['*', '/'] ++ c.tail ++ ['\n']

/-- The opening and the closing are on one line. -/
def Comment.OneLine (c : Comment) : Prop := '\n' ∉ c.body

section
variable (flags : FilterFlags)

/-- A place between two lines of a text that is read to its end, outside of other comments. -/
structure Place where
  pre : List Char
  post : List Char
  between : pre = [] ∨ pre.getLast? = some '\n'
  read : (readTdiff flags (pre ++ post)).isSome = true
  outside : ∀ next, readText flags {} (readLines [] pre) = some next → next.1.inComment = false

/-- Wherever the comment stands, the calls are those of the text without it. -/
def Comment.Transparent (c : Comment) : Prop :=
  ∀ p : Place flags, readTdiff flags (p.pre ++ c.text ++ p.post) = readTdiff flags (p.pre ++ p.post)

end

/-! ## Lines -/

theorem readLines_feed (x y : List Char) : ∀ line : List Char,
    readLines line (x ++ '\n' :: y) = readLines line (x ++ ['\n']) ++ readLines [] y := by
  induction x with
  | nil =>
    intro line
    rw [List.nil_append, List.nil_append, readLines, readLines, if_pos rfl, if_pos rfl]
    rfl
  | cons ch x ih =>
    intro line
    rw [List.cons_append, List.cons_append, readLines, readLines]
    by_cases hch : ch = '\n'
    · rw [if_pos hch, if_pos hch, ih, List.cons_append]
    · rw [if_neg hch, if_neg hch, ih]

/-- A text up to a line end, and what follows it, have their own lines. -/
theorem readLines_between {pre : List Char} (h : pre = [] ∨ pre.getLast? = some '\n')
    (post : List Char) : readLines [] (pre ++ post) = readLines [] pre ++ readLines [] post := by
  rcases h with rfl | h
  · rfl
  · obtain ⟨x, rfl⟩ := List.getLast?_eq_some_iff.1 h
    rw [List.append_assoc, List.singleton_append, readLines_feed]

/-- No carriage return is lost that matters to a word without one. -/
theorem infix_stripReturns {word line : List Char} (hne : word ≠ []) (hword : '\r' ∉ word) :
    word <:+: stripReturns line ↔ word <:+: line := by
  have hfront : ∀ line : List Char, word <:+: (if line.head? = some '\r' then line.tail else line) ↔
    word <:+: line := by
    intro line
    split
    · next h =>
      obtain ⟨rest, rfl⟩ := List.head?_eq_some_iff.1 h
      refine ⟨fun h => h.trans (List.suffix_cons _ _).isInfix, fun h => ?_⟩
      rcases List.infix_cons_iff.1 h with hp | hin
      · obtain ⟨a, w, rfl⟩ := List.exists_cons_of_ne_nil hne
        exact absurd (List.cons_prefix_cons.1 hp).1 fun ha => hword (ha ▸ List.mem_cons_self)
      · exact hin
    · exact Iff.rfl
  unfold stripReturns
  rw [← hfront line]
  generalize (if line.head? = some '\r' then line.tail else line) = kept
  show word <:+: (if kept.getLast? = some '\r' then kept.dropLast else kept) ↔ _
  split
  · next h =>
    obtain ⟨rest, rfl⟩ := List.getLast?_eq_some_iff.1 h
    rw [List.dropLast_concat]
    refine ⟨fun h => h.trans (List.prefix_append _ _).isInfix, fun h => ?_⟩
    rcases List.infix_concat_iff.1 h with hs | hin
    · obtain rfl | ⟨w, rfl, -⟩ := List.suffix_concat_iff.1 hs
      · exact absurd rfl hne
      · exact absurd (List.mem_append_right _ List.mem_cons_self) hword
    · exact hin
  · exact Iff.rfl

/-! ## The line that opens a comment -/

/-- What a scanner in a word gives out first begins with what it has of the word. -/
theorem run_word (rest : List Char) : ∀ s : Scanner, s.pending = true → s.haveBars = false →
    s.result ≠ [] →
    ∃ w ws, (Transducer.run Scanner.step rest s).1 ++ (Transducer.run Scanner.step rest s).2.last =
    w :: ws ∧ s.result <+: w := by
  induction rest with
  | nil =>
    intro s hpending hbars hne
    refine ⟨s.result, [], ?_, List.prefix_refl _⟩
    show [] ++ s.last = _
    unfold Scanner.last
    rw [if_pos ⟨hpending, hne, hbars⟩, List.nil_append]
  | cons ch rest ih =>
    intro s hpending hbars hne
    have hgrow : ∀ s' : Scanner, Scanner.step s ch = ([], s') → s'.pending = true →
      s'.haveBars = false →
        s'.result = s.result ++ [ch] → ∃ w ws, (Transducer.run Scanner.step (ch :: rest) s).1 ++
          (Transducer.run Scanner.step (ch :: rest) s).2.last = w :: ws ∧ s.result <+: w := by
      intro s' hstep hpending' hbars' hresult
      have hne' : s'.result ≠ [] := by
        rw [hresult]
        exact List.append_ne_nil_of_right_ne_nil _ (List.cons_ne_nil _ _)
      obtain ⟨w, ws, hrun, hw⟩ := ih s' hpending' hbars' hne'
      refine ⟨w, ws, ?_, (hresult ▸ List.prefix_append _ _).trans hw⟩
      rw [Transducer.run_cons, hstep]
      exact hrun
    by_cases hq : ch = '\''
    · refine hgrow { s with quote := !s.quote, result := s.result ++ [ch], pending := true } ?_ rfl
        hbars rfl
      unfold Scanner.step
      rw [if_pos hq]
    by_cases hquote : s.quote = true
    · refine hgrow { s with result := s.result ++ [ch], pending := true } ?_ rfl hbars rfl
      unfold Scanner.step
      rw [if_neg hq, if_pos hquote]
    by_cases hcut : ((ch = ' ' ∨ ch = '\r' ∨ ch = '\t') ∧ s.commit = false) ∨ ch = '|'
    · have hstep : (Scanner.step s ch).1 = [s.result] := by
        unfold Scanner.step
        rw [if_neg hq, if_neg hquote, if_pos hcut, if_pos hpending]
      exact ⟨s.result,
        _, by rw [Transducer.run_cons, hstep, List.append_assoc, List.singleton_append],
        List.prefix_refl _⟩
    · refine hgrow { s with result := s.result ++ [ch], pending := true } ?_ rfl hbars rfl
      unfold Scanner.step
      rw [if_neg hq, if_neg hquote, if_neg hcut]

theorem replaceAll_slash (second : Char) (rep text : List Char) :
    ['/', '*'] <+: text → ['/', '*'] <+: replaceAll ['\\', second] rep text := by
  rintro ⟨rest, rfl⟩
  have hslash : ¬ ['\\', second] <+: '/' :: '*' :: rest := fun h => by
    exact absurd (List.cons_prefix_cons.1 h).1 (by decide)
  have hstar : ¬ ['\\', second] <+: '*' :: rest := fun h => by
    exact absurd (List.cons_prefix_cons.1 h).1 (by decide)
  show _ <+: replaceAll _ _ ('/' :: '*' :: rest)
  rw [replaceAll_cons hslash, replaceAll_cons hstar]
  exact List.prefix_append _ _

theorem unescape_slash {word : List Char} (h : ['/', '*'] <+: word) :
    ['/', '*'] <+: unescape word :=
  replaceAll_slash _ _ _ (replaceAll_slash _ _ _ (replaceAll_slash _ _ _ h))

/-- The first word of a line that opens a comment. -/
theorem normalizedMessage_open (indent : Blanks) (rest : List Char) :
    ∃ w ws, normalizedMessage (indent.text ++ ['/', '*'] ++ rest) = w :: ws ∧ ['/', '*'] <+: w := by
  have hpass :
    Transducer.Passes Scanner.step {} (indent.text ++ ['/', '*']) [] (beforeBar ['/', '*'] true) :=
    (passes_indent indent.blank).append
      (passes_operator ⟨['/', '*'], List.cons_ne_nil _ _, plain_of_all (by decide)⟩)
  obtain ⟨w, ws, hrun, hw⟩ :=
    run_word rest (beforeBar ['/', '*'] true) rfl rfl (List.cons_ne_nil _ _)
  refine ⟨unescape w, ws.map unescape, ?_, unescape_slash hw⟩
  unfold normalizedMessage tokens
  rw [Transducer.run_append, hpass.run_eq]
  show List.map unescape ((Transducer.run Scanner.step rest (beforeBar ['/', '*'] true)).1 ++ _) = _
  rw [hrun, List.map_cons]

section
variable (flags : FilterFlags)

theorem readLine_open {r : Reading} (hr : r.inComment = false) (indent : Blanks)
    (rest : List Char) : readLine flags r (stripReturns (indent.text ++ ['/', '*'] ++ rest)) =
    some ({ r with inComment := true }, []) := by
  have hchars : ∀ ch ∈ indent.text ++ ['/', '*'], ch ≠ '\r' := by
    intro ch hch
    rcases List.mem_append.1 hch with h | h
    · rcases indent.blank ch h with rfl | rfl <;> decide
    · rcases List.mem_pair.1 h with rfl | rfl <;> decide
  obtain ⟨rest', hstrip, -⟩ :=
    stripReturns_mark (List.append_ne_nil_of_right_ne_nil _ (List.cons_ne_nil _ _))
    (fun h => hchars _ (List.mem_of_mem_head? h) rfl)
      (fun h => hchars _ (List.mem_of_mem_getLast? h) rfl) rest
  obtain ⟨w, ws, hmessage, hw⟩ := normalizedMessage_open indent rest'
  obtain ⟨t, rfl⟩ := hw
  unfold readLine
  rw [hstrip, if_neg (by rw [hr]; exact Bool.false_ne_true), hmessage]
  rfl

/-! ## Lines of a comment -/

theorem readText_append (xs ys : List (List Char)) : ∀ r : Reading,
    readText flags r (xs ++ ys) =
      (readText flags r xs).bind fun next => (readText flags next.1 ys).map (after next.2) := by
  induction xs with
  | nil =>
    exact fun r =>
      ((congrFun (congrArg Option.map (funext fun next => rfl)) _).trans
        (congrFun Option.map_id _)).symm
  | cons line xs ih =>
    intro r
    rw [List.cons_append, readText, readText]
    cases readLine flags r line with
    | none => rfl
    | some first =>
      show Option.map _ (readText flags first.1 (xs ++ ys)) = Option.bind (Option.map _ _) _
      rw [ih first.1]
      cases readText flags first.1 xs with
      | none => rfl
      | some next =>
        show Option.map _ (Option.map _ _) = Option.map _ _
        rw [Option.map_map]
        congr 1
        funext final
        exact Prod.ext rfl (List.append_assoc _ _ _).symm

/-- A line in a comment ends it, or changes nothing. -/
theorem readLine_comment {r : Reading} (hr : r.inComment = true) (line : List Char) :
    readLine flags r line = some ({ r with inComment := !(decide (['*', '/'] <:+: line)) },
      []) := by
  unfold readLine
  rw [if_pos hr]

theorem after_nil : after [] = id := rfl

/-- From within a comment to its end: the comment has been read up to `line`. -/
theorem readText_close {r : Reading} (hr : r.inComment = true) {tail : List Char}
    (htail : '\n' ∉ tail) (body : List Char) : ∀ line : List Char, ¬ ['*', '/'] <:+: line ++ body →
      readText flags r (readLines line (body ++ ['*', '/'] ++ tail ++ ['\n'])) =
      some ({ r with inComment := false }, []) := by
  have hreturn : '\r' ∉ ['*', '/'] := by decide
  induction body with
  | nil =>
    intro line _
    have hfeed : '\n' ∉ ['*', '/'] ++ tail := by
      rw [List.mem_append]
      exact fun h => h.elim (by decide) htail
    have hclose : ['*', '/'] <:+: stripReturns (line ++ (['*', '/'] ++ tail)) :=
      (infix_stripReturns (List.cons_ne_nil _ _) hreturn).2 ⟨line, tail, by rw [List.append_assoc]⟩
    rw [List.nil_append, readLines_append hfeed, readLines, if_pos rfl, readText,
      readLine_comment flags hr]
    show Option.map (after []) (some _) = _
    rw [decide_eq_true hclose]
    rfl
  | cons ch body ih =>
    intro line hopen
    rw [List.cons_append, List.cons_append, List.cons_append, readLines]
    by_cases hch : ch = '\n'
    · have hline : ¬ ['*', '/'] <:+: stripReturns line := fun h =>
        hopen (((infix_stripReturns (List.cons_ne_nil _ _) hreturn).1 h).trans
          (List.prefix_append _ _).isInfix)
      have hbody : ¬ ['*', '/'] <:+: [] ++ body := fun h =>
        hopen (h.trans ((List.suffix_cons ch body).isInfix.trans (List.suffix_append _ _).isInfix))
      have hsame : { r with inComment := true } = r := by rw [← hr]
      rw [if_pos hch, readText, readLine_comment flags hr, decide_eq_false hline]
      show Option.map (after []) (readText flags { r with inComment := true } _) = _
      rw [hsame, ih [] hbody]
      rfl
    · rw [if_neg hch]
      refine ih (line ++ [ch]) ?_
      rwa [List.append_assoc, List.singleton_append]

namespace Comment

variable (c : Comment)

theorem text_ends : c.text = [] ∨ c.text.getLast? = some '\n' := Or.inr (List.getLast?_concat ..)

theorem feed_tail : '\n' ∉ c.tail := fun h => by
  rcases c.blank _ h with h | h | h <;> exact absurd h (by decide)

theorem feed_indent : '\n' ∉ c.indent.text := fun h => by
  rcases c.indent.blank _ h with h | h <;> exact absurd h (by decide)

/-- A comment with a line end in it is read to its end. -/
theorem readText_lines {r : Reading} (hr : r.inComment = false) (h : '\n' ∈ c.body) :
    readText flags r (readLines [] c.text) = some (r, []) := by
  obtain ⟨front, rest, hbody, hfront⟩ := List.eq_append_cons_of_mem h
  have hfeed : '\n' ∉ c.indent.text ++ ['/', '*'] ++ front := by
    rw [List.mem_append, List.mem_append]
    rintro ((h | h) | h)
    · exact c.feed_indent h
    · exact absurd h (by decide)
    · exact hfront h
  have hopen : ¬ ['*', '/'] <:+: [] ++ rest := fun h => by
    refine c.closes_once (h.trans ?_)
    rw [hbody]
    exact ((List.suffix_cons _ rest).isInfix).trans (List.suffix_append _ _).isInfix
  have htext :
    c.text = c.indent.text ++ ['/', '*'] ++ front ++ '\n' ::
    (rest ++ ['*', '/'] ++ c.tail ++ ['\n']) := by
    unfold Comment.text
    rw [hbody]
    simp only [List.append_assoc, List.cons_append]
  have hsame : { { r with inComment := true } with inComment := false } = r := by rw [← hr]
  rw [htext, readLines_append hfeed, readText, List.nil_append, readLine_open flags hr]
  show Option.map (after []) (readText flags { r with inComment := true } _) = _
  rw [readText_close flags rfl c.feed_tail rest [] hopen, after_nil, Option.map_id, hsame]
  rfl

/-- Behind a comment on one line the reader is still in it. -/
theorem readText_oneLine {r : Reading} (hr : r.inComment = false) (h : c.OneLine) :
    readText flags r (readLines [] c.text) = some ({ r with inComment := true }, []) := by
  have hfeed : '\n' ∉ c.indent.text ++ ['/', '*'] ++ (c.body ++ ['*', '/'] ++ c.tail) := by
    simp only [List.mem_append, not_or]
    exact ⟨⟨c.feed_indent, by decide⟩, ⟨h, by decide⟩, c.feed_tail⟩
  have htext : c.text = c.indent.text ++ ['/', '*'] ++ (c.body ++ ['*', '/'] ++ c.tail) ++ '\n' ::
    [] := by
    unfold Comment.text
    simp only [List.append_assoc]
  rw [htext, readLines_append hfeed, readText, List.nil_append, readLine_open flags hr]
  rfl

end Comment

/-! ## Comments in their places -/

/-- The lines behind the first one that ends a comment. -/
def behindClose : List (List Char) → List (List Char)
  | [] => []
  | line :: lines => if ['*', '/'] <:+: line then lines else behindClose lines

/-- In a comment the lines up to its end make no calls, and the next ones make theirs. -/
theorem readText_behindClose (lines : List (List Char)) : ∀ r : Reading, r.inComment = true →
    (readText flags r lines).map Prod.snd =
      (readText flags { r with inComment := false } (behindClose lines)).map Prod.snd := by
  induction lines with
  | nil => exact fun r _ => rfl
  | cons line lines ih =>
    intro r hr
    rw [readText, readLine_comment flags hr, behindClose]
    show Option.map _ (Option.map (after []) (readText flags _ lines)) = _
    rw [after_nil, Option.map_id]
    by_cases hclose : ['*', '/'] <:+: line
    · rw [if_pos hclose, decide_eq_true hclose]
      rfl
    · have hsame : { r with inComment := true } = r := by rw [← hr]
      rw [if_neg hclose, decide_eq_false hclose, ← ih r hr]
      show Option.map _ (readText flags { r with inComment := true } lines) = _
      rw [hsame]

/-- The calls depend on the lines behind a place by the calls for these. -/
theorem readText_congr {xs ys zs : List (List Char)}
    (h : ∀ next, readText flags {} xs = some next →
      (readText flags next.1 ys).map Prod.snd = (readText flags next.1 zs).map Prod.snd) :
    (readText flags {} (xs ++ ys)).map merged = (readText flags {} (xs ++ zs)).map merged := by
  rw [readText_append, readText_append]
  cases hxs : readText flags {} xs with
  | none => rfl
  | some next =>
    have hmerged :
      merged ∘ after next.2 =
      (fun calls => PatcherCall.mergeStart :: (next.2 ++ calls) ++ [.mergeDone, .mergeAllDone]) ∘
        Prod.snd := rfl
    show Option.map merged (Option.map (after next.2) _) = Option.map merged
      (Option.map (after next.2) _)
    rw [Option.map_map, Option.map_map, hmerged, ← Option.map_map, ← Option.map_map, h next hxs]

theorem readLines_place (p : Place flags) (c : Comment) :
    readLines [] (p.pre ++ c.text ++ p.post) = readLines [] p.pre ++
    (readLines [] c.text ++ readLines [] p.post) := by
  rw [List.append_assoc, readLines_between p.between, readLines_between c.text_ends]

/-- **A comment on one line** hides the lines behind it up to the end of the next comment. -/
theorem readTdiff_oneLine (p : Place flags) {c : Comment} (h : c.OneLine) :
    readTdiff flags (p.pre ++ c.text ++ p.post) =
      (readText flags {} (readLines [] p.pre ++ behindClose (readLines [] p.post))).map merged := by
  unfold readTdiff
  rw [readLines_place]
  refine readText_congr flags fun next hnext => ?_
  have hr := p.outside next hnext
  have hsame : { { next.1 with inComment := true } with inComment := false } = next.1 := by
    rw [← hr]
  rw [readText_append, c.readText_oneLine flags hr h]
  show Option.map _ (Option.map (after []) (readText flags { next.1 with inComment := true } _)) = _
  rw [after_nil, Option.map_id, ← hsame]
  exact readText_behindClose flags _ _ rfl

/-- A comment with a line end in it is skipped. -/
theorem transparent_of_feed {c : Comment} (h : '\n' ∈ c.body) : c.Transparent flags := by
  intro p
  unfold readTdiff
  rw [readLines_place, readLines_between p.between]
  refine readText_congr flags fun next hnext => ?_
  rw [readText_append, c.readText_lines flags (p.outside next hnext) h]
  show Option.map _ (Option.map (after []) _) = _
  rw [after_nil, Option.map_id]
  rfl

/-- A text of one declaration, with the place before it. -/
def declaration : Place flags where
  pre := []
  post := "@@ |a|\n".toList
  between := Or.inl rfl
  read := by
    have h : (applyTdiff otherLine "@@ |a|\n".toList).isSome = true := by decide
    rw [← readTdiff_columns flags, Option.isSome_map] at h
    exact h
  outside := fun next h => by
    cases h
    rfl

/-- A comment on one line is not skipped before a declaration. -/
theorem not_transparent_of_oneLine {c : Comment} (h : c.OneLine) : ¬ c.Transparent flags := by
  intro hskip
  have hcalls :=
    (readTdiff_oneLine flags (declaration flags) h).symm.trans (hskip (declaration flags))
  have hnone : behindClose (readLines [] "@@ |a|\n".toList) = [] := by decide
  have hread := readTdiff_columns flags "@@ |a|\n".toList
  have hdeclared : applyTdiff otherLine "@@ |a|\n".toList = some [.changeName ["a"] false] := by
    decide
  have hlines :
    (readText flags {} (readLines [] [] ++ behindClose (readLines [] "@@ |a|\n".toList))).map
    merged =
      some [.mergeStart, .mergeDone, .mergeAllDone] := by
    rw [hnone]
    rfl
  have hall :
    some [PatcherCall.mergeStart, .mergeDone, .mergeAllDone] = readTdiff flags "@@ |a|\n".toList :=
    hlines.symm.trans hcalls
  rw [← hall, hdeclared] at hread
  exact absurd (Option.some.inj hread) (List.cons_ne_nil _ _).symm

/-- **A comment is skipped wherever it stands** exactly if it is not on one line. -/
theorem transparent_iff (c : Comment) : c.Transparent flags ↔ ¬ c.OneLine :=
  ⟨fun h hone => not_transparent_of_oneLine flags hone h,
    fun h => transparent_of_feed flags (not_not.1 h)⟩

end

/-- A comment on one line, before a row that is changed. -/
theorem not_transparent : ¬ ∀ (flags : FilterFlags) (c : Comment), c.Transparent flags := by
  intro h
  have hne :
    readTdiff {} "/* note */\n= |a:1->2|\n".toList ≠ readTdiff {} "= |a:1->2|\n".toList := by decide
  let comment : Comment :=
    { indent := ⟨[], fun ch hch => absurd hch List.not_mem_nil⟩
      body := " note ".toList
      tail := []
      closes_once := by decide
      blank := fun ch hch => absurd hch List.not_mem_nil }
  let place : Place {} :=
    { pre := []
      post := "= |a:1->2|\n".toList
      between := Or.inl rfl
      read := by decide
      outside := fun next h => by cases h; rfl }
  exact hne (h {} comment place)

end Tdiff

end Coopy
