import Coopy.Lib.Replacing
import Coopy.Lib.Transducer
import Coopy.Table

/-!
# Reading a tdiff line

`normalizedMessage` cuts a line into its operator and its terms: at blanks up to the first bar, and
at bars from there on, both outside of quotes.  `TDiffPart` cuts a term at its separators and takes
the quotes off.
-/

namespace Coopy

open Lib

namespace Tdiff

/-! ## `normalizedMessage` -/

structure Scanner where
  result : List Char := []
  quote : Bool := false
  pending : Bool := false
  commit : Bool := false
  haveBars : Bool := false
deriving DecidableEq, Repr

/-- `white` is set and never read. -/
def Scanner.step : Transducer Scanner Char (List Char) := fun s ch =>
  if ch = '\'' then ([], { s with quote := !s.quote, result := s.result ++ [ch], pending := true })
  else if s.quote then ([], { s with result := s.result ++ [ch], pending := true })
  else if ((ch = ' ' ∨ ch = '\r' ∨ ch = '\t') ∧ s.commit = false) ∨ ch = '|' then
    (if s.pending then [s.result] else [],
      if ch = '|' then { s with result := [], pending := true, commit := true, haveBars := true }
      else { s with result := [], pending := false })
  else ([], { s with result := s.result ++ [ch], pending := true })

/-- What is still to be given out at the end of the line. -/
def Scanner.last (s : Scanner) : List (List Char) :=
  if s.pending ∧ s.result ≠ [] ∧ s.haveBars = false then [s.result] else []

/-- The tokens of a line as they stand there. -/
def tokens (line : List Char) : List (List Char) :=
  (Transducer.run Scanner.step line {}).1 ++ (Transducer.run Scanner.step line {}).2.last

def lineFeeds (text : List Char) : List Char := replaceAll ['\\', 'n'] ['\n'] text

def returns (text : List Char) : List Char := replaceAll ['\\', 'r'] ['\r'] text

def backslashes (text : List Char) : List Char := replaceAll ['\\', '\\'] ['\\'] text

/-- The escapes undone. -/
def unescape (text : List Char) : List Char := backslashes (returns (lineFeeds text))

def normalizedMessage (line : List Char) : List (List Char) := (tokens line).map unescape

/-! ## `TDiffPart` -/

inductive Sep
  | none
  | colon
  | equals
  | arrow
  | bang
deriving DecidableEq, Repr

def Sep.length : Sep → Nat
  | none => 0
  | arrow => 2
  | _ => 1

/-- What the loop of `peel` finds: the separator and its place, if there is one. -/
structure Found where
  sep : Sep := .none
  place : Nat := 0
  hasQuote : Bool
  conflict : Bool
deriving DecidableEq, Repr

/-- The loop of `peel`, at place `i`: `bang` after an exclamation mark, `dash` in state 1.  Double
quotes are not allowed. -/
def scan : Nat → (first hasQuote quote bang dash : Bool) → List Char → Found
  | _, _, hasQuote, _, bang, _, [] => { hasQuote, conflict := bang }
  | i, first, hasQuote, quote, bang, dash, ch :: rest =>
    if ch = '\'' then scan (i + 1) false (hasQuote || first) (!quote) bang false rest
    else if quote then scan (i + 1) false hasQuote quote bang false rest
    else if ch = ':' ∧ dash = false then ⟨.colon, i, hasQuote, bang⟩
    else if ch = '=' ∧ dash = false then ⟨.equals, i, hasQuote, bang⟩
    else if ch = '-' ∧ dash = false then scan (i + 1) false hasQuote quote bang true rest
    else if ch = '>' ∧ dash = true then ⟨.arrow, i - 1, hasQuote, bang⟩
    else if ch = '!' then
      if bang then ⟨.bang, i, hasQuote, true⟩
        else scan (i + 1) (decide (i = 0)) hasQuote quote true dash rest
    else scan (i + 1) false hasQuote quote bang false rest

structure Peeled where
  result : List Char
  sep : Sep
  rem : List Char
  hasQuote : Bool
  conflict : Bool
deriving DecidableEq, Repr

/-- Without the quotes around it, and with single ones for the doubled ones in it. -/
def unquote (text : List Char) : List Char :=
  replaceAll ['\'', '\''] ['\''] ((text.drop 1).take (text.length - 2))

/-- `result`, before its quotes are taken off. -/
def front (s : List Char) (f : Found) : List Char :=
  if f.sep = .none then s
  else
    let result := s.take f.place
    if result.head? = some '!' then result.drop 1 else result

def peel (s : List Char) : Peeled :=
  let f := scan 0 true false false false false s
  { result := if f.hasQuote then unquote (front s f) else front s f
    sep := f.sep
    rem := if f.sep = .none then [] else s.drop (f.place + f.sep.length)
    hasQuote := f.hasQuote
    conflict := f.conflict }

/-- The first four elements of a term, each up to its separator. -/
def peels : Nat → List Char → List Peeled
  | 0, _ => []
  | n + 1, s => peel s :: if (peel s).sep = .none then [] else peels n (peel s).rem

/-- The flags `hasKey`, `hasVal` and so on say which of the parts are there. -/
structure TDiffPart where
  key : Option String := none
  val : Option SheetCell := none
  nval : Option SheetCell := none
  cval : Option SheetCell := none
  pval : Option SheetCell := none
  conflict : Bool := false
  isId : Bool := false
  isFresh : Bool := false
deriving DecidableEq, Repr

namespace TDiffPart

def getCell (txt : List Char) (quoted : Bool) : SheetCell :=
  if quoted then ⟨String.ofList txt, false⟩
  else if txt = "NULL".toList then ⟨String.ofList txt, true⟩
  else ⟨String.ofList txt, false⟩

def checkCell (txt : List Char) (quoted : Bool) : Bool := quoted || decide (txt ≠ ['*'])

/-- The cell, if it is one. -/
def cell? (txt : List Char) (quoted : Bool) : Option SheetCell :=
  if checkCell txt quoted then some (getCell txt quoted) else none

/-- The element between the separators `pre` and `post`, and the separator the next one starts
from. -/
def applyElement (p : TDiffPart) (txt : List Char) (pre post : Sep) (quoted columnLike : Bool) :
    TDiffPart × Sep :=
  if post = .bang then ({ p with pval := (cell? txt quoted).or p.pval }, pre)
  else
    (match pre with
      | .none =>
        if columnLike = false ∧ post ≠ .equals ∧
          post ≠ .colon then { p with val := (cell? txt quoted).or p.val }
        else { p with key := some (String.ofList txt) }
      | .arrow =>
        if columnLike then { p with isFresh := true }
        else { p with nval := (cell? txt quoted).or p.nval, isFresh := p.isFresh || p.val.isNone }
      | .equals =>
        if columnLike then { p with isId := true }
        else { p with isId := true, val := (cell? txt quoted).or p.val }
      | .colon =>
        if columnLike then { p with isId := false }
        else { p with isId := false, val := (cell? txt quoted).or p.val }
      | .bang => p, post)

def applyElements (columnLike : Bool) : Sep → List Peeled → TDiffPart → TDiffPart
  | _, [], p => p
  | pre, e :: es, p =>
    let r := p.applyElement e.result pre e.sep e.hasQuote columnLike
    applyElements columnLike r.2 es r.1

/-- In a conflict the new value is the one in conflict, and the old one takes its place. -/
def settle (p : TDiffPart) : TDiffPart :=
  if p.conflict ∧ p.nval.isSome then { p with cval := p.nval, nval := p.val.or p.nval } else p

def apply (s : List Char) (columnLike : Bool) : TDiffPart :=
  let es := peels 4 s
  settle (applyElements columnLike .none es { conflict := es.any Peeled.conflict })

end TDiffPart

/-! ## The escapes -/

/-- None of the pairs that stand for a character. -/
def Unescaped (text : List Char) : Prop :=
  ¬ ['\\', 'n'] <:+: text ∧ ¬ ['\\', 'r'] <:+: text ∧ ¬ ['\\', '\\'] <:+: text

theorem length_lineFeeds_le (text : List Char) : (lineFeeds text).length ≤ text.length :=
  length_replaceAll_le (by decide) text

theorem length_returns_le (text : List Char) : (returns text).length ≤ text.length :=
  length_replaceAll_le (by decide) text

theorem length_backslashes_le (text : List Char) : (backslashes text).length ≤ text.length :=
  length_replaceAll_le (by decide) text

theorem length_unescape_le (text : List Char) : (unescape text).length ≤ text.length :=
  (length_backslashes_le _).trans ((length_returns_le _).trans (length_lineFeeds_le _))

theorem unescape_of_unescaped {text : List Char} (h : Unescaped text) : unescape text = text := by
  unfold unescape lineFeeds returns backslashes
  rw [replaceAll_eq_self h.1, replaceAll_eq_self h.2.1, replaceAll_eq_self h.2.2]

/-- A text that keeps its length has no escapes. -/
theorem unescaped_of_length {text : List Char} (h : text.length ≤ (unescape text).length) :
    Unescaped text := by
  have hb := length_backslashes_le (returns (lineFeeds text))
  have hr := length_returns_le (lineFeeds text)
  have hn := length_lineFeeds_le text
  unfold unescape at h
  have hfeed : ¬ ['\\', 'n'] <:+: text := fun hin => by
    have : (lineFeeds text).length < text.length := length_replaceAll_lt (by decide) hin
    omega
  have hfeeds : lineFeeds text = text := replaceAll_eq_self hfeed
  rw [hfeeds] at h hb hr
  have hreturn : ¬ ['\\', 'r'] <:+: text := fun hin => by
    have : (returns text).length < text.length := length_replaceAll_lt (by decide) hin
    omega
  have hreturns : returns text = text := replaceAll_eq_self hreturn
  rw [hreturns] at h hb
  have hback : ¬ ['\\', '\\'] <:+: text := fun hin => by
    have : (backslashes text).length < text.length := length_replaceAll_lt (by decide) hin
    omega
  exact ⟨hfeed, hreturn, hback⟩

theorem unescape_eq_self_iff {text : List Char} : unescape text = text ↔ Unescaped text :=
  ⟨fun h => unescaped_of_length (by rw [h]), unescape_of_unescaped⟩

theorem unescaped_of_notMem {text : List Char} (h : '\\' ∉ text) : Unescaped text :=
  ⟨fun hin => h (hin.subset (by simp)), fun hin => h (hin.subset (by simp)),
    fun hin => h (hin.subset (by simp))⟩

theorem head?_replaceAll {b r : Char} {text : List Char} (h : text.head? ≠ some '\\') :
    (replaceAll ['\\', b] [r] text).head? = text.head? := by
  cases text with
  | nil => rfl
  | cons c text =>
    have hp : ¬ ['\\', b] <+: c :: text := fun hp => h (by rw [(List.cons_prefix_cons.1 hp).1]; rfl)
    rw [replaceAll_cons hp]
    rfl

/-- A text without backslashes is read by itself. -/
theorem unescape_append_left {xs : List Char} (h : '\\' ∉ xs) (ys : List Char) :
    unescape (xs ++ ys) = xs ++ unescape ys := by
  have hone : ∀ (b r : Char) (ys : List Char), replaceAll ['\\', b] [r] (xs ++ ys) = xs ++
    replaceAll ['\\', b] [r] ys := by
    intro b r ys
    have hapart : Apart ['\\', b] xs ys := apart_pair (Or.inl fun hl => h (List.mem_of_getLast? hl))
    have hself : ¬ ['\\', b] <:+: xs := fun hin => h (hin.subset (by simp))
    rw [replaceAll_append (List.cons_ne_nil _ _) hapart, replaceAll_eq_self hself]
  unfold unescape lineFeeds returns backslashes
  rw [hone, hone, hone]

/-- Nor is a text cut by what cannot end an escape. -/
theorem unescape_append {ys : List Char} (h : ∀ c, ys.head? = some c → c ≠ 'n' ∧ c ≠ 'r' ∧ c ≠ '\\')
    (xs : List Char) : unescape (xs ++ ys) = unescape xs ++ unescape ys := by
  have hback : ys.head? ≠ some '\\' := fun hh => (h _ hh).2.2 rfl
  have hone : ∀ (b r : Char) (xs ys' : List Char), ys'.head? = ys.head? →
    (b = 'n' ∨ b = 'r' ∨ b = '\\') →
      replaceAll ['\\', b] [r] (xs ++ ys') = replaceAll ['\\', b] [r] xs ++ replaceAll ['\\', b]
      [r] ys' := by
    intro b r xs ys' hhead hb
    refine replaceAll_append (List.cons_ne_nil _ _) (apart_pair (Or.inr fun hh => ?_))
    obtain ⟨h₁, h₂, h₃⟩ := h b (hhead ▸ hh)
    rcases hb with hb | hb | hb
    · exact h₁ hb
    · exact h₂ hb
    · exact h₃ hb
  have hfeed : (lineFeeds ys).head? = ys.head? := head?_replaceAll hback
  have hreturn : (returns (lineFeeds ys)).head? = ys.head? :=
    (head?_replaceAll (by rw [hfeed]; exact hback)).trans hfeed
  unfold unescape
  have h₁ : lineFeeds (xs ++ ys) = lineFeeds xs ++ lineFeeds ys := hone _ _ _ _ rfl (Or.inl rfl)
  have h₂ : returns (lineFeeds xs ++ lineFeeds ys) = returns (lineFeeds xs) ++
    returns (lineFeeds ys) := hone _ _ _ _ hfeed (Or.inr (Or.inl rfl))
  rw [h₁, h₂]
  exact hone _ _ _ _ hreturn (Or.inr (Or.inr rfl))

end Tdiff

end Coopy
