import Coopy.Lib.Transducer

/-!
# `libcsv`: the tokeniser

`csv_parse` reads one character at a time and calls back at the end of each field and of each row.
The options are those the reader sets: not strict, blank lines not reported.  A quoted field ends
with a quote that is followed by a delimiter or a line end; blanks around an unquoted field are
dropped.

The buffer `entry_buf` is kept up to `entry_pos`; what stands behind it is not kept.
-/

namespace Coopy

open Lib

namespace Libcsv

inductive PState
  | rowNotBegun
  | fieldNotBegun
  | fieldBegun
  | fieldMightHaveEnded
deriving DecidableEq, Repr

/-- What the callbacks are called with. -/
inductive Event
  | field (s : List Char) (quoted : Bool)
  | row
deriving DecidableEq, Repr

structure Parser where
  delim : Char
  pstate : PState := .rowNotBegun
  quoted : Bool := false
  spaces : Nat := 0
  entry : List Char := []
deriving DecidableEq, Repr

def isSpace (c : Char) : Bool := c == ' ' || c == '\t'

def isTerm (c : Char) : Bool := c == '\r' || c == '\n'

/-- `entry_pos -= n`. -/
def drop (entry : List Char) (n : Nat) : List Char := entry.take (entry.length - n)

namespace Parser

def submitChar (p : Parser) (c : Char) : Parser := { p with entry := p.entry ++ [c] }

/-- The text that `SUBMIT_FIELD` passes on. -/
def fieldText (p : Parser) : List Char := if p.quoted then p.entry else drop p.entry p.spaces

def submitField (p : Parser) : List Event × Parser :=
  ([.field p.fieldText p.quoted],
    { p with pstate := .fieldNotBegun, entry := [], quoted := false, spaces := 0 })

def submitRow (p : Parser) : List Event × Parser :=
  ([.row], { p with pstate := .rowNotBegun, entry := [], quoted := false, spaces := 0 })

/-- `SUBMIT_FIELD` and then `SUBMIT_ROW`. -/
def submitLast (p : Parser) : List Event × Parser :=
  (p.submitField.1 ++ p.submitField.2.submitRow.1, p.submitField.2.submitRow.2)

/-- Without the closing quote and the blanks behind it. -/
def unquote (p : Parser) : Parser := { p with entry := drop p.entry (p.spaces + 1) }

def atStart (p : Parser) (c : Char) : List Event × Parser :=
  if isSpace c && c != p.delim then ([], p)
  else if isTerm c then
    match p.pstate with
    | .fieldNotBegun => p.submitLast
    | _ => ([], p)
  else if c == p.delim then p.submitField
  else if c == '"' then ([], { p with pstate := .fieldBegun, quoted := true })
  else ([], { p with pstate := .fieldBegun, quoted := false }.submitChar c)

def inField (p : Parser) (c : Char) : List Event × Parser :=
  if c == '"' then
    if p.quoted then ([], { p.submitChar c with pstate := .fieldMightHaveEnded })
    else ([], { p.submitChar c with spaces := 0 })
  else if c == p.delim then
    if p.quoted then ([], p.submitChar c) else p.submitField
  else if isTerm c then
    if !p.quoted then p.submitLast else ([], p.submitChar c)
  else if !p.quoted && isSpace c then ([], { p.submitChar c with spaces := p.spaces + 1 })
  else ([], { p.submitChar c with spaces := 0 })

def afterQuote (p : Parser) (c : Char) : List Event × Parser :=
  if c == p.delim then p.unquote.submitField
  else if isTerm c then p.unquote.submitLast
  else if isSpace c then ([], { p.submitChar c with spaces := p.spaces + 1 })
  else if c == '"' then
    if p.spaces ≠ 0 then ([], { p with spaces := 0 }.submitChar c)
    else ([], { p with pstate := .fieldBegun })
  else ([], { p with pstate := .fieldBegun, spaces := 0 }.submitChar c)

end Parser

/-- One turn of the loop of `csv_parse`. -/
def step : Transducer Parser Char Event := fun p c =>
  match p.pstate with
  | .rowNotBegun | .fieldNotBegun => p.atStart c
  | .fieldBegun => p.inField c
  | .fieldMightHaveEnded => p.afterQuote c

/-- `csv_fini`: a row without a line end is closed. -/
def fini (p : Parser) : List Event :=
  match p.pstate with
  | .rowNotBegun => []
  | .fieldMightHaveEnded => p.unquote.submitLast.1
  | .fieldNotBegun | .fieldBegun => p.submitLast.1

/-- All events for a text, as `csv_parse` and then `csv_fini` call back. -/
def events (delim : Char) (text : List Char) : List Event :=
  let (es, p) := Transducer.run step text { delim := delim }
  es ++ fini p

end Libcsv

end Coopy
