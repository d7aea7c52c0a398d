import Coopy.Libcsv
import Coopy.Table

/-!
# Writing a sheet as CSV

`DataSheet::encode` and `encodeCell` with a `SheetStyle`.  A cell with a quote, a blank, a line end
or the delimiter is put between quotes, with its own quotes doubled; a text that looks like the null
token gets an underscore in front.

`encodeCell` keeps line ends back in `line_buf` until another character comes.  It doubles a quote
before it lets them go, so that the two quotes for a quote behind a line end are torn apart.
-/

namespace Coopy

structure SheetStyle where
  delim : List Char := [',']
  eol : List Char := ['\r', '\n']
  nullToken : List Char := "NULL".toList
  haveNull : Bool := true
  quoteCollision : Bool := true
  trimEnd : Bool := true
  markHeader : Bool := false
  eolAtEof : Bool := true
deriving DecidableEq, Repr

namespace SheetStyle

def defaultStyle : SheetStyle := {}

/-- The default style, with or without dashes below the header. -/
def marked (markHeader : Bool) : SheetStyle := { defaultStyle with markHeader := markHeader }

/-- `delim[0]`: of the empty text, its end mark. -/
def delimChar (style : SheetStyle) : Char := style.delim.headD '\x00'

/-- A character for which a cell is put between quotes. -/
def needsQuote (style : SheetStyle) (ch : Char) : Bool :=
  ch == '"' || ch == '\'' || ch == style.delimChar || ch == '\r' || ch == '\n' || ch == '\t' ||
  ch == ' '

/-- `str` is the null token behind any number of underscores. -/
def collides (style : SheetStyle) (str : List Char) : Bool :=
  str.dropWhile (· == '_') == style.nullToken

end SheetStyle

namespace DataSheet

/-- The loop of `encodeCell` over the text, with `line_buf`; what is left in it at the end is
lost. -/
def encodeChars (style : SheetStyle) : List Char → List Char → List Char
  | _, [] => []
  | lineBuf, ch :: rest =>
    (if ch == '"' then ['"'] else []) ++
      if !Libcsv.isTerm ch then lineBuf ++ ch :: encodeChars style [] rest
      else if style.trimEnd then encodeChars style (lineBuf ++ [ch]) rest
      else ch :: encodeChars style lineBuf rest

/-- The text of a cell with its underscore, if it needs one. -/
def collisionText (style : SheetStyle) (c : SheetCell) : List Char :=
  let str := c.text.toList
  if !c.escaped && style.quoteCollision && style.collides str then '_' :: str else str

def encodeCell (c : SheetCell) (style : SheetStyle) : List Char :=
  let str := c.text.toList
  let quotes := if str.any style.needsQuote then ['"'] else []
  if str.isEmpty && c.escaped && style.haveNull then style.nullToken
  else quotes ++ encodeChars style [] (collisionText style c) ++ quotes

/-- The cells of a line. -/
def encodeCells (style : SheetStyle) : List SheetCell → List Char
  | [] => []
  | [c] => encodeCell c style
  | c :: cs => encodeCell c style ++ style.delim ++ encodeCells style cs

theorem encodeCells_cons (style : SheetStyle) (c : SheetCell) {cs : List SheetCell} (h : cs ≠ []) :
    encodeCells style (c :: cs) = encodeCell c style ++ style.delim ++ encodeCells style cs := by
  cases cs with
  | nil => exact absurd rfl h
  | cons c' cs => rfl

/-- The dashes below line `y`, if the header ends there. -/
def headerMark (style : SheetStyle) (headerHeight : Option Int) (y : Nat) (len : Nat) : List Char :=
  if style.markHeader && headerHeight == some (y : Int) then List.replicate
  (min (max len 3) 79) '-' ++ style.eol
  else []

/-- The lines from line `y` on. -/
def encodeRows (style : SheetStyle) (headerHeight : Option Int) : Nat →
    List (List SheetCell) → List Char
  | _, [] => []
  | y, row :: rows =>
    let line := encodeCells style row
    line ++ (if style.eolAtEof || !rows.isEmpty then style.eol else []) ++
      headerMark style headerHeight y line.length ++ encodeRows style headerHeight (y + 1) rows

/-- `headerHeight` is that of the sheet's schema, if it has one. -/
def encode (style : SheetStyle) (headerHeight : Option Int) (s : DataSheet) : List Char :=
  encodeRows style headerHeight 0 s.rows

end DataSheet

end Coopy
