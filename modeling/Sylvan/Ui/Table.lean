import Mathlib.Algebra.Ring.Int.Defs
import Sylvan.Ui.Session

/-! # Tables (`src/ui_utils.c`)

Elsewhere a table that is printed is kept as its title and its rows. Here is how `print_table` prints it: line by line, without
the colours, and with a prompt behind each page. How `float`s scale a width down is a parameter. -/

namespace Sylvan

/-! ## The terminal -/

def TERM_WIDTH_FALLBACK : Int := 80
def TERM_HEIGHT_FALLBACK : Int := 24

/-- `struct term_size`, of positive numbers -/
structure TermSize where
  width : Int
  height : Int
  width_pos : 0 < width
  height_pos : 0 < height

/-- `struct winsize` -/
structure WinSize where
  wsCol : BitVec 16
  wsRow : BitVec 16

/-- What `get_terminal_size` asks for: the size of the terminal that the standard output is, or the standard error, and the
    variables `COLUMNS` and `LINES` -/
structure TermEnv where
  stdout : Option WinSize
  stderr : Option WinSize
  columns : Option CStr
  lines : Option CStr

/-- A number that a variable gives. It is not `0`, as a text without digits is. -/
def envSize (text : Option CStr) (fallback : Int) : Int :=
  match text with
  | none => fallback
  | some text =>
    let r := Numeral.strtol 10 (text.from 0)
    if r.atEnd ∧ 0 < r.value ∧ r.value ≤ INT_MAX then r.value else fallback

/-- A number of `struct winsize` -/
def winSize (n : BitVec 16) (fallback : Int) : Int := if 0 < n.toNat then n.toNat else fallback

theorem envSize_pos {text : Option CStr} {fallback : Int} (h : 0 < fallback) : 0 < envSize text fallback := by
  unfold envSize
  split
  · exact h
  · dsimp only
    split
    · rename_i hvalue
      exact hvalue.2.1
    · exact h

theorem winSize_pos {n : BitVec 16} {fallback : Int} (h : 0 < fallback) : 0 < winSize n fallback := by
  unfold winSize
  split
  · omega
  · exact h

def getTerminalSize (env : TermEnv) : TermSize :=
  match env.stdout <|> env.stderr with
  | some w => ⟨winSize w.wsCol TERM_WIDTH_FALLBACK, winSize w.wsRow TERM_HEIGHT_FALLBACK, winSize_pos (by decide), winSize_pos (by decide)⟩
  | none =>
    ⟨envSize env.columns TERM_WIDTH_FALLBACK, envSize env.lines TERM_HEIGHT_FALLBACK, envSize_pos (by decide), envSize_pos (by decide)⟩

/-! ## Rows -/

/-- `enum table_col_format` -/
inductive ColFormat where
  | str
  | int
  | hex
  | hexLong
  deriving DecidableEq, Repr

/-- `struct table_col` -/
structure TableCol where
  header : String
  width : Int
  format : ColFormat
  deriving DecidableEq, Repr

/-- What a row holds for a column -/
inductive Cell where
  | str (s : String)
  | int (n : Int)
  | hex (w : BitVec 32)
  | hexLong (w : BitVec 64)
  deriving DecidableEq, Repr

def Cell.format : Cell → ColFormat
  | str _ => .str
  | int _ => .int
  | hex _ => .hex
  | hexLong _ => .hexLong

/-- `struct table_row`: `data` has a cell for each column, in the format of the column. -/
structure TableRow (cols : List TableCol) where
  cells : List Cell
  formats : cells.map Cell.format = cols.map TableCol.format

def Cell.text : Cell → String
  | str s => s
  | int n => toString n
  | hex w => "0x" ++ Sylvan.hex w.toNat
  | hexLong w => Sylvan.hexLong w

/-- `%-*s` -/
def padded (width : Int) (text : String) : String := text ++ String.ofList (List.replicate (width.natAbs - text.length) ' ')

/-! ## What is printed -/

inductive Shown where
  | title (text : String)
  | line (text : String)
  | header (cells : List String)
  | row (cells : List String)
  /-- `-- More -- (%d/%d rows)`, and the character that is typed, if any is -/
  | prompt (current total : Int) (answer : Option Char)
  | erase
  deriving DecidableEq, Repr

/-- The user's terminal: what is typed on it, and what it shows -/
structure Screen where
  input : List Char
  out : List Shown
  deriving DecidableEq, Repr

abbrev TableM (α : Type) := Exec Screen Code Fault α

def shows (shown : Shown) : TableM Unit := Exec.modify fun s => { s with out := s.out ++ [shown] }

def printTableLine (widths : List Int) (left mid right : Char) : TableM Unit :=
  shows (.line (String.ofList (left :: List.intercalate [mid] (widths.map fun w => List.replicate w.toNat '-') ++ [right])))

def promptForContinue (currentRow totalRows : Int) : TableM Bool := do
  let input := (← Exec.get).input
  shows (.prompt currentRow totalRows input.head?)
  if input.head? = some 'q' ∨ input.head? = some 'Q' then do
    Exec.modify fun s => { s with input := input.tail }
    pure false
  else do
    Exec.modify fun s => { s with input := (input.dropWhile (· ≠ '\n')).tail }
    shows .erase
    pure true

/-- The texts of a row -/
def rowCells (widths : List Int) {cols : List TableCol} (row : TableRow cols) : List String :=
  List.zipWith (fun width cell => padded (width - 1) cell.text) widths row.cells

/-- The loop over the rows, from row `r` on -/
def printTableRows (widths : List Int) (pageSize rowCount : Int) {cols : List TableCol} :
    Int → Int → List (TableRow cols) → TableM Unit
  | _, _, [] => pure ()
  | r, rowsPrinted, row :: rows =>
    if rowCount ≤ r then pure ()
    else do
      shows (.row (rowCells widths row))
      let rowsPrinted := rowsPrinted + 1
      Exec.when (pageSize = 0) (Exec.fault .divisionByZero)
      if rowsPrinted.tmod pageSize = 0 ∧ r < rowCount - 1 then do
        if ← promptForContinue rowsPrinted rowCount then do
          printTableLine widths '+' '+' '+'
          printTableRows widths pageSize rowCount (r + 1) rowsPrinted rows
        else pure ()
      else do
        Exec.when (r < rowCount - 1) (printTableLine widths '+' '+' '+')
        printTableRows widths pageSize rowCount (r + 1) rowsPrinted rows

/-- The widths that the columns want -/
def wantedWidths (cols : List TableCol) : List Int :=
  cols.map fun col => if asInt col.header.length < col.width then col.width else asInt col.header.length

def totalWidth (cols : List TableCol) : Int := asInt (((wantedWidths cols).map (· + 1)).sum + 1)

section
-- `(int)(width * ((float)term_width / total_width))`, for `term_width`, `total_width` and the width
variable (scale : Int → Int → Int → Int)

/-- The widths that they get -/
def tableWidths (term : TermSize) (cols : List TableCol) : List Int :=
  if term.width < totalWidth cols then (wantedWidths cols).map (scale term.width (totalWidth cols)) else wantedWidths cols

/-- The part of `print_table` behind the call of `get_terminal_size` -/
def printTableOn (term : TermSize) (title : String) (cols : List TableCol) (rows : List (TableRow cols)) (rowCount : Int) :
    TableM Unit := do
  let pageSize := term.height - 12
  Exec.when (term.width < totalWidth cols ∧ totalWidth cols = 0) (Exec.fault .divisionByZero)
  let widths := tableWidths scale term cols
  shows (.title title)
  printTableLine widths '+' '+' '+'
  shows (.header (List.zipWith (fun width col => padded (width - 1) col.header) widths cols))
  printTableLine widths '+' '+' '+'
  printTableRows widths pageSize rowCount 0 0 rows
  printTableLine widths '+' '+' '+'

/-- `print_table` -/
def printTableLines (env : TermEnv) (title : Option String) (cols : List TableCol) (rows : List (TableRow cols)) (rowCount : Int) :
    TableM Unit :=
  match title with
  | none => pure ()
  | some title => if cols = [] then pure () else printTableOn scale (getTerminalSize env) title cols rows rowCount

end

end Sylvan
