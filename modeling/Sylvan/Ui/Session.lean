import Sylvan.Lib.Numeral
import Sylvan.Op

/-! # The user interface (`src/`)

A command line is an array of C strings that ends with `NULL`. What `malloc` left in the slots after the `NULL`, and in
the bytes after the end of each string, can be read as well: `Argv` and `CStr` say what is there. Behind that there are
`NULL`s and zeros.

What is printed is kept as a format and its arguments, without the colours, and a table as its title and its rows. -/

namespace Sylvan

/-- A string of characters other than `'\0'`, and the bytes after its terminating `'\0'`. -/
structure CStr where
  text : String
  nonul : '\x00' ∉ text.toList
  beyond : List Char
  deriving DecidableEq, Repr

/-- The memory from `&s[k]` on. -/
def CStr.from (s : CStr) (k : Nat) : List Char := (s.text.toList ++ '\x00' :: s.beyond).drop k

/-- `s[k]` -/
def CStr.char (s : CStr) (k : Nat) : Char := (s.from k).headD '\x00'

/-- `strncmp(s, t, n) == 0`, for a text `t` of `n` characters -/
def CStr.startsWith (s : CStr) (t : String) : Bool := t.toList.isPrefixOf s.text.toList

/-- `char **command`: its tokens, and the slots after the terminating `NULL`. -/
structure Argv where
  tokens : List CStr
  slots : List (Option CStr)
  deriving DecidableEq, Repr

/-- `command[k]` -/
def Argv.arg (command : Argv) (k : Nat) : Option CStr := ((command.tokens.map some ++ none :: command.slots)[k]?).join

def Argv.texts (command : Argv) : List String := command.tokens.map CStr.text

/-! ## What is printed -/

/-- An argument of a format. -/
inductive Arg where
  | str (s : String)
  | null
  | int (n : Int)
  | word (w : BitVec 64)
  | char (c : Char)
  deriving DecidableEq, Repr

inductive Output where
  | error (format : String) (args : List Arg)
  | ok (format : String) (args : List Arg)
  | instruction (format : String)
  | stdout (format : String) (args : List Arg)
  | stderr (format : String) (args : List Arg)
  | table (title : String) (rows : List (List Arg))
  deriving DecidableEq, Repr

/-- What `vprintf` makes of a format that no argument is passed for. A conversion other than `%%` asks for one. -/
def formatText : List Char → Option (List Char)
  | [] => some []
  | '%' :: '%' :: cs => (formatText cs).map ('%' :: ·)
  | '%' :: _ => none
  | c :: cs => (formatText cs).map (c :: ·)

/-- An error that is a format alone is printed as it is. -/
def Output.Verbatim : Output → Prop
  | .error format [] | .stderr format [] => formatText format.toList = some format.toList
  | _ => True

instance : DecidablePred Output.Verbatim
  | .error format [] | .stderr format [] => inferInstanceAs (Decidable (formatText format.toList = some format.toList))
  | .error _ (_ :: _) | .stderr _ (_ :: _) | .ok _ _ | .instruction _ | .stdout _ _ | .table _ _ => isTrue trivial

/-- An entry of `alias_table`. -/
structure Alias where
  name : String
  orgCmd : String
  id : Int
  type : Char
  deriving DecidableEq, Repr

/-- What the commands work on. The aliases are in the order of `HASH_ITER`, the history in that of `history_get`. -/
structure Session where
  state : State
  out : List Output
  aliases : List Alias
  interrupted : Bool
  history : List CStr

/-- An instruction as `ZydisDisassembleIntel` finds it. -/
structure Instruction where
  length : Nat
  pos : 0 < length
  text : String

/-- A file that is open: its bytes, and the offsets from its start that the file system lets it be set to. -/
structure OpenFile where
  bytes : List Byte
  offsets : Nat → Bool

/-- `fseek(fd, off, SEEK_SET)` returns 0. The offset is a `long`. -/
def OpenFile.seeks (file : OpenFile) (off : BitVec 64) : Bool := decide (0 ≤ off.toInt) && file.offsets off.toNat

/-- An open file without a limit for its offsets -/
def OpenFile.whole (bytes : List Byte) : OpenFile := ⟨bytes, fun _ => true⟩

@[simp]
theorem OpenFile.seeks_whole (bytes : List Byte) (off : BitVec 64) : (OpenFile.whole bytes).seeks off = decide (0 ≤ off.toInt) :=
  Bool.and_true _

/-- What the user interface sees of the system besides. -/
structure UiEnv extends Env where
  /-- The file that `fopen` opens. -/
  fopen : Nat → Option String → Except Failure OpenFile
  zydis : Addr → List Byte → Option Instruction
  elfErrmsg : String
  openAuxv : Nat → Pid → Option Failure
  readAuxv : Nat → Except Failure (List Byte)
  /-- The line that `readline` gives, and whether `SIGINT` came meanwhile. -/
  readline : Nat → Option CStr × Bool
  /-- What `malloc` left in a block of characters, as behind a token, and in the slots behind the `NULL` of a command line. -/
  behind : Nat → List Char
  slots : Nat → List (Option CStr)

/-- A function of the user interface. It may return early, with the `int` that its caller gets. -/
abbrev UiM (α : Type) := Exec Session Int Fault α

/-- `return n` -/
def leave {α : Type} (n : Int) : UiM α := Exec.error n

def print (o : Output) : UiM Unit := Exec.modify fun s => { s with out := s.out ++ [o] }

def printError (format : String) (args : List Arg) : UiM Unit := print (.error format args)

def printOk (format : String) (args : List Arg) : UiM Unit := print (.ok format args)

def printInstruction (format : String) : UiM Unit := print (.instruction format)

def printf (format : String) (args : List Arg) : UiM Unit := print (.stdout format args)

/-- `fprintf(stderr, format, args)` -/
def printStderr (format : String) (args : List Arg) : UiM Unit := print (.stderr format args)

def printTable (title : String) (rows : List (List Arg)) : UiM Unit := print (.table title rows)

/-- The cell of `print_table` for a value in a column `TABLE_COL_HEX_LONG`, by `"0x%lx"` -/
def hexLong (w : BitVec 64) : String := "0x" ++ hex w.toNat

/-- `sylvan_get_last_error`, for a message that is the format -/
def printLastError : UiM Unit := do printError (← Exec.get).state.scratch.lastError.message []

/-- A call of the library: its error code is a value. -/
def lib {α : Type} (x : SylvanM α) : UiM (Except Code α) := fun s =>
  match x s.state with
  | .ok a t => .ok (.ok a) { s with state := t }
  | .error c t => .ok (.error c) { s with state := t }
  | .fault f t => .fault f { s with state := t }

/-- A call of the library: if it fails, its error is printed and the command is over. -/
def orLastError {α : Type} (x : SylvanM α) : UiM α := do
  match ← lib x with
  | .ok a => pure a
  | .error _ => do
    printLastError
    leave 0

/-- `inf`, as it is now -/
def inferior : UiM Inferior := do return (← Exec.get).state.inf

/-- A call of the library or of the system that has no error. -/
def sys {α : Type} (x : SylvanM α) : UiM α := do
  match ← lib x with
  | .ok a => pure a
  | .error _ => leave 0

/-- A command whose arguments are wrong is over. -/
def reject {α : Type} (outputs : List Output) : UiM α := do
  Exec.modify fun s => { s with out := s.out ++ outputs }
  leave 0

/-- `sylvan_print_error("Invalid Arguments"); return 0` -/
def invalidArguments {α : Type} : UiM α := reject [.error "Invalid Arguments" []]

/-- An allocation whose result is not checked. -/
def allocate (env : UiEnv) : UiM Unit := do
  Exec.when ((← sys (Sys.malloc env.toEnv)) = false) (Exec.fault .nullDereference)

/-- `strdup(text)` -/
def copyText (env : UiEnv) (text : String) : UiM Arg := do
  if ← sys (Sys.malloc env.toEnv) then pure (.str text) else pure .null

/-- The digits of `%02x` -/
def hexDigits (b : Byte) : List Char :=
  let digits := Nat.toDigits 16 b.toNat
  if digits.length < 2 then '0' :: digits else digits

/-! ## Numerals -/

def ERANGE : Errno := 34

def INT_MAX : Nat := 2 ^ 31 - 1

/-- `errno = 0`, a call of `strtol` or `strtoul`, and its result -/
def converted (r : Numeral.Result) : UiM Numeral.Result := do
  sys (setErrno (if r.range then ERANGE else 0))
  pure r

/-- A `long` as an `int` -/
def asInt (n : Int) : Int := (BitVec.ofInt 32 n).toInt

/-- A `long` as a `uintptr_t` -/
def asAddr (n : Int) : Addr := BitVec.ofInt 64 n

end Sylvan
