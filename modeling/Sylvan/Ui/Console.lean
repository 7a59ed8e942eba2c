import Sylvan.Lib.Blocks
import Sylvan.Lib.Refine
import Sylvan.Ui.Interface

/-! # Command lines in memory (`src/user_interface.c`)

What a turn of the loop of `interface_loop` allocates and frees: the line that `readline` gives, or the copy of the last one of the
history, the array of the words of a command, which grows, and each word. `strtok` cuts the line where it is, so the words of it
are found at once. A command reads its words; it neither frees nor keeps them. What it reads of the array behind them is not looked
up here: that is `env.slots`, as for the commands of a session. -/

namespace Sylvan

/-- A block that `malloc` gave. -/
inductive LineBlock where
  | text (s : CStr)
  /-- An array of `char *`, and which of its elements were written. -/
  | args (slots : List (Option (Option Nat)))
  deriving DecidableEq, Repr

structure Console where
  session : Session
  heap : Heap Nat LineBlock

/-- What the user interface sees of the system besides. -/
structure ConsoleEnv extends UiEnv where
  /-- The next block that `malloc` gives. -/
  block : Console → Nat

inductive ConsoleFault where
  | ui (f : Fault)
  | memory (f : Heap.Misuse)
  /-- A read of what was not written, or of a block of another kind. -/
  | garbage
  deriving DecidableEq, Repr

abbrev ConsoleM (α : Type) := Exec Console Int ConsoleFault α

namespace Console

def onSession {α : Type} (x : UiM α) : ConsoleM α := Exec.zoom session (fun s m => { m with session := s }) id .ui x

def onHeap {α : Type} (x : Exec (Heap Nat LineBlock) Int Heap.Misuse α) : ConsoleM α :=
  Exec.zoom heap (fun h m => { m with heap := h }) id .memory x

def free (p : Option Nat) : ConsoleM Unit := onHeap (Heap.free p)

/-- The string at `p` -/
def loadText (p : Nat) : ConsoleM CStr := do
  match ← onHeap (Heap.load p) with
  | .text s => pure s
  | _ => Exec.fault .garbage

/-- The array at `p` -/
def loadSlots (p : Nat) : ConsoleM (List (Option (Option Nat))) := do
  match ← onHeap (Heap.load p) with
  | .args slots => pure slots
  | _ => Exec.fault .garbage

/-- `args[i]` -/
def slotAt (args i : Nat) : ConsoleM (Option Nat) := do
  match (← loadSlots args)[i]? with
  | none => Exec.fault (.ui .outOfBounds)
  | some none => Exec.fault .garbage
  | some (some p) => pure p

/-- `args[i] = p` -/
def storeSlot (args i : Nat) (p : Option Nat) : ConsoleM Unit := do
  let slots ← loadSlots args
  Exec.when (slots.length ≤ i) (Exec.fault (.ui .outOfBounds))
  onHeap (Heap.store args (.args (slots.set i (some p))))

/-! ## Reading a command -/

section
variable (env : ConsoleEnv)

/-- A block, where there is memory for it. -/
def newBlock (b : LineBlock) : ConsoleM Nat := do
  let p := env.block (← Exec.get)
  onHeap (Heap.place p b)
  pure p

/-- `malloc` and `strdup`, with what is put in the block at once -/
def malloc (b : LineBlock) : ConsoleM (Option Nat) := do
  if ← onSession (sys (Sys.malloc env.toEnv)) then return some (← newBlock env b) else return none

/-- `realloc` of an array of words -/
def reallocSlots (args size : Nat) : ConsoleM (Option Nat) := do
  if ← onSession (sys (Sys.malloc env.toEnv)) then do
    let slots ← loadSlots args
    onHeap (Heap.release args)
    return some (← newBlock env (.args (slots.take size ++ List.replicate (size - slots.length) none)))
  else return none

/-- The `free`s of `get_command` where there is no memory: the first `n` words, the array and the line. -/
def freeCollected (input args n : Nat) : ConsoleM Unit := do
  Exec.each (List.range n) fun i => do free (← slotAt args i)
  free (some args)
  free (some input)

/-- The loop of `get_command` over the tokens that are left, for an array of `size` slots of which the first `count` hold words -/
def collectArgs (input : Nat) : List CStr → Nat → Nat → Nat → ConsoleM (Option Nat)
  | [], args, count, _ => do
    storeSlot args count none
    free (some input)
    pure (some args)
  | token :: tokens, args, count, size => do
    let word ← malloc env (.text token)
    storeSlot args count word
    if word = none then do
      onSession (printStderr "Error: strdup failed: %s\n" [.str (env.strerror ENOMEM)])
      freeCollected input args count
      pure none
    else if size - 1 ≤ count + 1 then do
      match ← reallocSlots env args (size * 2) with
      | none => do
        onSession (printStderr "Error: realloc failed: %s\n" [.str (env.strerror ENOMEM)])
        freeCollected input args (count + 1)
        pure none
      | some newArgs => collectArgs input tokens newArgs (count + 1) (size * 2)
    else collectArgs input tokens args (count + 1) size

/-- The line that is to be run, where `readline` gave the one at `input`. -/
def commandLine (input : Nat) : ConsoleM (Option Nat) := do
  let line ← loadText input
  if line.text ≠ "" then do
    onSession (Exec.modify fun s => { s with history := s.history ++ [line] })
    pure (some input)
  else match (← Exec.get).session.history.getLast? with
    | none => pure (some input)
    | some last =>
      if last.text = "" then pure (some input)
      else do
        free (some input)
        malloc env (.text last)

/-- What `readline` gives -/
def newLine : Option CStr → ConsoleM (Option Nat)
  | none => pure none
  | some line => do return some (← newBlock env (.text line))

/-- `get_command`, where `none` is `NULL` -/
def getCommand : ConsoleM (Option Nat) := do
  let t ← onSession (sys Sys.tick)
  onSession (Exec.modify fun s => { s with interrupted := s.interrupted || (env.readline t).2 })
  let input ← newLine env (env.readline t).1
  if (← Exec.get).session.interrupted then do
    onSession (Exec.modify fun s => { s with interrupted := false })
    free input
    pure none
  else match input with
    | none => Exec.fault (.ui .nullDereference)
    | some input => do
      let input ← commandLine env input
      match ← malloc env (.args (List.replicate initialArgCount none)) with
      | none => do
        onSession (printStderr "Error: malloc failed for args: %s\n" [.str (env.strerror ENOMEM)])
        free input
        pure none
      | some args =>
        match input with
        | none => Exec.fault (.ui .staleToken)
        | some input => do
          let line ← loadText input
          collectArgs env input (line.tokens fun i => env.behind (t + i)) args 0 initialArgCount

/-! ## A turn of the loop -/

/-- The words from `args[i]` on, for at most `n` of them -/
def wordsFrom (args : Nat) : Nat → Nat → ConsoleM (List CStr)
  | 0, _ => pure []
  | n + 1, i => do
    match ← slotAt args i with
    | none => pure []
    | some p => do
      let word ← loadText p
      let words ← wordsFrom args n (i + 1)
      pure (word :: words)

/-- The loop of `free_command` from `args[i]` on, for at most `n` turns -/
def freeWords (args : Nat) : Nat → Nat → ConsoleM Unit
  | 0, _ => pure ()
  | n + 1, i => do
    match ← slotAt args i with
    | none => pure ()
    | some p => do
      free (some p)
      freeWords args n (i + 1)

def freeCommand (args : Nat) : ConsoleM Unit := do
  freeWords args ((← loadSlots args).length + 1) 0
  free (some args)

/-- A turn of the loop of `interface_loop`, which goes on while the result is `0` -/
def interfaceTurn : ConsoleM Int := do
  let t := (← Exec.get).session.state.scratch.clock
  match ← getCommand env with
  | none => pure 0
  | some args => do
    match ← slotAt args 0 with
    | none => do
      freeCommand args
      pure 0
    | some p => do
      let name ← loadText p
      if name.char 0 = '\x00' then do
        freeCommand args
        pure 0
      else do
        let words ← wordsFrom args ((← loadSlots args).length + 1) 0
        let r ← onSession (handleCommand env.toUiEnv ⟨words, env.slots t⟩)
        freeCommand args
        pure r

end

end Console

end Sylvan
