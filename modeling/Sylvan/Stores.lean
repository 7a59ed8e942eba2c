import Mathlib.Algebra.GroupWithZero.Nat
import Sylvan.Lib.Block
import Sylvan.Ui.Interface

/-! # The buffers, store by store

The functions of `lib/sylvan/error.c`, `utils.c` and `inferior.c` and of `src/command_handler.c` and `user_interface.c` that put
strings together in a block, or their addresses: here with each of their stores, and elsewhere as the texts that come out. A
block that a store would leave is a fault, or `none`. -/

namespace Sylvan

/-! ## `sylvan_errmsg_buffer` -/

/-- The stores of `sylvan_set_errno_msg`, for the expansion `text` of its format; with them, `rem` at the end -/
def errnoMsgStores (buffer : Vector Char errmsgBufferSize) (text description : List Char) :
    Option (List Char × BitVec 64) := do
  let rem : BitVec 64 := BitVec.ofNat 64 errmsgBufferSize
  let count : BitVec 64 := (BitVec.ofNat 32 text.length).signExtend 64
  let block ← Block.print '\x00' buffer.toList 0 rem.toNat text
  if count < rem - 3 then do
    let rem := rem - count
    let block ← Block.print '\x00' block count.toNat rem.toNat (':' :: ' ' :: description)
    let block ← Block.store block (errmsgBufferSize - 1) ['\x00']
    pure (block, rem)
  else do
    let block ← Block.store block (errmsgBufferSize - 1) ['\x00']
    pure (block, rem)

/-! ## A search in `PATH` -/

/-- The strings of `sylvan_find_in_PATH`, each as its block -/
structure PathBlocks where
  /-- What `getenv` gives, `none` for `NULL` -/
  environ : Option (List Char)
  /-- The copy that `strtok` works on -/
  path : List Char
  /-- `*filepath` -/
  filepath : Option (List Char)
  deriving DecidableEq, Repr

abbrev PathM (α : Type) := Exec PathBlocks Code Fault α

/-- A store, or a string that is read, inside its block -/
def inBlock {α : Type} : Option α → PathM α
  | none => Exec.fault .outOfBounds
  | some a => pure a

section
variable (access : String → Bool) (stale : Nat → Char) (command : CStr)

/-- `full_path`, for the directory `token` -/
def fullPathStores (token : List Char) : Option (List Char) := do
  let block := Block.alloc stale (token.length + 1 + command.text.length + 1)
  let block ← Block.store block 0 token
  let block ← Block.store block token.length ['/']
  Block.store block (token.length + 1) (command.text.toList ++ ['\x00'])

/-- The loop, from where `strtok` stopped at item `k`, for at most `n` turns -/
def searchStores : Nat → Nat → PathM Unit
  | 0, _ => Exec.fault .interrupted
  | n + 1, k => do
    match Block.strtok '\x00' ':' (← Exec.get).path k with
    | none => Exec.error .fileNotFound
    | some (start, path, stop) => do
      Exec.modify fun s => { s with path }
      let token ← inBlock (Block.string '\x00' path start)
      let block ← inBlock (fullPathStores stale command token)
      let fullPath ← inBlock (Block.string '\x00' block 0)
      if access (String.ofList fullPath) then Exec.modify fun s => { s with filepath := some block }
      else searchStores n stop

/-- `sylvan_find_in_PATH`, where `access` says which files can be executed, and there is memory -/
def findInPATHStores : PathM Unit := do
  match (← Exec.get).environ with
  | none => Exec.error .fileNotFound
  | some environ => do
    let text ← inBlock (Block.string '\x00' environ 0)
    Exec.modify fun s => { s with path := text ++ ['\x00'] }
    searchStores access stale command (text.length + 1) 0

end

/-! ## Arguments -/

/-- The block `args` of `handle_child` -/
def commandLineStores (stale : Nat → Char) (path : CStr) (args : Option CStr) : Option (List Char) := do
  let argsLen := (args.map fun args => args.text.length).getD 0
  let pathLen := path.text.length
  let block := Block.alloc stale (pathLen + 1 + if argsLen ≠ 0 then argsLen + 1 else 0)
  let block ← Block.store block 0 path.text.toList
  match args with
  | none => pure block
  | some args => do
    let block ← Block.store block pathLen [' ']
    Block.store block (pathLen + 1) (args.text.toList ++ ['\x00'])

/-- The loop of `handle_set_args` that puts the words together, from word `i` on -/
def joinStores : List Char → Nat → List CStr → Option (List Char)
  | block, _, [] => some block
  | block, i, word :: words => do
    let block ← if 0 < i then Block.cat '\x00' block [' '] else some block
    let block ← Block.cat '\x00' block word.text.toList
    joinStores block (i + 1) words

/-- The block `args` of `handle_set_args` -/
def setArgsStores (stale : Nat → Char) (command : List CStr) : Option (List Char) := do
  let totalLen := (command.map fun word => word.text.length + 1).sum
  let block ← Block.store (Block.alloc stale totalLen) 0 ['\x00']
  joinStores block 0 command

/-! ## A command line -/

section
variable (stale : Nat → Option (List Char))

/-- The loop of `get_command`, from where `strtok` stopped at item `k`, for at most `n` turns. The slots of `args` hold `NULL` or
    a copy of a token, and the first `argCount` are in use. -/
def collectStores : Nat → List Char → Nat → List (Option (List Char)) → Nat → Option (List (Option (List Char)))
  | 0, _, _, _, _ => none
  | n + 1, line, k, args, argCount =>
    match Block.strtok '\x00' ' ' line k with
    | none => Block.store args argCount [none]
    | some (start, line, stop) => do
      let token ← Block.string '\x00' line start
      let args ← Block.store args argCount [some token]
      let argCount := argCount + 1
      let args := if args.length - 1 ≤ argCount then args ++ (Block.alloc stale (args.length * 2)).drop args.length else args
      collectStores n line stop args argCount

/-- The array `args` of `get_command`, for the line `input`, where there is memory -/
def getCommandStores (input : CStr) : Option (List (Option (List Char))) :=
  collectStores stale (input.text.length + 1) (input.text.toList ++ ['\x00']) 0 (Block.alloc stale initialArgCount) 0

end

end Sylvan
