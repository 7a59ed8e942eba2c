import Sylvan.Lib.Refine
import Sylvan.Ui.Interface
import Sylvan.Uthash

/-! # The command registry in memory (`src/command_registry.c`)

`command_hash` and `alias_table` as the hash tables that they are. Their items are the elements of `static_commands` and
`static_aliases` and the blocks that `insert_alias` allocates, and a string is the bytes at an address. The rest of the user
interface works on the session as before, whose `aliases` are not looked at here. -/

namespace Sylvan

/-- An address, of static data or of a block that `malloc` gave. -/
inductive Ptr where
  | static (n : Nat)
  | heap (n : Nat)
  deriving DecidableEq, Repr

/-- `struct sylvan_command_data`, without its handle -/
structure CommandData where
  name : Option Ptr
  description : String
  handler : Handler
  type : CommandType
  id : Int
  usage : String
  deriving DecidableEq, Repr

/-- `struct sylvan_command_alias`, without its handle -/
structure AliasData where
  name : Option Ptr
  orgCmd : Option Ptr
  id : Int
  type : Char
  deriving DecidableEq, Repr

/-- The session, and the memory of the two tables. -/
structure Registry where
  session : Session
  commandHash : Hash Ptr CommandData
  aliasTable : Hash Ptr AliasData

/-- What the registry sees of the system besides. -/
structure RegistryEnv extends UiEnv where
  /-- Whether `malloc` grants a table so many bytes. -/
  grants : Registry → Nat → Bool
  /-- The next block that `malloc` gives, and what is in it as a `struct sylvan_command_alias`. -/
  place : Registry → Nat
  leftItem : Registry → HashItem Ptr AliasData

inductive RegistryFault where
  | ui (f : Fault)
  | hash (f : HashFault)
  /-- `free` of what is no block, or of one that was freed before. -/
  | badFree
  deriving DecidableEq, Repr

abbrev RegistryM (α : Type) := Exec Registry Int RegistryFault α

/-! ## Static data -/

/-- The bytes of a string: its characters. -/
def cBytes (s : String) : List UInt8 := s.toList.map fun c => UInt8.ofNat c.toNat

/-- What bytes are printed as. -/
def textOf (bytes : List UInt8) : String := String.ofList (bytes.map fun b => Char.ofNat b.toNat)

/-- An item with the handle `{0}` -/
def staticItem {V : Type} (val : V) : HashItem Ptr V := ⟨val, none, none, none, none, none, 0, 0⟩

/-- A command whose name is at `name`. -/
def Command.data (c : Command) (name : Ptr) : CommandData := ⟨some name, c.description, c.handler, c.type, c.id, c.usage⟩

/-- An alias whose strings are at `name` and `orgCmd`. -/
def Alias.data (a : Alias) (name orgCmd : Ptr) : AliasData := ⟨some name, some orgCmd, a.id, a.type⟩

namespace Registry

/-- The program before `init_commands`. -/
def start (s : Session) : Registry where
  session := s
  commandHash :=
    { items := .array .static 0 (staticCommands.mapIdx fun i c => staticItem (c.data (.static i)))
      strs := .array .static 0 (staticCommands.map fun c => cBytes c.name)
      head := none
      table := none }
  aliasTable :=
    { items := .array .static 0 (staticAliases.mapIdx fun i a => staticItem (a.data (.static (2 * i)) (.static (2 * i + 1))))
      strs := .array .static 0 (staticAliases.flatMap fun a => [cBytes a.name, cBytes a.orgCmd])
      head := none
      table := none }

/-! ## Parts -/

def onSession {α : Type} (x : UiM α) : RegistryM α := Exec.zoom session (fun s r => { r with session := s }) id .ui x

def onCommands {α : Type} (x : HashM Ptr CommandData α) : RegistryM α :=
  Exec.zoom commandHash (fun h r => { r with commandHash := h }) nofun .hash x

def onAliases {α : Type} (x : HashM Ptr AliasData α) : RegistryM α :=
  Exec.zoom aliasTable (fun h r => { r with aliasTable := h }) nofun .hash x

/-- `HASH_ITER(hh, command_hash, cmd, tmp)` -/
def iterCommands (body : Ptr → RegistryM Unit) : RegistryM Unit := do
  let h := (← Exec.get).commandHash
  hashIterFrom (fun el => onCommands do return (← deref el).next) (.hash .endless) body h.items.size h.head

/-- `HASH_ITER(hh, alias_table, current, tmp)` -/
def iterAliases (body : Ptr → RegistryM Unit) : RegistryM Unit := do
  let h := (← Exec.get).aliasTable
  hashIterFrom (fun el => onAliases do return (← deref el).next) (.hash .endless) body h.items.size h.head

/-- The string at `p`, which an item of `command_hash` points to -/
def commandText (p : Option Ptr) : RegistryM String := do return textOf (← onCommands (derefStr p))

/-- The string at `p`, which an item of `alias_table` points to -/
def aliasText (p : Option Ptr) : RegistryM String := do return textOf (← onAliases (derefStr p))

/-! ## Blocks -/

/-- `free` of a string -/
def freeStr : Option Ptr → RegistryM Unit
  | none => pure ()
  | some (.static _) => Exec.fault .badFree
  | some (.heap n) => fun r =>
    if .heap n ∈ r.aliasTable.strs then
      .ok () { r with aliasTable := { r.aliasTable with strs := r.aliasTable.strs.erase (.heap n) } }
    else .fault .badFree r

/-- `free` of a `struct sylvan_command_alias` -/
def freeItem : Ptr → RegistryM Unit
  | .static _ => Exec.fault .badFree
  | .heap n => fun r =>
    if .heap n ∈ r.aliasTable.items then
      .ok () { r with aliasTable := { r.aliasTable with items := r.aliasTable.items.erase (.heap n) } }
    else .fault .badFree r

section
variable (env : RegistryEnv)

def mallocBlock : RegistryM (Option Ptr) := do
  if ← onSession (sys (Sys.malloc env.toEnv)) then return some (.heap (env.place (← Exec.get))) else return none

/-- `strdup(text)` -/
def strdup (text : List UInt8) : RegistryM (Option Ptr) := do
  match ← mallocBlock env with
  | none => pure none
  | some p => do
    Exec.modify fun r => { r with aliasTable := { r.aliasTable with strs := r.aliasTable.strs.insert p text } }
    pure (some p)

/-- `malloc(sizeof(struct sylvan_command_alias))` -/
def newItem : RegistryM (Option Ptr) := do
  match ← mallocBlock env with
  | none => pure none
  | some p => do
    Exec.modify fun r => { r with aliasTable := { r.aliasTable with items := r.aliasTable.items.insert p (env.leftItem r) } }
    pure (some p)

/-- Writes to the alias at `p`. -/
def setAlias (p : Ptr) (f : AliasData → AliasData) : RegistryM Unit :=
  onAliases (storeItem (some p) fun c => { c with val := f c.val })

/-! ## `command_registry.c` -/

/-- `init_commands` -/
def initCommands : RegistryM Unit := do
  Exec.modify fun r => { r with commandHash := { r.commandHash with head := none } }
  Exec.modify fun r => { r with aliasTable := { r.aliasTable with head := none } }
  Exec.each (List.range staticCommands.length) fun i => do
    let r ← Exec.get
    onCommands (hashAddStr (env.grants r) CommandData.name (.static i))
  Exec.each (List.range staticAliases.length) fun i => do
    let r ← Exec.get
    onAliases (hashAddStr (env.grants r) AliasData.name (.static i))

/-- The part of `lookup_command` that looks for an alias -/
def resolveAlias (commandName : List UInt8) : RegistryM (List UInt8) := do
  match ← onAliases (hashFindStr commandName) with
  | none => pure commandName
  | some p => onAliases do derefStr (← deref (some p)).val.orgCmd

/-- `lookup_command` -/
def lookupCommand (commandName : List UInt8) : RegistryM (Option Ptr) := do
  onCommands (hashFindStr (← resolveAlias commandName))

/-- The part of `insert_alias` behind the allocation of `cmd_al` -/
def fillAlias (p : Ptr) (name orgCmd : String) (id : Int) (type : Char) : RegistryM Bool := do
  let nameCopied ← strdup env (cBytes name)
  setAlias p fun a => { a with name := nameCopied }
  let orgCmdCopied ← strdup env (cBytes orgCmd)
  setAlias p fun a => { a with orgCmd := orgCmdCopied }
  if nameCopied = none ∨ orgCmdCopied = none then do
    -- `cmd_al` itself is not freed
    freeStr nameCopied
    freeStr orgCmdCopied
    onSession (printStderr "Error: Failed to allocate memory for alias strings\n" [])
    pure false
  else do
    setAlias p fun a => { a with id }
    setAlias p fun a => { a with type }
    let r ← Exec.get
    onAliases (hashAddStr (env.grants r) AliasData.name p)
    let c ← onAliases (deref (some p))
    let name ← aliasText c.val.name
    let orgCmd ← aliasText c.val.orgCmd
    onSession (printf "Added alias: %s -> %s (type: %c, id: %d)\n" [.str name, .str orgCmd, .char c.val.type, .int c.val.id])
    pure true

/-- `insert_alias`, where `none` is `NULL`: whether it returns 0 -/
def insertAlias (name orgCmd : Option String) (id : Int) (type : Char) : RegistryM Bool := do
  match name, orgCmd with
  | some name, some orgCmd => do
    if (← onAliases (hashFindStr (cBytes name))).isSome then do
      onSession (printStderr "Error: Alias '%s' already exists\n" [.str name])
      pure false
    else if (← lookupCommand (cBytes orgCmd)).isNone then do
      onSession (printStderr "Invalid command: %s not found\n" [.str orgCmd])
      pure false
    else match ← newItem env with
      | none => do
        onSession (printStderr "Error: Failed to allocate memory for alias\n" [])
        pure false
      | some p => fillAlias env p name orgCmd id type
  | _, _ => pure false

/-- A turn of the loop of `free_alias_table` -/
def freeAlias (current : Ptr) : RegistryM Unit := do
  let c ← onAliases (deref (some current))
  Exec.when (c.val.type = 'u') do
    onAliases (hashDel current)
    let c ← onAliases (deref (some current))
    freeStr c.val.name
    freeStr c.val.orgCmd
    freeItem current

/-- `free_alias_table` -/
def freeAliasTable : RegistryM Unit := do
  iterAliases freeAlias
  Exec.modify fun r => { r with aliasTable := { r.aliasTable with head := none } }

/-! ## Handlers that go through the tables -/

/-- A turn of the loop over the commands of a type -/
def printCommand (tp : CommandType) (cmd : Ptr) : RegistryM Unit := do
  let c ← onCommands (deref (some cmd))
  Exec.when (c.val.type = tp) do
    let name ← commandText c.val.name
    onSession do
      printf "  %s\n" [.str name]
      printf "    Description: %s\n" [.str c.val.description]
      printf "    Usage: %s\n" [.str c.val.usage]
      printf "\n" []

def printCommandsOf (title : String) (tp : CommandType) : RegistryM Unit := do
  onSession (printf title [])
  iterCommands (printCommand tp)

def printCommands (tp : CommandType) (printAll : Bool) : RegistryM Unit := do
  Exec.when (tp = .standard ∨ printAll) (printCommandsOf "Commands:\n" .standard)
  Exec.when (tp = .info ∨ printAll) (printCommandsOf "Info Commands:\n" .info)
  Exec.when (tp = .set ∨ printAll) (printCommandsOf "Set Commands:\n" .set)

def handleHelp (command : Argv) : RegistryM Unit :=
  printCommands .standard ((command.arg 1).any fun c => c.text = "-a" || c.text = "--all")

def handleInfo (command : Argv) : RegistryM Unit := do
  if (command.arg 1).isSome then onSession invalidArguments else printCommands .info false

def handleSet (command : Argv) : RegistryM Unit := do
  if (command.arg 1).isSome then onSession invalidArguments else printCommands .set false

/-- A turn of the loop of `handle_info_alias` -/
def printAlias (cmdAlias : Ptr) : RegistryM Unit := do
  let c ← onAliases (deref (some cmdAlias))
  let name ← aliasText c.val.name
  let orgCmd ← aliasText c.val.orgCmd
  onSession (printf "%-20s %-8s\n" [.str name, .str orgCmd])

def handleInfoAlias (command : Argv) : RegistryM Unit := do
  onSession do
    Exec.when (command.arg 1).isSome invalidArguments
    printf "Command Name         Alias   \n" []
    printf "-------------------- -------\n" []
  iterAliases printAlias

def handleSetAlias (command : Argv) : RegistryM Unit := do
  match command.arg 1, command.arg 2 with
  | some _, some name => do
    let aliasId := ((← onAliases hashCount) + 1).toInt
    let orgCmd := (command.arg 3).map CStr.text
    if ← insertAlias env (some name.text) orgCmd aliasId 'u' then
      onSession (printOk "Alias added successfully: '%s' -> '%s'" [.str name.text, orgCmd.elim .null .str])
    else onSession (reject [.error "Failed to add alias" []])
  | _, _ => onSession (reject [.error "Invalid arguments" []])

/-! ## Dispatch -/

/-- The other handlers do not look at the tables. -/
def handlerBody (handler : Handler) (command : Argv) : RegistryM Unit :=
  match handler with
  | .help => handleHelp command
  | .info => handleInfo command
  | .set => handleSet command
  | .infoAlias => handleInfoAlias command
  | .setAlias => handleSetAlias env command
  | handler => onSession (handler.body env.toUiEnv command)

/-- A call of a handler, and the `int` that it returns -/
def callHandler (handler : Handler) (command : Argv) : RegistryM Int :=
  Exec.catching (do handlerBody env handler command; pure 0) fun n => pure n

/-- `handle_command` -/
def handleCommand (command : Argv) : RegistryM Int := do
  match command.arg 0 with
  | none => onSession do
    printStderr "Error: Invalid command\n" []
    pure 0
  | some name =>
    match ← lookupCommand (cBytes name.text) with
    | some cmd => do
      let c ← onCommands (deref (some cmd))
      callHandler env c.val.handler command
    | none => onSession do
      printf "Unknown command: %s\n" [.str name.text]
      printf "Type 'help' for available commands\n" []
      pure 0

/-- A turn of the loop of `interface_loop`, which goes on while the result is `0` -/
def interfaceTurn : RegistryM Int := do
  match ← onSession (getCommand env.toUiEnv) with
  | none => pure 0
  | some line =>
    match line.arg 0 with
    | none => pure 0
    | some name => if name.char 0 = '\x00' then pure 0 else handleCommand env line

/-- `interface_loop` up to the `n`-th turn, or up to `free_alias_table` if a command ends the loop before. It says whether
    one did. -/
def interfaceLoop (n : Nat) : RegistryM Bool := do
  initCommands env
  let left ← Exec.turns (interfaceTurn env) n
  Exec.when (left = true) freeAliasTable
  pure left

end

end Registry

end Sylvan
