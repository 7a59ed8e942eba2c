import Sylvan.Ui.Auxv
import Sylvan.Ui.Disassemble
import Sylvan.Ui.Registry

/-! # The commands (`src/command_handler.c`, `src/register.c`)

A handler that does not return early returns 0. -/

namespace Sylvan

/-! ## Commands on the registry -/

/-- The commands of a type, under a title -/
def printCommandsOf (title : String) (tp : CommandType) : UiM Unit := do
  printf title []
  Exec.each (staticCommands.filter fun cmd => cmd.type = tp) fun cmd => do
    printf "  %s\n" [.str cmd.name]
    printf "    Description: %s\n" [.str cmd.description]
    printf "    Usage: %s\n" [.str cmd.usage]
    printf "\n" []

def printCommands (tp : CommandType) (printAll : Bool) : UiM Unit := do
  Exec.when (tp = .standard ∨ printAll) (printCommandsOf "Commands:\n" .standard)
  Exec.when (tp = .info ∨ printAll) (printCommandsOf "Info Commands:\n" .info)
  Exec.when (tp = .set ∨ printAll) (printCommandsOf "Set Commands:\n" .set)

def handleHelp (command : Argv) : UiM Unit :=
  printCommands .standard ((command.arg 1).any fun c => c.text = "-a" || c.text = "--all")

def handleExit (_command : Argv) : UiM Unit := do
  printf "Exiting Debugger\n" []
  leave 1

def handleInfo (command : Argv) : UiM Unit := do
  if (command.arg 1).isSome then invalidArguments else printCommands .info false

def handleSet (command : Argv) : UiM Unit := do
  if (command.arg 1).isSome then invalidArguments else printCommands .set false

def handleInfoAlias (command : Argv) : UiM Unit := do
  Exec.when (command.arg 1).isSome invalidArguments
  printf "Command Name         Alias   \n" []
  printf "-------------------- -------\n" []
  Exec.each (← Exec.get).aliases fun a => printf "%-20s %-8s\n" [.str a.name, .str a.orgCmd]

/-! ## Registers -/

/-- `sylvan_registers_info`: the name of a register and the field at its offset -/
def registersInfo : List (String × Reg) :=
  [("rax", .rax), ("rdx", .rdx), ("rcx", .rcx), ("rbx", .rbx), ("rsi", .rsi), ("rdi", .rdi), ("rbp", .rbp), ("rsp", .rsp),
    ("r8", .r8), ("r9", .r9), ("r10", .r10), ("r11", .r11), ("r12", .r12), ("r13", .r13), ("r14", .r14), ("r15", .r15),
    ("rip", .rip), ("eflags", .eflags), ("cs", .cs), ("fs", .fs), ("gs", .gs), ("ss", .ss), ("ds", .ds), ("es", .es),
    ("orig_rax", .origRax)]

/-- `find_register_by_name` -/
def findRegisterByName (name : String) : Option (String × Reg) := registersInfo.find? fun r => r.1 = name

section
variable (env : UiEnv)

/-- A table of which each row takes `n` allocations that are not checked -/
def printAllocated (n : Nat) (title : String) (rows : List (List Arg)) : UiM Unit := do
  Exec.each rows fun _ => Exec.each (List.range n) fun _ => allocate env
  printTable title rows

def printRegisters (regs : UserRegs) : UiM Unit :=
  printAllocated env 2 "CPU REGISTER MONITOR" (registersInfo.map fun r => [.str r.1, .word (regs r.2)])

/-- `malloc` of a `struct user_regs_struct` and `sylvan_get_regs` into it -/
def readRegs : SylvanM UserRegs := do
  if ← Sys.malloc env.toEnv then Sylvan.getRegs env.toEnv else setCode .invalidArgument

def handleInfoRegisters (command : Argv) : UiM Unit := do
  Exec.when (command.arg 1).isSome invalidArguments
  printRegisters env (← orLastError (readRegs env))

def handleSetReg (command : Argv) : UiM Unit := do
  match command.arg 1, command.arg 2 with
  | some name, some value => do
    Exec.when (command.arg 4).isSome invalidArguments
    match findRegisterByName name.text with
    | none => reject [.error "register not found" []]
    | some (name, reg) => do
      Exec.when (value.char 1 ≠ 'x' ∧ value.char 0 ≠ '0')
        (reject [.error "Invalid data" [], .instruction "set_reg rax 0x40"])
      let r ← converted (Numeral.strtol 16 (value.from 2))
      Exec.when (r.range ∨ ¬r.atEnd)
        (reject [.error "Invalid value: %s" [.str value.text], .instruction "\tset_reg <reg> <value>"])
      let regs ← orLastError (readRegs env)
      orLastError (Sylvan.setRegs env.toEnv (Function.update regs reg (asAddr r.value)))
      printOk "%s to %#lx\n" [.str name, .word (asAddr r.value)]
  | _, _ => reject [.error "No name or value given" [], .instruction "\tset_reg <register name> <value>"]

/-! ## The inferior -/

def handleContinue (_command : Argv) : UiM Unit := orLastError (Sylvan.cont env.toEnv)

def handleRun (command : Argv) : UiM Unit := do
  Exec.when (command.arg 1).isSome invalidArguments
  orLastError (Sylvan.run env.toEnv)

def handleStepInst (command : Argv) : UiM Unit := do
  Exec.when (command.arg 1).isSome invalidArguments
  orLastError (Sylvan.stepinst env.toEnv)
  printOk "Single Instruction executed" []

/-- `sylvan_inferior_destroy(*inf)` and `sylvan_inferior_create(inf)`, which makes `*inf` another object. -/
def renewInferior : UiM Unit := do
  orLastError (inferiorDestroy env.toEnv)
  orLastError (inferiorCreate env.toEnv)
  Exec.modify fun s => { s with state := { s.state with freed := false } }

def handleAddInferior (command : Argv) : UiM Unit := do
  Exec.when (command.arg 1).isSome invalidArguments
  renewInferior env
  printOk "Created New Inferior: ID: %d" [.int (← inferior).id]

def handleFile (command : Argv) : UiM Unit := do
  match command.arg 1 with
  | none => reject [.error "No filename provided" []]
  | some filepath => do
    Exec.when (command.arg 2).isSome invalidArguments
    Exec.when ((← inferior).pid ≠ 0) (renewInferior env)
    orLastError (Sylvan.setFilepath env.toEnv (some filepath.text))
    printOk "File %s assigned to inferior id: %d" [.str filepath.text, .int (← inferior).id]

def handleAttach (command : Argv) : UiM Unit := do
  match command.arg 1 with
  | none => reject [.error "Invalid Arguments" [], .instruction "\tattach <pid>"]
  | some text => do
    Exec.when (command.arg 2).isSome invalidArguments
    let r ← converted (Numeral.strtol 10 (text.from 0))
    Exec.when (r.range ∨ r.value ≤ 0 ∨ ¬r.atEnd)
      (reject [.error "Invalid PID: %s" [.str text.text], .instruction "\tattach <pid>"])
    Exec.when ((← inferior).pid ≠ 0) (renewInferior env)
    orLastError (Sylvan.attach env.toEnv (asInt r.value))
    printOk "Process PID: %ld to inferior id: %d" [.int r.value, .int (← inferior).id]

def handleSetArgs (command : Argv) : UiM Unit := do
  if ← sys (Sys.malloc env.toEnv) then do
    orLastError (Sylvan.setArgs env.toEnv (some (String.intercalate " " command.texts)))
    printOk "Added arguments to inferior: %d\n" [.int (← inferior).id]
  else reject [.error "Memory allocation failed" []]

def handleInfoArgs (command : Argv) : UiM Unit := do
  Exec.when (command.arg 1).isSome invalidArguments
  printf "Arguments: %s\n" [(← inferior).args.elim .null .str]

def handleInfoInferiors (command : Argv) : UiM Unit := do
  Exec.when (command.arg 1).isSome invalidArguments
  let inf ← inferior
  printf "Id: %d\n" [.int inf.id]
  printf "\tPID: %d\n" [.int inf.pid]
  printf "\tPath: %s\n" [pathArg inf.realpath]
  printf "\tIs Attached: %d\n" [.int (if inf.isAttached then 1 else 0)]
  printf "\tNum Breakpoints: %d\n" [.int inf.breakpointCount]

def handleInfoAuxv (command : Argv) : UiM Unit := do
  Exec.when (command.arg 1).isSome invalidArguments
  let pid := (← inferior).pid
  Exec.when (pid = 0) (reject [.error "Invalid PID" []])
  match ← targetReadAuxv env with
  | none => pure ()
  | some (rawAuxv, len) => do
    match ← parseAuxv env rawAuxv len true with
    | none => reject [.error "Failed to parse auxv" []]
    | some entries => do
      printf "Auxiliary Vector for PID %d:\n" [.int pid]
      printf "Type  Value                 Name                Description\n" []
      printf "----  --------------------  --------            -----------\n" []
      Exec.each (entries.takeWhile fun entry => entry.type ≠ AT_NULL) printAuxvEntry

def handleSetAlias (command : Argv) : UiM Unit := do
  match command.arg 1, command.arg 2 with
  | some _, some name => do
    let aliasId : Int := (← Exec.get).aliases.length + 1
    let orgCmd := (command.arg 3).map CStr.text
    if ← insertAlias env (some name.text) orgCmd aliasId 'u' then
      printOk "Alias added successfully: '%s' -> '%s'" [.str name.text, orgCmd.elim .null .str]
    else reject [.error "Failed to add alias" []]
  | _, _ => reject [.error "Invalid arguments" []]

/-! ## Addresses and numbers -/

/-- The address at `mem`. If there is none, the command is over with `outputs`. -/
def parseAddr (mem : List Char) (outputs : List Output) : UiM Addr := do
  let r ← converted (Numeral.strtol 16 mem)
  if r.range ∨ asAddr r.value = 0 ∨ ¬r.atEnd then reject outputs else pure (asAddr r.value)

/-- The index of the breakpoint that `text` denotes. If there is none, the command is over. -/
def parseId (text : CStr) (tooLarge : String) : UiM Nat := do
  let r ← converted (Numeral.strtol 10 (text.from 0))
  let id := asInt r.value
  Exec.when (r.range ∨ id < 0 ∨ ¬r.atEnd) (reject [.error "Invalid id" []])
  Exec.when ((← inferior).breakpointCount < id) (reject [.error tooLarge []])
  sys (slotIndex id)

/-! ## Breakpoints -/

/-- The rows of `handle_info_breakpoints` -/
def breakpointRows (inf : Inferior) : List (List Arg) :=
  (List.range inf.count).map fun i : Nat =>
    [.int i, .str "software", .word (inf.slot i).addr, .int (if (inf.slot i).isEnabledLog then 1 else 0)]

def handleInfoBreakpoints (command : Argv) : UiM Unit := do
  Exec.when (command.arg 1).isSome invalidArguments
  let inf ← inferior
  Exec.when (maxBreakpoints < inf.count) (Exec.fault .outOfBounds)
  printAllocated env 2 "BREAKPOINTS" (breakpointRows inf)

/-- The part of `handle_breakpoint_set` for an address -/
def setAt (addr : Addr) : UiM Unit := do
  orLastError (breakpointSet env.toEnv addr)
  printOk "breakpoint set at: %#lx" [.word addr]

def handleBreakpointSet (command : Argv) : UiM Unit := do
  match command.arg 1 with
  | none => reject [.error "address missing" [], .instruction "\tbreakpoint <address>"]
  | some text => do
    Exec.when (command.arg 2).isSome invalidArguments
    let r ← converted (Numeral.strtol 16 (text.from 2))
    let addr := if r.range ∨ ¬r.atEnd then 0 else asAddr r.value
    if text.char 0 ≠ '0' then do
      orLastError (setBreakpointFunction env.toEnv text.text)
      printOk "breakpoint set at: %s" [.str text.text]
    else setAt env addr

/-- `sylvan_breakpoint_disable` or `sylvan_breakpoint_enable` -/
def toggle (isDisable : Bool) (addr : Addr) : SylvanM Unit :=
  if isDisable then breakpointDisable env.toEnv addr else breakpointEnable env.toEnv addr

def toggled (isDisable : Bool) (addr : Addr) : UiM Unit :=
  printOk "breakpoint at addr 0x%lx  %s" [.word addr, .str (if isDisable then "disabled" else "enabled")]

def toggleAt (isDisable : Bool) (addr : Addr) : UiM Unit := do
  orLastError (toggle env isDisable addr)
  toggled isDisable addr

def toggleId (isDisable : Bool) (id : Nat) : UiM Unit := do
  orLastError (toggle env isDisable ((← inferior).slot id).addr)
  toggled isDisable ((← inferior).slot id).addr

/-- What `toggle_breakpoint` and `handle_delete_breakpoint` do with their texts: with `-a`, one denotes an address, and
    else a number. -/
def withTarget (usage : List Output) (tooLarge invalid : String) (byId : Nat → UiM Unit) (byAddr : Addr → UiM Unit)
    (command : Argv) : UiM Unit := do
  match command.arg 1 with
  | none => reject usage
  | some text =>
    if text.text ≠ "-a" then do byId (← parseId text tooLarge)
    else match command.arg 2 with
      | none => reject usage
      | some text => do byAddr (← parseAddr (text.from 2) [.error invalid []])

def toggleUsage : List Output :=
  [.error "Invalid Arguments" [], .instruction "\tdisable <id>\n\tdisable -a <address>"]

def toggleBreakpoint (command : Argv) (isDisable : Bool) : UiM Unit :=
  withTarget toggleUsage "Invalid id use: info breakpoint" "Invalid address" (toggleId env isDisable) (toggleAt env isDisable)
    command

def handleDisableBreakpoint (command : Argv) : UiM Unit := toggleBreakpoint env command true

def handleEnableBreakpoint (command : Argv) : UiM Unit := toggleBreakpoint env command false

def deleted (addr : Addr) : UiM Unit := printOk "breakpoint at addr 0x%lx  is deleted" [.word addr]

def deleteAt (addr : Addr) : UiM Unit := do
  orLastError (breakpointUnset env.toEnv addr)
  deleted addr

def deleteId (id : Nat) : UiM Unit := do
  orLastError (breakpointUnset env.toEnv ((← inferior).slot id).addr)
  deleted ((← inferior).slot id).addr

def deleteUsage : List Output :=
  [.error "Invalid Arguments" [], .instruction "\tdelete <id>\n\tdelete -a <address>"]

def handleDeleteBreakpoint (command : Argv) : UiM Unit :=
  withTarget deleteUsage "Invalid id use: info_breakpoint" "Invalid Address" (deleteId env) (deleteAt env) command

/-! ## Memory -/

/-- The bytes of a word from the highest on, by `%02x` -/
def wordText (w : Word) : String :=
  String.intercalate " " ((List.range 8).reverse.map fun j => String.ofList (hexDigits ((w >>> (8 * j)).setWidth 8)))

def printMemoryTable (data : List Word) (addr : Addr) : UiM Unit :=
  printAllocated env 3 "" (data.mapIdx fun i w => [.word (addr + BitVec.ofNat 64 (8 * i)), .str (wordText w)])

/-- `num_rows` -/
def parseRows : Option CStr → UiM Nat
  | none => pure 1
  | some text => do
    let r ← converted (Numeral.strtol 10 (text.from 0))
    let numRows := asInt r.value
    Exec.when (r.range ∨ numRows ≤ 0 ∨ ¬r.atEnd) (reject [.error "Invalid lines number" []])
    if 16 < numRows then do
      printf "Limiting the lines to 16\n" []
      pure 16
    else pure numRows.toNat

/-- The loop of `handle_read_memory` over the words from `addr` on, into `data`, if there is memory for it -/
def readWords (pTable data : Bool) : Nat → Addr → UiM (List Word)
  | 0, _ => pure []
  | n + 1, addr => do
    match ← lib (getMemory env.toEnv addr) with
    | .error _ => do
      let message := (← Exec.get).state.scratch.lastError.message
      reject [.error "Error at 0x%016lx: %s" [.word addr, .str message]]
    | .ok word => do
      Exec.when (data = false) (Exec.fault .nullDereference)
      Exec.when (pTable = false) (printf "0x%016lx:     0x%016lx\n" [.word addr, .word word])
      let words ← readWords pTable data n (addr + 8)
      pure (word :: words)

/-- The part of `handle_read_memory` for an address -/
def readAt (pTable : Bool) (numRows : Nat) (addr : Addr) : UiM Unit := do
  let data ← sys (Sys.malloc env.toEnv)
  let words ← readWords env pTable data numRows addr
  Exec.when pTable (printMemoryTable env words addr)

def handleReadMemory (command : Argv) : UiM Unit := do
  let pTable := (command.arg 1).any fun c => c.startsWith "-t"
  let addrStr := if pTable then command.arg 2 else command.arg 1
  let rowStr := if pTable then command.arg 3 else command.arg 2
  match addrStr with
  | none => reject [.error "Invalid: No address provided" []]
  | some text => do
    let numRows ← parseRows rowStr
    Exec.when (text.text = "0x") (reject [.error "Invalid Address" [], .instruction "Ex: memory_read 0x1234"])
    readAt env pTable numRows (← parseAddr (text.from 2) [.error "Invalid address: %s" [.str text.text]])

/-- `uint8_t bytes[256]` -/
def bytesSize : Nat := 256

def valueHint : Output :=
  .stdout "\t<value>: hex (e.g., 0x12, ff), decimal (e.g., 255), or string (e.g., \"hello\" without space in betwen)\n" []

/-- The loop over the characters of a string in quotes, after the bytes `bytes` -/
def quotedBytes : List Char → List Byte → UiM (List Byte)
  | [], _ => reject [.error "Enter valid values" [], valueHint]
  | c :: cs, bytes =>
    if c = '"' then pure bytes
    else do
      Exec.when (bytesSize ≤ bytes.length) (Exec.fault .outOfBounds)
      quotedBytes cs (bytes ++ [BitVec.ofNat 8 c.toNat])

/-- The value tokens that are left, after the bytes `bytes` -/
def collectBytes : List CStr → List Byte → UiM (List Byte)
  | [], bytes => pure bytes
  | arg :: args, bytes =>
    if bytesSize ≤ bytes.length then pure bytes
    else if arg.char 0 = '"' then do
      -- `strlen(arg) - 2` wraps for a single quote
      let len : BitVec 64 := BitVec.ofNat 64 arg.text.length - 2
      Exec.when (256 < BitVec.ofNat 64 bytes.length + len) (reject [.error "Too many bytes (max 256)" []])
      let bytes ← quotedBytes arg.text.toList.tail bytes
      collectBytes args bytes
    else do
      let isHex := arg.char 0 = '0' ∧ arg.char 1 = 'x'
      let r ← converted (Numeral.strtoul (if isHex then 16 else 10) (arg.from (if isHex then 2 else 0)))
      Exec.when (r.range ∨ 0xFF < r.value ∨ ¬r.atEnd)
        (reject [.error "Invalid value: %s" [.str (String.ofList (arg.text.toList.drop (if isHex then 2 else 0)))]])
      collectBytes args (bytes ++ [BitVec.ofInt 8 r.value])

/-- The part of `handle_write_memory` for an address -/
def writeAt (args : List CStr) (addr : Addr) : UiM Unit := do
  let bytes ← collectBytes args []
  orLastError (Sylvan.setMemory env.toEnv addr bytes)
  printOk "Wrote at address %#lx" [.word addr]

def writeUsage : List Output :=
  [.error "Enter Valid Address" [], .instruction "\tmemory_write <addr(in hex eg: 0xabcd)> <bytes> ...", valueHint]

def handleWriteMemory (command : Argv) : UiM Unit := do
  match command.arg 1 with
  | none => reject writeUsage
  | some text =>
    match command.arg 2 with
    | none => reject writeUsage
    | some value => do
      Exec.when (text.text = "0x") (reject writeUsage)
      let addr ← parseAddr (text.from 2) [.error "Invalid address: %s" [.str value.text]]
      writeAt env (command.tokens.drop 2) addr

/-! ## Disassembly -/

/-- `end_addr` -/
def parseEnd (text : CStr) (startAddr : Addr) : UiM Addr := do
  let r ← converted (Numeral.strtol 16 (text.from 0))
  if r.range ∨ asAddr r.value ≤ startAddr ∨ ¬r.atEnd then reject [.error "Invalid end address: %s" [.str text.text]]
  else pure (asAddr r.value)

/-- The part of `handle_disassemble` for a range -/
def disassembleAt (startAddr endAddr : Addr) : UiM Unit := do
  match ← disassemble env startAddr endAddr with
  | none => pure ()
  | some (instructions, count) => printDisassembly env instructions count

/-- The range that the command's texts name -/
def parseRange (first : CStr) (second : Option CStr) (rip : Addr) : UiM (Addr × Addr) := do
  match second with
  | none => pure (rip, rip + 15)
  | some second => do
    let startAddr ← parseAddr (first.from 0) [.error "Invalid start address: %s" [.str first.text]]
    let endAddr ← parseEnd second startAddr
    pure (startAddr, endAddr)

/-- The start of the function `name`, in the inferior's file -/
def functionStart (name : String) : UiM Addr := do
  match ← getFunctionBounds env (← inferior).realpath name with
  | none => leave 0
  | some (startAddr, _) => pure startAddr

def handleDisassemble (command : Argv) : UiM Unit := do
  match command.arg 1 with
  | none =>
    reject [.error "Enter Valid start Address" [],
      .instruction "\tdissassemble <addr> <endaddr>\n\tdisassemble <function>\n\tdisassemble -c"]
  | some first =>
    if first.text = "-c" then do
      let regs ← orLastError (readRegs env)
      let (startAddr, endAddr) ← parseRange first (command.arg 2) (regs .rip)
      disassembleAt env startAddr endAddr
    else do
      let _ ← parseRange first (command.arg 2) 0
      let startAddr ← functionStart env first.text
      disassembleAt env startAddr startAddr

/-! ## Dispatch -/

def Handler.body : Handler → Argv → UiM Unit
  | help => handleHelp
  | exit => handleExit
  | «continue» => handleContinue env
  | breakpointSet => handleBreakpointSet env
  | info => handleInfo
  | addInferior => handleAddInferior env
  | disassemble => handleDisassemble env
  | run => handleRun env
  | stepInst => handleStepInst env
  | file => handleFile env
  | attach => handleAttach env
  | set => handleSet
  | disableBreakpoint => handleDisableBreakpoint env
  | enableBreakpoint => handleEnableBreakpoint env
  | deleteBreakpoint => handleDeleteBreakpoint env
  | readMemory => handleReadMemory env
  | writeMemory => handleWriteMemory env
  | infoRegisters => handleInfoRegisters env
  | infoArgs => handleInfoArgs
  | infoAuxv => handleInfoAuxv env
  | infoBreakpoints => handleInfoBreakpoints env
  | infoInferiors => handleInfoInferiors
  | infoAlias => handleInfoAlias
  | setArgs => handleSetArgs env
  | setReg => handleSetReg env
  | setAlias => handleSetAlias env

/-- A call of a handler, and the `int` that it returns -/
def Handler.call (h : Handler) (command : Argv) : UiM Int :=
  Exec.catching (do h.body env command; pure 0) fun n => pure n

end

end Sylvan
