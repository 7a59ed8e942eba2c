import Sylvan.Lib.Blocks
import Sylvan.Lib.Refine
import Sylvan.Op

/-! # The inferior in memory (`lib/sylvan/inferior.c`, `lib/sylvan/symbol.c`, `lib/sylvan/utils.c`)

What the library allocates and frees: the inferior itself, its path and its arguments, the arrays of its two symbol tables and
the names in them, and the strings that a search for a path needs for a while. `Library` has the inferior's pointers and the heap
they point into; the path, the arguments and the tables of `state.inf` are not looked at. A call that neither allocates nor frees
is run on what is read through the pointers (`reading`).

A child that `fork` made has a copy of the heap, and is left out, as is what libelf and libdwarf allocate. -/

namespace Sylvan

/-- An element of an array of `struct symbol` -/
structure SymbolCell where
  name : Option Nat
  addr : Addr
  deriving DecidableEq, Repr

/-- A block that `malloc` gave. -/
inductive HeapBlock where
  | text (s : String)
  /-- An array of `struct symbol`, and which of its elements were written. -/
  | symbols (cells : List (Option SymbolCell))
  | inferior
  deriving DecidableEq, Repr

/-- `struct sylvan_sym_table` -/
structure SymTablePtrs where
  symbols : Option Nat
  count : Nat
  capacity : Nat
  deriving DecidableEq, Repr

/-- The pointer to the inferior, and its own. -/
structure InferiorPtrs where
  self : Option Nat
  realpath : Option Nat
  args : Option Nat
  elfTable : SymTablePtrs
  dwarfTable : SymTablePtrs
  deriving DecidableEq, Repr

namespace InferiorPtrs

def table (ptrs : InferiorPtrs) : TableId → SymTablePtrs
  | .elf => ptrs.elfTable
  | .dwarf => ptrs.dwarfTable

def setTable (ptrs : InferiorPtrs) (id : TableId) (table : SymTablePtrs) : InferiorPtrs :=
  match id with
  | .elf => { ptrs with elfTable := table }
  | .dwarf => { ptrs with dwarfTable := table }

/-- The pointers of an inferior of zeros. -/
def zeroed (self : Option Nat) : InferiorPtrs := ⟨self, none, none, ⟨none, 0, 0⟩, ⟨none, 0, 0⟩⟩

end InferiorPtrs

structure Library where
  state : State
  ptrs : InferiorPtrs
  heap : Heap Nat HeapBlock

/-- What the library sees of the system besides. -/
structure LibraryEnv extends Env where
  /-- The next block that `malloc` gives. -/
  place : Library → Nat
  /-- Where `qsort` takes each element from. -/
  order : Nat → List Symbol → List Nat

inductive LibraryFault where
  | lib (f : Fault)
  | memory (f : Heap.Misuse)
  /-- A read of what was not written, or of a block of another kind. -/
  | garbage
  deriving DecidableEq, Repr

abbrev LibraryM (α : Type) := Exec Library Code LibraryFault α

/-- The part of `sylvan_attach` up to `PTRACE_ATTACH` -/
def attachRequest (env : Env) (pid : Pid) : SylvanM Unit := do
  handled (Sys.kill env pid 0) fun e =>
    if e = ESRCH then setMessage .procNotFound s!"Process {pid} does not exist"
    else setErrnoMsg env .systemError "Check process existence"
  terminateOrDetach env
  handled (Sys.ptraceAttach env pid) fun e =>
    if e = EPERM then setMessage .ptraceAttachFailed s!"Permission denied to attach to process {pid}"
    else if e = ESRCH then setMessage .procNotFound s!"Process {pid} does not exist"
    else setErrnoMsg env .ptraceAttachFailed "ptrace attach"

namespace Library

/-! ## What the pointers stand for -/

/-- The string at `p` -/
def text? (h : Heap Nat HeapBlock) : Option Nat → Option (Option String)
  | none => some none
  | some p =>
    match h.lookup p with
    | some (.text s) => some (some s)
    | _ => none

def symbol? (h : Heap Nat HeapBlock) : Option SymbolCell → Option Symbol
  | none => none
  | some cell => (text? h cell.name).map fun name => ⟨name, cell.addr⟩

/-- The table whose first `count` symbols are at `symbols` -/
def table? (h : Heap Nat HeapBlock) (table : SymTablePtrs) : Option SymTable :=
  match table.symbols with
  | none => if table.count = 0 then some ⟨[], table.capacity, 0⟩ else none
  | some p =>
    match h.lookup p with
    | some (.symbols cells) =>
      ((cells.take table.count).mapM (symbol? h)).map fun symbols => ⟨symbols, table.capacity, cells.length⟩
    | _ => none

/-- The state, with what the pointers of the inferior stand for. -/
def view (m : Library) : Option State := do
  let self ← m.ptrs.self
  guard (m.heap.lookup self = some .inferior)
  let realpath ← text? m.heap m.ptrs.realpath
  let args ← text? m.heap m.ptrs.args
  let elfTable ← table? m.heap m.ptrs.elfTable
  let dwarfTable ← table? m.heap m.ptrs.dwarfTable
  return m.state.setInf { m.state.inf with realpath, args, elfTable, dwarfTable }

/-- A call that neither allocates nor frees. It may read all of the inferior. -/
def reading {α : Type} (x : SylvanM α) : LibraryM α := fun m =>
  match m.view with
  | none => .fault (.memory .dangling) m
  | some s =>
    match x s with
    | .ok a t => .ok a { m with state := t }
    | .error e t => .error e { m with state := t }
    | .fault f t => .fault (.lib f) { m with state := t }

/-- A call that does not look at the inferior. -/
def onState {α : Type} (x : SylvanM α) : LibraryM α := Exec.zoom state (fun s m => { m with state := s }) id .lib x

def onHeap {α : Type} (x : Exec (Heap Nat HeapBlock) Code Heap.Misuse α) : LibraryM α :=
  Exec.zoom heap (fun h m => { m with heap := h }) id .memory x

def free (p : Option Nat) : LibraryM Unit := onHeap (Heap.free p)

def setPtrs (g : InferiorPtrs → InferiorPtrs) : LibraryM Unit := Exec.modify fun m => { m with ptrs := g m.ptrs }

section
variable (env : LibraryEnv)

/-- A block, where there is memory for it. -/
def newBlock (b : HeapBlock) : LibraryM Nat := do
  let p := env.place (← Exec.get)
  onHeap (Heap.place p b)
  pure p

/-- `malloc` and `strdup`, with what is put in the block at once -/
def malloc (b : HeapBlock) : LibraryM (Option Nat) := do
  if ← onState (Sys.malloc env.toEnv) then return some (← newBlock env b) else return none

/-! ## Symbol tables -/

/-- The array at `p` -/
def loadCells (p : Nat) : LibraryM (List (Option SymbolCell)) := do
  match ← onHeap (Heap.load p) with
  | .symbols cells => pure cells
  | _ => Exec.fault .garbage

/-- `realloc` of an array of symbols -/
def reallocCells (symbols : Option Nat) (capacity : Nat) : LibraryM (Option Nat) := do
  if ← onState (Sys.malloc env.toEnv) then
    match symbols with
    | none => return some (← newBlock env (.symbols (List.replicate capacity none)))
    | some p => do
      let cells ← loadCells p
      onHeap (Heap.release p)
      return some (← newBlock env (.symbols (cells.take capacity ++ List.replicate (capacity - cells.length) none)))
  else return none

def symTableInit (id : TableId) : LibraryM Unit := do
  match ← malloc env (.symbols (List.replicate 256 none)) with
  | some p => setPtrs fun ptrs => ptrs.setTable id ⟨some p, 0, 256⟩
  | none => do
    setPtrs fun ptrs => ptrs.setTable id ⟨none, 0, 256⟩
    reading (setCode .outOfMemory)

def symInit : LibraryM Unit := do
  symTableInit env .elf
  symTableInit env .dwarf

/-- `symbols[i]` -/
def cellAt (symbols : Option Nat) (i : Nat) : LibraryM SymbolCell := do
  match symbols with
  | none => Exec.fault (.lib .nullDereference)
  | some p =>
    match (← loadCells p)[i]? with
    | none => Exec.fault (.lib .outOfBounds)
    | some none => Exec.fault .garbage
    | some (some cell) => pure cell

/-- `count` is an `int` here: from `2 ^ 31` symbols on it is negative, and no name is freed. -/
def symTableDestroy (id : TableId) : LibraryM Unit := do
  let table := (← Exec.get).ptrs.table id
  let count := (BitVec.ofNat 32 table.count).toInt
  Exec.each (List.range count.toNat) fun i => do free (← cellAt table.symbols i).name
  free table.symbols
  setPtrs fun ptrs => ptrs.setTable id ⟨none, 0, 0⟩

def symDestroy : LibraryM Unit := do
  symTableDestroy .elf
  symTableDestroy .dwarf

/-- The part of `sylvan_sym_add` that makes room -/
def symGrow (id : TableId) : LibraryM Unit := do
  let table := (← Exec.get).ptrs.table id
  Exec.when (table.count = table.capacity) do
    let capacity := table.capacity <<< 1
    setPtrs fun ptrs => ptrs.setTable id { table with capacity }
    match ← reallocCells env table.symbols capacity with
    | none => reading (setCode .outOfMemory)
    | some p => setPtrs fun ptrs => ptrs.setTable id { table with symbols := some p, capacity }

/-- `symbols[i].name = name; symbols[i].addr = addr`, where `name` is what `strdup` made of a text -/
def storeSymbol (symbols : Option Nat) (i : Nat) (text : String) (addr : Addr) : LibraryM Unit := do
  match symbols with
  | none => Exec.fault (.lib .outOfBounds)
  | some p => do
    let cells ← loadCells p
    Exec.when (cells.length ≤ i) (Exec.fault (.lib .outOfBounds))
    let name ← malloc env (.text text)
    onHeap (Heap.store p (.symbols (cells.set i (some ⟨name, addr⟩))))

def symAdd (id : TableId) (name : String) (addr : Addr) : LibraryM Unit := do
  symGrow env id
  let table := (← Exec.get).ptrs.table id
  storeSymbol env table.symbols table.count name addr
  setPtrs fun ptrs => ptrs.setTable id { table with count := table.count + 1 }

/-- `sylvan_sym_add`, by a caller that ignores its result -/
def symTryAdd (id : TableId) (name : String) (addr : Addr) : LibraryM Unit := do
  let _ ← Exec.attempt (symAdd env id name addr)

def symLoadDie (id : TableId) (tag : Nat) (die : Die) : LibraryM Unit :=
  match die.name, die.lowpc with
  | some (some name), some lowpc => Exec.when (tag = DW_TAG_subprogram) (symTryAdd env id name lowpc)
  | _, _ => pure ()

/-- The siblings of a unit, up to the first without a tag. -/
def symLoadDies (id : TableId) : List Die → LibraryM Unit
  | [] => pure ()
  | die :: dies =>
    match die.tag with
    | none => pure ()
    | some tag => do
      symLoadDie env id tag die
      symLoadDies id dies

/-- The units, up to the first error. -/
def symLoadUnits (id : TableId) : List DwarfUnit → LibraryM Unit
  | [] => pure ()
  | .error :: _ => pure ()
  | .unit none :: units => symLoadUnits id units
  | .unit (some dies) :: units => do
    symLoadDies env id dies
    symLoadUnits id units

def symLoadDwarf (path : Option String) (id : TableId) : LibraryM Unit := do
  match env.dwarf (← reading Sys.tick) path with
  | none => Exec.error .dwarfNotFound
  | some units => symLoadUnits env id units

/-- The body of the loop over the symbols of a section. -/
def symLoadElfSymbol (file : ElfFile) (id : TableId) (sym : Option ElfSym) : LibraryM Unit :=
  match sym with
  | none => pure ()
  | some sym =>
    match file.section? sym.stShndx with
    | none => pure ()
    | some target =>
      if target.header = true ∧ target.shFlags &&& SHF_EXECINSTR ≠ 0 then
        match sym.name with
        | some name => Exec.when (name ≠ "") (symTryAdd env id name sym.stValue)
        | none => pure ()
      else pure ()

/-- The body of the loop over the sections. -/
def symLoadElfSection (file : ElfFile) (id : TableId) (scn : ElfSection) : LibraryM Unit :=
  if scn.header = false then pure ()
  else if scn.shType ≠ SHT_SYMTAB ∧ scn.shType ≠ SHT_DYNSYM then pure ()
  else match scn.data with
    | none => pure ()
    | some getsym => do
      Exec.when (scn.shEntsize = 0) (Exec.fault (.lib .divisionByZero))
      Exec.each (List.range scn.symbolCount.toNat) fun i => symLoadElfSymbol env file id (getsym i)

def symLoadElf (path : Option String) (id : TableId) : LibraryM Unit := do
  Exec.when (env.elfVersion (← reading Sys.tick) = false) (reading (setCode .elfFailed))
  let _ ← reading (checked env.toEnv .elfFailed "open" (Sys.plain fun t => env.openFile t path))
  match env.elf (← reading Sys.tick) path with
  | none => reading (setCode .elfFailed)
  | some file => do
    Exec.when (file.shstrndx = false) (reading (setCode .elfFailed))
    Exec.each file.sections (symLoadElfSection env file id)

/-- The elements of `l` at the places that `order` names -/
def permuted {α : Type} (order : List Nat) (l : List α) : List α := order.filterMap fun i => l[i]?

/-- `qsort` by `symcmp`, which reads the names of the symbols and moves the elements of the array -/
def symSort (id : TableId) : LibraryM Unit := do
  let table := (← Exec.get).ptrs.table id
  let symbols ← reading do return ((← Exec.get).inf.table id).symbols
  Exec.when (2 ≤ symbols.length ∧ ∃ sym ∈ symbols, sym.name = none) (Exec.fault (.lib .nullDereference))
  let t ← reading Sys.tick
  match table.symbols with
  | none => pure ()
  | some p => do
    let cells ← loadCells p
    onHeap (Heap.store p (.symbols (permuted (env.order t symbols) (cells.take table.count) ++ cells.drop table.count)))

def symLoadTables : LibraryM Unit := do
  symDestroy
  let _ ← Exec.attempt (symInit env)
  let path ← reading do return (← Exec.get).inf.realpath
  Exec.catching (symLoadDwarf env path .dwarf) fun code => Exec.when (code ≠ .dwarfNotFound) (Exec.error code)
  symLoadElf env path .elf
  symSort env .dwarf
  symSort env .elf

/-! ## Paths -/

/-- `sylvan_real_path`: `realpath` allocates the string that it gives. -/
def realPath (filepath : String) : LibraryM Nat := do newBlock env (.text (← reading (Sylvan.realPath env.toEnv filepath)))

/-- The loop of `sylvan_find_in_PATH` over the directories that are left, in the copy at `path` -/
def findInDirectories (path : Nat) (command : String) : List String → LibraryM Nat
  | [] => do
    free (some path)
    reading (setCode .fileNotFound)
  | token :: tokens => do
    let full := token ++ "/" ++ command
    match ← malloc env (.text full) with
    | none => do
      free (some path)
      reading (setCode .outOfMemory)
    | some p =>
      match ← reading (Sys.plain fun t => env.access t full) with
      | .ok _ => do
        free (some path)
        pure p
      | .error _ => do
        free (some p)
        findInDirectories path command tokens

def findInPATH (command : String) : LibraryM Nat := do
  match env.getenv (← reading Sys.tick) "PATH" with
  | none => reading (setCode .fileNotFound)
  | some path =>
    match ← malloc env (.text path) with
    | none => reading (setCode .outOfMemory)
    | some p => findInDirectories env p command (strtok ':' path)

def canonicalPath (filepath : String) : LibraryM Nat := do
  match ← Exec.attempt (realPath env filepath) with
  | .ok path => pure path
  | .error code => if code = .fileNotFound then findInPATH env filepath else Exec.error code

def realPathPid (pid : Pid) : LibraryM Nat := realPath env s!"/proc/{pid}/exe"

/-- The string at `p` -/
def loadText (p : Nat) : LibraryM String := do
  match ← onHeap (Heap.load p) with
  | .text s => pure s
  | _ => Exec.fault .garbage

/-- `sylvan_set_filepath`, where `none` is `NULL` -/
def setFilepath : Option String → LibraryM Unit
  | none => do
    free (← Exec.get).ptrs.realpath
    setPtrs fun ptrs => { ptrs with realpath := none }
  | some filepath => do
    let newpath ← canonicalPath env filepath
    let path ← loadText newpath
    match ← reading (Sys.plain fun t => env.access t path) with
    | .error _ => do
      free (some newpath)
      let short := cut 256 filepath
      reading (setErrnoMsg env.toEnv .notExecutable
        (if filepath.length ≤ 256 then s!"File '{filepath}' is not executable" else s!"File '{short}...' is not executable"))
    | .ok _ => do
      free (← Exec.get).ptrs.realpath
      setPtrs fun ptrs => { ptrs with realpath := some newpath }
      symLoadTables env

/-- `sylvan_set_args`, where `none` is `NULL` -/
def setArgs : Option String → LibraryM Unit
  | none => do
    free (← Exec.get).ptrs.args
    setPtrs fun ptrs => { ptrs with args := none }
  | some args =>
    do match ← malloc env (.text args) with
    | none => reading (setCode .outOfMemory)
    | some newargs => do
      free (← Exec.get).ptrs.args
      setPtrs fun ptrs => { ptrs with args := some newargs }

/-! ## Inferiors -/

/-- `sylvan_inferior_create`. The calls on the inferior that is being made are on the one that `ptrs` points to. -/
def inferiorCreate : LibraryM Unit := do
  match ← malloc env .inferior with
  | none => onState (setCode .outOfMemory)
  | some inf => do
    let infp := (← Exec.get).ptrs
    Exec.modify fun m => { m with state := m.state.setInf zeroedInferior, ptrs := .zeroed (some inf) }
    Exec.catching (symInit env) fun code => do
      free (some inf)
      setPtrs fun _ => infp
      Exec.error code
    Exec.modify fun m =>
      { m with
        state :=
          { m.state.setInf { m.state.inf with id := m.state.inferiorIdx } with
            inferiorIdx := m.state.inferiorIdx + 1, inferiorCount := m.state.inferiorCount + 1 } }

def inferiorDestroy : LibraryM Unit := do
  reading (terminateOrDetach env.toEnv)
  symDestroy
  free (← Exec.get).ptrs.realpath
  free (← Exec.get).ptrs.args
  free (← Exec.get).ptrs.self
  Exec.modify fun m =>
    { m with state := { m.state.record .freed with freed := true, inferiorCount := m.state.inferiorCount - 1 } }

/-- The part of `sylvan_attach` after `PTRACE_ATTACH` succeeded. -/
def attachWait (pid : Pid) : LibraryM Unit := do
  let path := (← Exec.attempt (realPathPid env pid)).toOption
  match ← reading (Sys.retry (Sys.waitpid env.toEnv pid) env.retries) with
  | .error e => do
    free path
    reading (if e = ECHILD then setMessage .procNotFound s!"Process {pid} disappeared during attach"
      else setErrnoMsg env.toEnv .waitpidFailed "waitpid")
  | .ok status => do
    match status with
    | .stopped _ => pure ()
    | .continued => pure ()
    | _ => free path
    reading (attachedStatus pid status)
    free (← Exec.get).ptrs.realpath
    Exec.modify fun m =>
      { m with
        state := m.state.setInf { m.state.inf with pid, isAttached := true }
        ptrs := { m.ptrs with realpath := path } }

def attach (pid : Pid) : LibraryM Unit := do
  reading (attachRequest env.toEnv pid)
  attachWait env pid
  symLoadTables env
  reading do
    breakpointResetPhybp
    breakpointSetallPhybp env.toEnv

/-- A call on the inferior -/
def call : Op → LibraryM Unit
  | .attach pid => attach env pid
  | .setFilepath path => setFilepath env path
  | .setArgs args => setArgs env args
  | .destroy => inferiorDestroy env
  | op => reading (op.call env.toEnv)

end

end Library

/-! ## The life of an inferior -/

def Op.isDestroy : Op → Bool
  | destroy => true
  | _ => false

/-- Calls on an inferior, whatever they return, up to the one that destroys it. It says whether one did. -/
def callAll {σ φ : Type} (call : Op → Exec σ Code φ Unit) : List Op → Exec σ Code φ Bool
  | [] => pure false
  | op :: ops => do
    match ← Exec.attempt (call op) with
    | .ok _ => if op.isDestroy then pure true else callAll call ops
    | .error _ => callAll call ops

/-- An inferior is created, and then calls are made on it. -/
def lifetime (env : Env) (ops : List Op) : SylvanM Bool := do
  inferiorCreate env
  callAll (Op.call env) ops

def Library.lifetime (env : LibraryEnv) (ops : List Op) : LibraryM Bool := do
  Library.inferiorCreate env
  callAll (Library.call env) ops

end Sylvan
