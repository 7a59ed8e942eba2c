import Sylvan.Kernel

/-! # Symbol tables (`lib/sylvan/symbol.c`)

`libdwarf` and `libelf` are seen through `Env`: the units and debugging entries, and the sections and
symbols, that the walks of the loaders meet. `qsort` is a parameter too. -/

namespace Sylvan

def DW_TAG_subprogram : Nat := 0x2e
def SHT_SYMTAB : Nat := 2
def SHT_DYNSYM : Nat := 11
def SHF_EXECINSTR : Nat := 4

/-- The two tables of an inferior. -/
inductive TableId where
  | elf
  | dwarf
  deriving DecidableEq, Repr

def Inferior.table (inf : Inferior) : TableId → SymTable
  | .elf => inf.elfTable
  | .dwarf => inf.dwarfTable

def Inferior.setTable (inf : Inferior) (id : TableId) (table : SymTable) : Inferior :=
  match id with
  | .elf => { inf with elfTable := table }
  | .dwarf => { inf with dwarfTable := table }

def State.setTable (s : State) (id : TableId) (table : SymTable) : State := s.setInf (s.inf.setTable id table)

section
variable (env : Env)

def symTableInit (id : TableId) : SylvanM Unit := do
  if ← Sys.malloc env then
    Exec.modify fun s => s.setTable id { symbols := [], capacity := 256, allocated := 256 }
  else do
    Exec.modify fun s => s.setTable id { symbols := [], capacity := 256, allocated := 0 }
    setCode .outOfMemory

def symInit : SylvanM Unit := do
  symTableInit env .elf
  symTableInit env .dwarf

def symTableDestroy (id : TableId) : SylvanM Unit :=
  Exec.modify fun s => s.setTable id { symbols := [], capacity := 0, allocated := 0 }

def symDestroy : SylvanM Unit := do
  symTableDestroy .elf
  symTableDestroy .dwarf

/-- The part of `sylvan_sym_add` that makes room: the capacity is doubled before the new block is there. -/
def symGrow (id : TableId) : SylvanM Unit := do
  let table := (← Exec.get).inf.table id
  Exec.when (table.symbols.length = table.capacity) do
    let capacity := table.capacity <<< 1
    Exec.modify fun s => s.setTable id { table with capacity }
    Exec.when ((← Sys.malloc env) = false) (setCode .outOfMemory)
    Exec.modify fun s => s.setTable id { table with capacity, allocated := capacity }

def symAdd (id : TableId) (name : String) (addr : Addr) : SylvanM Unit := do
  symGrow env id
  let table := (← Exec.get).inf.table id
  Exec.when (table.allocated ≤ table.symbols.length) (Exec.fault .outOfBounds)
  let copied ← Sys.malloc env
  let symbol := { name := if copied then some name else none, addr }
  Exec.modify fun s => s.setTable id { table with symbols := table.symbols ++ [symbol] }

/-- `sylvan_sym_add`, by a caller that ignores its result -/
def symTryAdd (id : TableId) (name : String) (addr : Addr) : SylvanM Unit := do
  let _ ← Exec.attempt (symAdd env id name addr)

/-- A debugging entry with tag `tag`. -/
def symLoadDie (id : TableId) (tag : Nat) (die : Die) : SylvanM Unit :=
  match die.name, die.lowpc with
  | some (some name), some lowpc => Exec.when (tag = DW_TAG_subprogram) (symTryAdd env id name lowpc)
  | _, _ => pure ()

/-- The siblings of a unit, up to the first without a tag. -/
def symLoadDies (id : TableId) : List Die → SylvanM Unit
  | [] => pure ()
  | die :: dies =>
    match die.tag with
    | none => pure ()
    | some tag => do
      symLoadDie env id tag die
      symLoadDies id dies

/-- The units, up to the first error. -/
def symLoadUnits (id : TableId) : List DwarfUnit → SylvanM Unit
  | [] => pure ()
  | .error :: _ => pure ()
  | .unit none :: units => symLoadUnits id units
  | .unit (some dies) :: units => do
    symLoadDies env id dies
    symLoadUnits id units

def symLoadDwarf (path : Option String) (id : TableId) : SylvanM Unit := do
  match env.dwarf (← Sys.tick) path with
  | none => Exec.error .dwarfNotFound
  | some units => symLoadUnits env id units

/-- The section with an index, as `elf_getscn` finds it. -/
def ElfFile.section? (file : ElfFile) (index : Nat) : Option ElfSection :=
  if index = 0 then none else file.sections[index - 1]?

/-- The body of the loop over the symbols of a section. -/
def symLoadElfSymbol (file : ElfFile) (id : TableId) (sym : Option ElfSym) : SylvanM Unit :=
  match sym with
  | none => pure ()
  | some sym =>
    match file.section? sym.stShndx with
    | none => pure ()
    | some target =>
      if target.header = true ∧ target.shFlags &&& SHF_EXECINSTR ≠ 0 then
        match sym.name with
        | some name => Exec.when (name ≠ "") (symTryAdd env id name sym.stValue)
        | none => pure ()
      else pure ()

/-- `int count = shdr.sh_size / shdr.sh_entsize` -/
def ElfSection.symbolCount (scn : ElfSection) : Int := ((scn.shSize / scn.shEntsize).setWidth 32).toInt

/-- The body of the loop over the sections. -/
def symLoadElfSection (file : ElfFile) (id : TableId) (scn : ElfSection) : SylvanM Unit :=
  if scn.header = false then pure ()
  else if scn.shType ≠ SHT_SYMTAB ∧ scn.shType ≠ SHT_DYNSYM then pure ()
  else match scn.data with
    | none => pure ()
    | some getsym => do
      Exec.when (scn.shEntsize = 0) (Exec.fault .divisionByZero)
      Exec.each (List.range scn.symbolCount.toNat) fun i => symLoadElfSymbol env file id (getsym i)

def symLoadElf (path : Option String) (id : TableId) : SylvanM Unit := do
  Exec.when (env.elfVersion (← Sys.tick) = false) (setCode .elfFailed)
  let _ ← checked env .elfFailed "open" (Sys.plain fun t => env.openFile t path)
  match env.elf (← Sys.tick) path with
  | none => setCode .elfFailed
  | some file => do
    Exec.when (file.shstrndx = false) (setCode .elfFailed)
    Exec.each file.sections (symLoadElfSection env file id)

/-- `qsort` by `symcmp`, which compares names and so must find one in each symbol it is given. -/
def symSort (id : TableId) : SylvanM Unit := do
  let table := (← Exec.get).inf.table id
  Exec.when (2 ≤ table.symbols.length ∧ ∃ sym ∈ table.symbols, sym.name = none) (Exec.fault .nullDereference)
  let t ← Sys.tick
  Exec.modify fun s => s.setTable id { table with symbols := env.qsort t table.symbols }

def symLoadTables : SylvanM Unit := do
  symDestroy
  let _ ← Exec.attempt (symInit env)
  let path := (← Exec.get).inf.realpath
  Exec.catching (symLoadDwarf env path .dwarf) fun code => Exec.when (code ≠ .dwarfNotFound) (Exec.error code)
  symLoadElf env path .elf
  symSort env .dwarf
  symSort env .elf

/-! ## Lookup -/

/-- `strcmp`, by the characters as bytes -/
def strcmp : List Char → List Char → Ordering
  | [], [] => .eq
  | [], _ :: _ => .lt
  | _ :: _, [] => .gt
  | c :: cs, d :: ds => if c = d then strcmp cs ds else compare c d

/-- The loop of `bsearch` by `symcmp`, on the symbols from index `l` up to index `u`. -/
def bsearch (name : String) (symbols : List Symbol) : Nat → Nat → Nat → SylvanM (Option Symbol)
  | 0, _, _ => pure none
  | fuel + 1, l, u =>
    if u ≤ l then pure none
    else match symbols[(l + u) / 2]? with
      | none => Exec.fault .outOfBounds
      | some sym => match sym.name with
        | none => Exec.fault .nullDereference
        | some other => match strcmp name.toList other.toList with
          | .lt => bsearch name symbols fuel l ((l + u) / 2)
          | .gt => bsearch name symbols fuel ((l + u) / 2 + 1) u
          | .eq => pure (some sym)

def symLookup (table : SymTable) (name : String) : SylvanM (Option Symbol) :=
  bsearch name table.symbols (table.symbols.length + 1) 0 table.symbols.length

def getLabelAddr (name : String) : SylvanM Addr := do
  let inf := (← Exec.get).inf
  match ← symLookup inf.dwarfTable name with
  | some sym => pure sym.addr
  | none =>
    match ← symLookup inf.elfTable name with
    | some sym => pure sym.addr
    | none => setMessage .symbolNotFound (cut 256 name ++ " not found")

end

end Sylvan
