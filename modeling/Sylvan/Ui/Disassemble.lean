import Sylvan.Ui.Session

/-! # Disassembly (`src/disassemble.c`)

A file is read as it is while it is open. The instructions that `libzydis` finds are those that `UiEnv` gives. -/

namespace Sylvan

section
variable (env : UiEnv)

/-! ## The bounds of a function -/

/-- The symbol that `gelf_getsym` finds, whose index is an `int`. -/
def ElfSection.sym? (scn : ElfSection) (i : Nat) : Option ElfSym :=
  if (BitVec.ofNat 32 i).toInt < 0 then none else scn.data.bind fun getsym => getsym (BitVec.ofNat 32 i).toNat

/-- The loop over the symbols of a section. -/
def ElfSection.findSym (scn : ElfSection) (funcName : String) : Option ElfSym :=
  (List.range (scn.shSize / scn.shEntsize).toNat).findSome? fun i =>
    (scn.sym? i).filter fun sym => sym.name = some funcName

/-- The loop over the sections. -/
def findSymbol (funcName : String) : List ElfSection → UiM (Option ElfSym)
  | [] => pure none
  | scn :: scns =>
    if scn.header = false then findSymbol funcName scns
    else if scn.shType = SHT_SYMTAB then do
      Exec.when (scn.shEntsize = 0) (Exec.fault .divisionByZero)
      match scn.findSym funcName with
      | some sym => pure (some sym)
      | none => findSymbol funcName scns
    else findSymbol funcName scns

def pathArg (path : Option String) : Arg := path.elim .null .str

/-- `get_function_bounds`: the address and the size, or `none` where it returns 1 -/
def getFunctionBounds (binaryPath : Option String) (funcName : String) : UiM (Option (Addr × BitVec 64)) := do
  if env.elfVersion (← sys Sys.tick) = false then do
    printStderr "ELF library initialization failed: %s\n" [.str env.elfErrmsg]
    pure none
  else do
    match ← sys (Sys.plain fun t => env.openFile t binaryPath) with
    | .error e => do
      printStderr "Cannot open %s: %s\n" [pathArg binaryPath, .str (env.strerror e)]
      pure none
    | .ok _ =>
      match env.elf (← sys Sys.tick) binaryPath with
      | none => do
        printStderr "elf_begin failed: %s\n" [.str env.elfErrmsg]
        pure none
      | some file =>
        if file.shstrndx = false then do
          printStderr "elf_getshdrstrndx failed: %s\n" [.str env.elfErrmsg]
          pure none
        else do
          match ← findSymbol funcName file.sections with
          | some sym => pure (some (sym.stValue, sym.stSize))
          | none => do
            printStderr "Function '%s' not found in %s\n" [.str funcName, pathArg binaryPath]
            pure none

/-! ## Addresses in the file -/

/-- An integer of `n` bytes at `pos` in the file -/
def fileField (file : List Byte) (pos n : Nat) : BitVec 64 := ByteMemory.ofBytes 64 ((file.drop pos).take n)

structure ProgramHeader where
  pType : BitVec 64
  pOffset : BitVec 64
  pVaddr : BitVec 64
  pFilesz : BitVec 64
  pMemsz : BitVec 64
  deriving DecidableEq, Repr

def ELFMAG : List Byte := [0x7F, 0x45, 0x4C, 0x46]
def PT_LOAD : BitVec 64 := 1
def sizeofEhdr : Nat := 64
def sizeofPhdr : Nat := 56

/-- `fread(&phdr, sizeof(phdr), 1, fd)`, with `fd` at `pos` -/
def readPhdr (file : List Byte) (pos : Nat) : Option ProgramHeader :=
  if pos + sizeofPhdr ≤ file.length then
    some ⟨fileField file pos 4, fileField file (pos + 8) 8, fileField file (pos + 16) 8, fileField file (pos + 32) 8,
      fileField file (pos + 40) 8⟩
  else none

/-- The loop over the program headers that are left, from the `i`th on. -/
def findSegment (file : List Byte) (vaddr : Addr) (size : BitVec 64) : Nat → Nat → Nat → UiM (Option (BitVec 64 × BitVec 64))
  | 0, _, _ => do
    printStderr "Virtual address 0x%016lx not found in any loadable segment\n" [.word vaddr]
    pure none
  | n + 1, i, pos =>
    match readPhdr file pos with
    | none => do
      printStderr "Failed to read program header %d\n" [.int i]
      pure none
    | some phdr =>
      if phdr.pType = PT_LOAD ∧ phdr.pVaddr ≤ vaddr ∧ vaddr < phdr.pVaddr + phdr.pMemsz then do
        let fileOffset := phdr.pOffset + (vaddr - phdr.pVaddr)
        let maxSize := phdr.pFilesz - (vaddr - phdr.pVaddr)
        Exec.when (maxSize < size) (printf "Adjusted size from %zu to %zu to fit section\n" [.word size, .word maxSize])
        pure (some (fileOffset, maxSize))
      else findSegment file vaddr size n (i + 1) (pos + sizeofPhdr)

/-- `get_file_offset_from_vaddr`: `*file_offset` and `*max_size`, or `none` where it returns 1 -/
def getFileOffsetFromVaddr (file : OpenFile) (vaddr : Addr) (size : BitVec 64) : UiM (Option (BitVec 64 × BitVec 64)) :=
  if file.bytes.length < sizeofEhdr then do
    printStderr "Failed to read ELF header\n" []
    pure none
  else if file.bytes.take 4 ≠ ELFMAG then do
    printStderr "Not an ELF file\n" []
    pure none
  else
    -- an `fseek` that fails is not seen, and leaves `fd` behind the header
    let phoff := fileField file.bytes 32 8
    let pos := if file.seeks phoff then phoff.toNat else sizeofEhdr
    findSegment file.bytes vaddr size (fileField file.bytes 56 2).toNat 0 pos

/-! ## Instructions -/

/-- `%02X` -/
def hexByte (b : Byte) : String := String.ofList ((hexDigits b).map Char.toUpper)

/-- `struct disassembled_instruction`, without the link to the next one -/
structure Disassembled where
  addr : Addr
  opcodes : String
  instruction : String
  deriving DecidableEq, Repr

/-- The characters `cs`, stored from index `k` of a block on -/
def storeChars (block : List Char) (k : Nat) (cs : List Char) : UiM (List Char) := do
  Exec.when (block.length < k + cs.length) (Exec.fault .outOfBounds)
  pure (block.take k ++ cs ++ block.drop (k + cs.length))

/-- `sprintf(p, "%02X ", b)` for each of the bytes, with `p` at first at index `p` of the block: the block, and where `p` is
    then -/
def printBytes : List Byte → List Char → Nat → UiM (List Char × Nat)
  | [], block, p => pure (block, p)
  | b :: bytes, block, p => do
    let block ← storeChars block p ((hexByte b).toList ++ [' ', '\x00'])
    printBytes bytes block (p + 3)

/-- The string at the start of a block -/
def blockText (block : List Char) : UiM String := do
  Exec.when ('\x00' ∉ block) (Exec.fault .outOfBounds)
  pure (String.ofList (block.takeWhile fun c => c ≠ '\x00'))

/-- `node->opcodes` for the bytes of an instruction, in a block of `len * 3 + 1` characters where `stale` was -/
def formatOpcodes (bytes : List Byte) (stale : List Char) : UiM String := do
  let size := bytes.length * 3 + 1
  let (block, p) ← printBytes bytes ((stale ++ List.replicate size '\x00').take size) 0
  -- `p - 1` is the place of the last blank
  Exec.when (p = 0) (Exec.fault .outOfBounds)
  blockText (← storeChars block (p - 1) ['\x00'])

/-- The part of the loop that makes the node of an instruction, or `none` where there is no memory for it. -/
def makeNode (runtimeAddress : Addr) (buffer : List Byte) (offset : Nat) (instr : Instruction) : UiM (Option Disassembled) := do
  if (← sys (Sys.malloc env.toEnv)) = false then do
    printStderr "Memory allocation failed (node)\n" []
    pure none
  else if (← sys (Sys.malloc env.toEnv)) = false then do
    printStderr "Memory allocation failed (opcodes)\n" []
    pure none
  else do
    Exec.when (buffer.length < offset + instr.length) (Exec.fault .outOfBounds)
    let opcodes ← formatOpcodes ((buffer.drop offset).take instr.length) (env.behind (← sys Sys.tick))
    if (← sys (Sys.malloc env.toEnv)) = false then do
      printStderr "Memory allocation failed (instruction)\n" []
      pure none
    else pure (some ⟨runtimeAddress, opcodes, instr.text⟩)

/-- The loop over the instructions of `buffer` from `offset` on, for at most `fuel` turns; what it gives is the
    instructions, where it ends and `instr_count`, an `int`. -/
def disassembleLoop (buffer : List Byte) (isNotFunc : Bool) : Nat → Addr → Nat → Int → UiM (List Disassembled × Nat × Int)
  | 0, _, offset, instrCount => pure ([], offset, instrCount)
  | fuel + 1, runtimeAddress, offset, instrCount => do
    match env.zydis runtimeAddress (buffer.drop offset) with
    | none => pure ([], offset, instrCount)
    | some instr =>
      match ← makeNode env runtimeAddress buffer offset instr with
      | none => pure ([], offset, instrCount)
      | some node => do
        let offset := offset + instr.length
        let instrCount := asInt (instrCount + 1)
        if ¬isNotFunc ∧ instr.text.toList.take 3 = "ret".toList then pure ([node], offset, instrCount)
        else if buffer.length < offset then pure ([node], offset, instrCount)
        else do
          let (nodes, last, count) ←
            disassembleLoop buffer isNotFunc fuel (runtimeAddress + BitVec.ofNat 64 instr.length) offset instrCount
          pure (node :: nodes, last, count)

/-- The part of `disassemble` with the file open and the range found in it. -/
def disassembleRange (file : OpenFile) (startAddr : Addr) (fileOffset size : BitVec 64) (isNotFunc : Bool) :
    UiM (Option (List Disassembled × Int)) := do
  if (← sys (Sys.malloc env.toEnv)) = false then do
    printStderr "Memory allocation failed\n" []
    pure none
  else if file.seeks fileOffset = false then do
    printStderr "Failed to seek to offset 0x%016lx\n" [.word fileOffset]
    pure none
  else do
    let buffer := (file.bytes.drop fileOffset.toNat).take size.toNat
    if buffer.length ≠ size.toNat then do
      printStderr "Failed to read %zu bytes from file (read %zu)\n" [.word size, .word (BitVec.ofNat 64 buffer.length)]
      pure none
    else do
      let (nodes, offset, instrCount) ← disassembleLoop env buffer isNotFunc (size.toNat + 1) startAddr 0 0
      pure (if size.toNat ≤ offset ∨ 0 < instrCount then some (nodes, instrCount) else none)

/-- `disassemble`: `*instructions` and `*count`, or `none` where it returns 1 -/
def disassemble (startAddr endAddr : Addr) : UiM (Option (List Disassembled × Int)) := do
  let inf ← inferior
  if inf.realpath = none ∨ endAddr < startAddr then do
    printStderr "Invalid arguments or address range\n" []
    pure none
  else do
    match ← sys (Sys.answered fun t => env.fopen t inf.realpath) with
    | .error e => do
      printStderr "Failed to open the file: %s\n" [.str (env.strerror e)]
      pure none
    | .ok file => do
      let size := endAddr - startAddr
      match ← getFileOffsetFromVaddr file startAddr size with
      | none => pure none
      | some (fileOffset, maxSize) =>
        -- `int is_not_func = size`
        let isNotFunc := size.setWidth 32 ≠ 0
        let size := if maxSize < size ∨ size = 0 then maxSize else size
        disassembleRange env file startAddr fileOffset size isNotFunc

/-- A row of `print_disassembly`, with copies of the texts -/
def disassemblyRow (inst : Disassembled) : UiM (List Arg) := do
  allocate env
  allocate env
  let opcodes ← copyText env inst.opcodes
  let instruction ← copyText env inst.instruction
  pure [.word inst.addr, opcodes, instruction]

/-- `print_disassembly`, whose table has no more rows than `count` says -/
def printDisassembly (instructions : List Disassembled) (count : Int) : UiM Unit := do
  if instructions = [] ∨ count = 0 then printf "No instructions to display\n" []
  else printTable "Disassembly" ((← instructions.mapM (disassemblyRow env)).take count.toNat)

end

end Sylvan
