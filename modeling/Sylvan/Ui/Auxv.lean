import Sylvan.Ui.Session

/-! # Auxiliary vectors (`src/auxiliary_vectors.c`) -/

namespace Sylvan

/-- `struct auxv_entry`; the `type` is a `long`. -/
structure AuxvEntry where
  type : BitVec 64
  value : BitVec 64
  deriving DecidableEq, Repr

def AT_NULL : BitVec 64 := 0

/-- `auxv_names`: the number of a type, its name and its description -/
def auxvNames : List (Nat × String × String) :=
  [(0, "AT_NULL", "End of vector"),
    (1, "AT_IGNORE", "Entry should be ignored"),
    (2, "AT_EXECFD", "File descriptor of program"),
    (3, "AT_PHDR", "Program headers for program"),
    (4, "AT_PHENT", "Size of program header entry"),
    (5, "AT_PHNUM", "Number of program headers"),
    (6, "AT_PAGESZ", "System page size"),
    (7, "AT_BASE", "Base address of interpreter"),
    (8, "AT_FLAGS", "Flags"),
    (9, "AT_ENTRY", "Entry point of program"),
    (10, "AT_NOTELF", "Program is not ELF"),
    (11, "AT_UID", "Real user ID"),
    (12, "AT_EUID", "Effective user ID"),
    (13, "AT_GID", "Real group ID"),
    (14, "AT_EGID", "Effective group ID"),
    (15, "AT_PLATFORM", "String identifying platform"),
    (16, "AT_HWCAP", "Machine-dependent CPU capability hints"),
    (17, "AT_CLKTCK", "Frequency of times()"),
    (18, "AT_FPUCW", "Used FPU control word"),
    (19, "AT_DCACHEBSIZE", "Data cache block size"),
    (20, "AT_ICACHEBSIZE", "Instruction cache block size"),
    (21, "AT_UCACHEBSIZE", "Unified cache block size"),
    (22, "AT_IGNOREPPC", "Entry should be ignored (PowerPC)"),
    (23, "AT_SECURE", "Boolean, was exec setuid-like?"),
    (24, "AT_BASE_PLATFORM", "String identifying real platform"),
    (25, "AT_RANDOM", "Address of 16 random bytes"),
    (26, "AT_HWCAP2", "Extension of AT_HWCAP"),
    (31, "AT_EXECFN", "File name of executable"),
    (32, "AT_SYSINFO", "Entry point to syscall implementation"),
    (33, "AT_SYSINFO_EHDR", "System-supplied DSO's ELF header"),
    (34, "AT_L1I_CACHESHAPE", "Shape of L1 instruction cache"),
    (35, "AT_L1D_CACHESHAPE", "Shape of L1 data cache"),
    (36, "AT_L2_CACHESHAPE", "Shape of L2 cache"),
    (37, "AT_L3_CACHESHAPE", "Shape of L3 cache"),
    (40, "AT_L1I_CACHESIZE", "Size of L1 instruction cache"),
    (41, "AT_L1I_CACHEGEOMETRY", "Geometry of L1 instruction cache"),
    (42, "AT_L1D_CACHESIZE", "Size of L1 data cache"),
    (43, "AT_L1D_CACHEGEOMETRY", "Geometry of L1 data cache"),
    (44, "AT_L2_CACHESIZE", "Size of L2 cache"),
    (45, "AT_L2_CACHEGEOMETRY", "Geometry of L2 cache"),
    (46, "AT_L3_CACHESIZE", "Size of L3 cache"),
    (47, "AT_L3_CACHEGEOMETRY", "Geometry of L3 cache"),
    (51, "AT_MINSIGSTKSZ", "Minimum stack size for signal delivery"),
    (27, "AT_RSEQ_FEATURE_SIZE", "rseq supported feature size"),
    (28, "AT_RSEQ_ALIGN", "rseq allocation alignment")]

/-- The types whose values are printed in decimal: `AT_PAGESZ`, `AT_PHENT`, `AT_PHNUM`, `AT_UID`, `AT_EUID`, `AT_GID`,
    `AT_EGID`, `AT_CLKTCK`, `AT_MINSIGSTKSZ`, `AT_RSEQ_FEATURE_SIZE` and `AT_RSEQ_ALIGN` -/
def decimalTypes : List (BitVec 64) := [6, 4, 5, 11, 12, 13, 14, 17, 51, 27, 28]

/-- The size of the buffer that `/proc/<pid>/auxv` is read into. -/
def auxvBufferSize : Nat := 4096

section
variable (env : UiEnv)

/-- `target_read_auxv`: the buffer and how many of its bytes were read, or `none` where it returns `NULL` -/
def targetReadAuxv : UiM (Option (List Byte × Nat)) := do
  let pid := (← inferior).pid
  let path := s!"/proc/{pid}/auxv"
  match ← sys (Sys.plain fun t => env.openAuxv t pid) with
  | .error _ => do
    printStderr "Read Error: Failed to open %s\n" [.str path]
    pure none
  | .ok _ =>
    if (← sys (Sys.malloc env.toEnv)) = false then do
      printStderr "Memory Error: Failed to allocate memory for auxv buffer\n" []
      pure none
    else do
      let stale := env.stale (← sys Sys.tick)
      match ← sys (Sys.answered env.readAuxv) with
      | .error _ => do
        printStderr "Read Error: Failed to read %s\n" [.str path]
        pure none
      | .ok bytes =>
        let data := bytes.take auxvBufferSize
        if data.length = auxvBufferSize then do
          printStderr "Error: Auxv data exceeds buffer size (%zu bytes)\n" [.word (BitVec.ofNat 64 auxvBufferSize)]
          pure none
        else pure (some ((data ++ stale.drop data.length).take auxvBufferSize, data.length))

/-- `auxv[i]`, as a record of two integers of `size / 2` bytes each -/
def auxvRecord (buffer : List Byte) (size i : Nat) : AuxvEntry where
  type := ByteMemory.ofBytes 64 ((buffer.drop (i * size)).take (size / 2))
  value := ByteMemory.ofBytes 64 ((buffer.drop (i * size + size / 2)).take (size / 2))

/-- A read of the bytes of `buffer` before index `n` -/
def readBefore (buffer : List Byte) (n : Nat) : UiM Unit := Exec.when (buffer.length < n) (Exec.fault .outOfBounds)

/-- The loop over the records from the `i`th on, for at most `fuel` turns. -/
def parseRecords (buffer : List Byte) (len size maxEntries : Nat) : Nat → Nat → UiM (List AuxvEntry)
  | 0, _ => pure []
  | fuel + 1, i =>
    if len ≤ i * size then pure []
    else do
      readBefore buffer (i * size + size / 2)
      if (auxvRecord buffer size i).type = AT_NULL then pure []
      else do
        Exec.when (maxEntries ≤ i) (Exec.fault .outOfBounds)
        readBefore buffer (i * size + size)
        let entries ← parseRecords buffer len size maxEntries fuel (i + 1)
        pure (auxvRecord buffer size i :: entries)

/-- `parse_auxv` on the `len` bytes at the start of `buffer`: the entries and the `AT_NULL` that ends them, or `none`
    where it returns `NULL` -/
def parseAuxv (buffer : List Byte) (len : Nat) (is64bit : Bool) : UiM (Option (List AuxvEntry)) := do
  let size := if is64bit then 16 else 8
  let maxEntries := len / size + 1
  if len < size then pure none
  else if (← sys (Sys.malloc env.toEnv)) = false then pure none
  else do
    let entries ← parseRecords buffer len size maxEntries (len + 1) 0
    Exec.when (maxEntries ≤ entries.length) (Exec.fault .outOfBounds)
    pure (some (entries ++ [⟨AT_NULL, 0⟩]))

end

def printAuxvEntry (entry : AuxvEntry) : UiM Unit :=
  let (name, desc) := ((auxvNames.find? fun names => BitVec.ofNat 64 names.1 = entry.type).map Prod.snd).getD
    ("Unknown", "Unkown Auxillary Vector Entry")
  if entry.type ∈ decimalTypes then
    printf "%-4ld %-21lu %-20s %s\n" [.int entry.type.toInt, .word entry.value, .str name, .str desc]
  else printf "%-4ld 0x%-19lx %-20s %s\n" [.int entry.type.toInt, .word entry.value, .str name, .str desc]

end Sylvan
