import Sylvan.Kernel

/-! # Breakpoints (`lib/sylvan/breakpoint.c`)

A `struct sylvan_breakpoint *` into the table is the index it points at. -/

namespace Sylvan

/-- `sylvan_breakpoint_find_by_addr`: the index, or `none` for `SYVLANC_BREAKPOINT_NOT_FOUND`. -/
def breakpointFindByAddr (inf : Inferior) (addr : Addr) : Option Nat :=
  SlotTable.find Breakpoint.addr inf.slot inf.count addr

/-- `inf->breakpoints[i]` as an index of the array, which has no other. -/
def slotIndex (i : Int) : SylvanM Nat :=
  if 0 ≤ i ∧ i.toNat < maxBreakpoints then pure i.toNat else Exec.fault .outOfBounds

/-- `inf->breakpoints[i] = b` -/
def storeSlot (i : Nat) (b : Breakpoint) : SylvanM Unit := do
  let i ← slotIndex i
  Exec.modify fun s => s.setInf (s.inf.setSlot i b)

def setBreakpointCount (n : Int) : SylvanM Unit := Exec.modify fun s => s.setInf { s.inf with breakpointCount := n }

section
variable (env : Env)

def breakpointCreatePhybp (i : Nat) : SylvanM Unit := do
  let inf := (← Exec.get).inf
  assert inf.IsActive
  let breakpoint := inf.slot i
  if breakpoint.isEnabledPhy then pure ()
  else do
    let ogData ← Sys.ptracePeek env breakpoint.addr
    Exec.when (ogData = -1) (setErrnoMsg env .ptracePeektextFailed "ptrace peek text")
    let newData := (ogData &&& ~~~0xFF) ||| 0xCC
    checked env .ptracePeektextFailed "ptrace poke text" (Sys.ptracePoke env breakpoint.addr newData)
    storeSlot i { breakpoint with ogByte := (ogData &&& 0xFF).setWidth 8, isEnabledPhy := true }

def breakpointRemovePhybp (i : Nat) : SylvanM Unit := do
  let inf := (← Exec.get).inf
  assert inf.IsActive
  let breakpoint := inf.slot i
  if ¬breakpoint.isEnabledPhy then pure ()
  else do
    let data ← Sys.ptracePeek env breakpoint.addr
    Exec.when (data = -1) (setErrnoMsg env .ptracePeektextFailed "ptrace peek text")
    let data := (data &&& ~~~0xFF) ||| breakpoint.ogByte.setWidth 64
    checked env .ptracePoketextFailed "ptrace poke text" (Sys.ptracePoke env breakpoint.addr data)
    storeSlot i { breakpoint with isEnabledPhy := false }

def breakpointEnablePtr (i : Nat) : SylvanM Unit := do
  storeSlot i { (← Exec.get).inf.slot i with isEnabledLog := true }
  if (← Exec.get).inf.IsActive then breakpointCreatePhybp env i else pure ()

def breakpointDisablePtr (i : Nat) : SylvanM Unit := do
  storeSlot i { (← Exec.get).inf.slot i with isEnabledLog := false }
  if (← Exec.get).inf.IsActive then breakpointRemovePhybp env i else pure ()

def breakpointEnable (addr : Addr) : SylvanM Unit := do
  match breakpointFindByAddr (← Exec.get).inf addr with
  | none => setCode .breakpointNotFound
  | some i => breakpointEnablePtr env i

def breakpointDisable (addr : Addr) : SylvanM Unit := do
  match breakpointFindByAddr (← Exec.get).inf addr with
  | none => setCode .breakpointNotFound
  | some i => breakpointDisablePtr env i

/-- The slot after the last entry becomes one for `addr`; what else it holds from earlier stays. -/
def breakpointAppend (addr : Addr) : SylvanM Nat := do
  let inf := (← Exec.get).inf
  let i ← slotIndex inf.breakpointCount
  setBreakpointCount (inf.breakpointCount + 1)
  storeSlot i { inf.slot i with addr, isEnabledLog := true }
  pure i

def breakpointSet (addr : Addr) : SylvanM Unit := do
  let inf := (← Exec.get).inf
  Exec.when (inf.breakpointCount = maxBreakpoints) (setCode .breakpointLimitReached)
  Exec.when (breakpointFindByAddr inf addr ≠ none) (setCode .breakpointAlreadyExists)
  let i ← breakpointAppend addr
  if ¬inf.IsActive then pure () else breakpointEnablePtr env i

/-- `if (--inf->breakpoint_count) breakpoints[i] = breakpoints[inf->breakpoint_count]` -/
def breakpointDrop (i : Nat) : SylvanM Unit := do
  let n := (← Exec.get).inf.breakpointCount - 1
  setBreakpointCount n
  Exec.when (n ≠ 0) do
    let last ← slotIndex n
    storeSlot i ((← Exec.get).inf.slot last)

def breakpointUnset (addr : Addr) : SylvanM Unit := do
  match breakpointFindByAddr (← Exec.get).inf addr with
  | none => setCode .breakpointNotFound
  | some i => do
    breakpointDisablePtr env i
    breakpointDrop i

/-- The loop of `sylvan_breakpoint_clearall`, with `n` entries left. -/
def breakpointClear : Nat → SylvanM Unit
  | 0 => pure ()
  | n + 1 => do
    breakpointRemovePhybp env n
    setBreakpointCount n
    breakpointClear n

def breakpointClearall : SylvanM Unit := do
  let inf := (← Exec.get).inf
  if ¬inf.IsActive then setBreakpointCount 0
  else do
    Exec.when (inf.breakpointCount < 0) (Exec.fault .outOfBounds)
    breakpointClear env inf.count

def breakpointResetPhybp : SylvanM Unit := do
  let n := (← Exec.get).inf.count
  Exec.each (List.range n) fun i => do
    storeSlot i { (← Exec.get).inf.slot i with isEnabledPhy := false }

def breakpointSetallPhybp : SylvanM Unit := do
  let inf := (← Exec.get).inf
  assert inf.IsActive
  Exec.each (List.range inf.count) (breakpointCreatePhybp env)

def breakpointUnsetallPhybp : SylvanM Unit := do
  let inf := (← Exec.get).inf
  assert inf.IsActive
  Exec.each (List.range inf.count) (breakpointRemovePhybp env)

end

end Sylvan
