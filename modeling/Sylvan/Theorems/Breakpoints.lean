import Sylvan.Lib.Overlay
import Sylvan.Theorems.Rules
import Sylvan.Theorems.Table

/-! The functions of `breakpoint.c`. Each has one rule, which says which edits of the table and of the
    process it makes; besides these it changes the scratch part of the state only. What an edit keeps of
    the process's memory is stated with the overlay that the installed entries are (`Hides`, `Shows`). -/

namespace Sylvan
open Exec

/-! ### Edits of the state -/

namespace State

def setLog (s : State) (i : Nat) (v : Bool) : State := s.setInf (s.inf.setLog i v)

/-- Entry `i` gets its breakpoint: the byte at its address is saved and replaced. -/
def install (s : State) (i : Nat) : State :=
  let b := s.inf.slot i
  (s.setMem (Function.update s.proc.mem b.addr 0xCC)).setInf
    (s.inf.setSlot i { b with ogByte := s.proc.mem b.addr, isEnabledPhy := true })

/-- Entry `i` loses its breakpoint: the saved byte is put back. -/
def uninstall (s : State) (i : Nat) : State :=
  let b := s.inf.slot i
  (s.setMem (Function.update s.proc.mem b.addr b.ogByte)).setInf (s.inf.clearPhy i)

section
variable {s : State} {i : Nat} {v : Bool}

@[simp] theorem setLog_inf : (s.setLog i v).inf = s.inf.setLog i v := rfl

@[simp] theorem setLog_proc : (s.setLog i v).proc = s.proc := setInf_proc rfl

@[simp] theorem install_inf : (s.install i).inf =
    s.inf.setSlot i { s.inf.slot i with ogByte := s.proc.mem (s.inf.slot i).addr, isEnabledPhy := true } := rfl

@[simp] theorem install_proc : (s.install i).proc =
    { s.proc with mem := Function.update s.proc.mem (s.inf.slot i).addr 0xCC } :=
  (setInf_proc rfl).trans setMem_proc

@[simp] theorem uninstall_inf : (s.uninstall i).inf = s.inf.clearPhy i := rfl

@[simp] theorem uninstall_proc : (s.uninstall i).proc =
    { s.proc with mem := Function.update s.proc.mem (s.inf.slot i).addr (s.inf.slot i).ogByte } :=
  (setInf_proc rfl).trans setMem_proc

end

end State

/-! ### Single entries -/

/-- The codes that a refused `PTRACE_PEEKTEXT` or `PTRACE_POKETEXT` is reported with. -/
def Code.IsText (c : Code) : Prop := c = .ptracePeektextFailed ∨ c = .ptracePoketextFailed

section Rules
variable {env : Env} {F : Fault → State → Prop} {E : Code → State → Prop} {s : State} {i : Nat} {addr : Addr}
  {Q : Unit → State → Prop}

theorem wp_slotIndex {Q : Nat → State → Prop} (hi : i < maxBreakpoints) (h : Q i s) : wp F (slotIndex i) Q E s := by
  unfold slotIndex
  rw [wp_ite, if_pos ⟨Int.natCast_nonneg i, hi⟩]
  exact h

theorem wp_storeSlot {b : Breakpoint} (hi : i < maxBreakpoints) (h : Q () (s.setInf (s.inf.setSlot i b))) :
    wp F (storeSlot i b) Q E s := by
  unfold storeSlot
  rw [wp_bind]
  exact wp_slotIndex hi h

@[simp] theorem wp_setBreakpointCount {n : Int} :
    wp F (setBreakpointCount n) Q E s ↔ Q () (s.setInf { s.inf with breakpointCount := n }) := Iff.rfl

/-- A word is read for `k`, or an error is returned: -1 stands for a failure. -/
theorem wp_peekText {code : Code} {text : String} {k : Word → SylvanM Unit}
    (hok : ∀ x, wp F (k (ByteMemory.peek 64 s.proc.mem addr)) Q E (s.withScratch x))
    (herr : ∀ x, E code (s.withScratch x)) :
    wp F (do
      let w ← Sys.ptracePeek env addr
      Exec.when (w = -1) (setErrnoMsg env code text)
      k w) Q E s := by
  refine wp_bind.mpr (wp_ptracePeek (fun x _ => ?_) fun x _ => ?_)
  · rw [wp_bind, wp_when]
    split
    · exact herr _
    · exact hok x
  · rw [wp_bind, wp_when, if_pos rfl]
    exact herr _

theorem savedByte {m : Memory} : (ByteMemory.peek 64 m addr &&& 0xFF).setWidth 8 = m addr := by
  refine (ByteMemory.byteAt_low (n := 64) (by decide)).trans ?_
  rw [ByteMemory.byteAt_peek (by decide)]
  simp

theorem poke_saved {m : Memory} {b : Byte} :
    ByteMemory.poke m addr ((ByteMemory.peek 64 m addr &&& ~~~0xFF) ||| b.setWidth 64) = Function.update m addr b :=
  ByteMemory.poke_low (by decide)

theorem poke_trap {m : Memory} :
    ByteMemory.poke m addr ((ByteMemory.peek 64 m addr &&& ~~~0xFF) ||| 0xCC) = Function.update m addr 0xCC :=
  poke_saved (b := 0xCC)

theorem wp_breakpointCreatePhybp (hact : s.inf.IsActive) (hi : i < maxBreakpoints)
    (hskip : (s.inf.slot i).isEnabledPhy = true → Q () s)
    (hok : (s.inf.slot i).isEnabledPhy = false → ∀ x, Q () ((s.install i).withScratch x))
    (herr : (s.inf.slot i).isEnabledPhy = false → ∀ c x, c.IsText → E c (s.withScratch x)) :
    wp F (breakpointCreatePhybp env i) Q E s := by
  unfold breakpointCreatePhybp
  rw [wp_bind, wp_get, wp_bind, wp_assert, if_pos hact, wp_ite]
  cases hphy : (s.inf.slot i).isEnabledPhy with
  | true => exact hskip hphy
  | false =>
    refine wp_peekText (fun x => ?_) fun x => herr hphy _ x (Or.inl rfl)
    rw [wp_bind]
    refine wp_checked (wp_ptracePoke (fun x => ?_) fun e x y => herr hphy _ y (Or.inl rfl))
    refine wp_storeSlot hi ?_
    rw [savedByte, withScratch_proc, poke_trap]
    exact hok hphy x

theorem wp_breakpointRemovePhybp (hact : s.inf.IsActive) (hi : i < maxBreakpoints)
    (hskip : (s.inf.slot i).isEnabledPhy = false → Q () s)
    (hok : (s.inf.slot i).isEnabledPhy = true → ∀ x, Q () ((s.uninstall i).withScratch x))
    (herr : (s.inf.slot i).isEnabledPhy = true → ∀ c x, c.IsText → E c (s.withScratch x)) :
    wp F (breakpointRemovePhybp env i) Q E s := by
  unfold breakpointRemovePhybp
  rw [wp_bind, wp_get, wp_bind, wp_assert, if_pos hact, wp_ite]
  cases hphy : (s.inf.slot i).isEnabledPhy with
  | false => exact hskip hphy
  | true =>
    refine wp_peekText (fun x => ?_) fun x => herr hphy _ x (Or.inl rfl)
    rw [wp_bind]
    refine wp_checked (wp_ptracePoke (fun x => ?_) fun e x y => herr hphy _ y (Or.inr rfl))
    refine wp_storeSlot hi ?_
    rw [withScratch_proc, poke_saved]
    exact hok hphy x

/-- Both enabling and disabling store the logical state first, whatever comes of the process. -/
theorem wp_storeLog {f : SylvanM Unit} {v : Bool} (hi : i < maxBreakpoints) (hactive : s.inf.IsActive → wp F f Q E (s.setLog i v))
    (hidle : ¬s.inf.IsActive → Q () (s.setLog i v)) :
    wp F (do
      storeSlot i { (← Exec.get).inf.slot i with isEnabledLog := v }
      if (← Exec.get).inf.IsActive then f else pure ()) Q E s := by
  rw [wp_bind, wp_get, wp_bind]
  refine wp_storeSlot hi ?_
  rw [wp_bind, wp_get, wp_ite]
  split
  · rename_i hact
    exact hactive hact
  · rename_i hact
    exact hidle hact

theorem setLog_isEnabledPhy_self {v : Bool} (hi : i < maxBreakpoints) :
    ((s.setLog i v).inf.slot i).isEnabledPhy = (s.inf.slot i).isEnabledPhy := by
  rw [State.setLog_inf, Inferior.setLog, Inferior.slot_setSlot_self hi]

theorem wp_breakpointEnablePtr (hi : i < maxBreakpoints)
    (hskip : (s.inf.IsActive → (s.inf.slot i).isEnabledPhy = true) → Q () (s.setLog i true))
    (hok : s.inf.IsActive → (s.inf.slot i).isEnabledPhy = false →
      ∀ x, Q () (((s.setLog i true).install i).withScratch x))
    (herr : s.inf.IsActive → (s.inf.slot i).isEnabledPhy = false →
      ∀ c x, c.IsText → E c ((s.setLog i true).withScratch x)) :
    wp F (breakpointEnablePtr env i) Q E s := by
  refine wp_storeLog hi (fun hact => ?_) fun hact => hskip fun h => absurd h hact
  rw [← @setLog_isEnabledPhy_self s i true hi] at hskip hok herr
  exact wp_breakpointCreatePhybp hact hi (fun h => hskip fun _ => h) (hok hact) (herr hact)

theorem wp_breakpointDisablePtr (hi : i < maxBreakpoints)
    (hskip : (s.inf.IsActive → (s.inf.slot i).isEnabledPhy = false) → Q () (s.setLog i false))
    (hok : s.inf.IsActive → (s.inf.slot i).isEnabledPhy = true →
      ∀ x, Q () (((s.setLog i false).uninstall i).withScratch x))
    (herr : s.inf.IsActive → (s.inf.slot i).isEnabledPhy = true →
      ∀ c x, c.IsText → E c ((s.setLog i false).withScratch x)) :
    wp F (breakpointDisablePtr env i) Q E s := by
  refine wp_storeLog hi (fun hact => ?_) fun hact => hskip fun h => absurd h hact
  rw [← @setLog_isEnabledPhy_self s i false hi] at hskip hok herr
  exact wp_breakpointRemovePhybp hact hi (fun h => hskip fun _ => h) (hok hact) (herr hact)

/-! ### Entries by address -/

/-- What is done to the entry for an address -/
theorem wp_found {f : Nat → SylvanM Unit}
    (hnone : breakpointFindByAddr s.inf addr = none → ∀ x, E .breakpointNotFound (s.withScratch x))
    (hsome : ∀ i, breakpointFindByAddr s.inf addr = some i → wp F (f i) Q E s) :
    wp F (do
      match breakpointFindByAddr (← Exec.get).inf addr with
      | none => setCode .breakpointNotFound
      | some i => f i) Q E s := by
  rw [wp_bind, wp_get]
  cases h : breakpointFindByAddr s.inf addr with
  | none => exact hnone h _
  | some i => exact hsome i h

theorem wp_breakpointEnable
    (hnone : breakpointFindByAddr s.inf addr = none → ∀ x, E .breakpointNotFound (s.withScratch x))
    (hsome : ∀ i, breakpointFindByAddr s.inf addr = some i → wp F (breakpointEnablePtr env i) Q E s) :
    wp F (breakpointEnable env addr) Q E s := wp_found hnone hsome

theorem wp_breakpointDisable
    (hnone : breakpointFindByAddr s.inf addr = none → ∀ x, E .breakpointNotFound (s.withScratch x))
    (hsome : ∀ i, breakpointFindByAddr s.inf addr = some i → wp F (breakpointDisablePtr env i) Q E s) :
    wp F (breakpointDisable env addr) Q E s := wp_found hnone hsome

theorem wp_breakpointAppend {Q : Nat → State → Prop} (h0 : 0 ≤ s.inf.breakpointCount)
    (hi : s.inf.count < maxBreakpoints) (h : Q s.inf.count (s.setInf (s.inf.append addr))) :
    wp F (breakpointAppend addr) Q E s := by
  have hcount : s.inf.breakpointCount = (s.inf.count : Int) := (Int.toNat_of_nonneg h0).symm
  unfold breakpointAppend
  rw [wp_bind, wp_get, wp_bind, hcount]
  refine wp_slotIndex hi ?_
  rw [wp_bind, wp_setBreakpointCount, wp_bind]
  refine wp_storeSlot hi ?_
  rw [← hcount]
  exact h

theorem wp_breakpointSet (h0 : 0 ≤ s.inf.breakpointCount) (hle : s.inf.breakpointCount ≤ maxBreakpoints)
    (hfull : s.inf.breakpointCount = maxBreakpoints → ∀ x, E .breakpointLimitReached (s.withScratch x))
    (hdup : breakpointFindByAddr s.inf addr ≠ none → ∀ x, E .breakpointAlreadyExists (s.withScratch x))
    (hnew : s.inf.count < maxBreakpoints → breakpointFindByAddr s.inf addr = none →
      if s.inf.IsActive then wp F (breakpointEnablePtr env s.inf.count) Q E (s.setInf (s.inf.append addr))
      else Q () (s.setInf (s.inf.append addr))) :
    wp F (breakpointSet env addr) Q E s := by
  unfold breakpointSet
  rw [wp_bind, wp_get, wp_bind, wp_when]
  split
  · rename_i h
    exact hfull h _
  rename_i hfree
  rw [wp_bind, wp_when]
  split
  · rename_i h
    exact hdup h _
  rename_i hfind
  have hi : s.inf.count < maxBreakpoints := by
    have : (s.inf.count : Int) = s.inf.breakpointCount := Int.toNat_of_nonneg h0
    omega
  have := hnew hi (not_not.mp hfind)
  rw [wp_bind]
  refine wp_breakpointAppend h0 hi ?_
  rw [wp_ite]
  split
  · rename_i hact
    rwa [if_neg hact] at this
  · rename_i hact
    rwa [if_pos (not_not.mp hact)] at this

theorem wp_breakpointDrop (hn : 0 < s.inf.breakpointCount) (hle : s.inf.breakpointCount ≤ maxBreakpoints)
    (hi : i < maxBreakpoints) (h : Q () (s.setInf (s.inf.drop i))) : wp F (breakpointDrop i) Q E s := by
  unfold breakpointDrop
  rw [wp_bind, wp_get, wp_bind, wp_setBreakpointCount, wp_when]
  have hlast : s.inf.breakpointCount - 1 = ((s.inf.count - 1 : Nat) : Int) := by
    unfold Inferior.count
    omega
  rw [hlast]
  split
  · rename_i hne
    rw [wp_bind]
    refine wp_slotIndex (by omega) ?_
    rw [wp_bind, wp_get]
    refine wp_storeSlot hi ?_
    rw [Inferior.drop, if_neg (by omega), hlast] at h
    exact h
  · rename_i hz
    rw [Inferior.drop, if_pos (by omega), hlast] at h
    exact h

theorem wp_breakpointUnset
    (hnone : breakpointFindByAddr s.inf addr = none → ∀ x, E .breakpointNotFound (s.withScratch x))
    (hsome : ∀ i, breakpointFindByAddr s.inf addr = some i →
      wp F (breakpointDisablePtr env i) (fun _ t => wp F (breakpointDrop i) Q E t) E s) :
    wp F (breakpointUnset env addr) Q E s := wp_found hnone fun i h => wp_bind.mpr (hsome i h)

/-! ### Loops -/

/-- The invariant `I k` of `breakpointClear` holds with `k` entries left. -/
theorem wp_breakpointClear {I : Nat → State → Prop} {n : Nat} (h : I n s)
    (step : ∀ k t, k < n → I (k + 1) t → wp F (breakpointRemovePhybp env k)
      (fun _ u => I k (u.setInf { u.inf with breakpointCount := k })) E t) :
    wp F (breakpointClear env n) (fun _ t => I 0 t) E s := by
  induction n generalizing s with
  | zero => exact h
  | succ n ih =>
    unfold breakpointClear
    rw [wp_bind]
    refine (step n s (by omega) h).imp (fun _ t ht => ?_) fun _ _ => id
    rw [wp_bind, wp_setBreakpointCount]
    exact ih ht fun k t hk => step k t (by omega)

/-- For a live process `sylvan_breakpoint_clearall` goes over the entries from the last to the first. -/
theorem wp_breakpointClearall {I : Nat → State → Prop} (h0 : 0 ≤ s.inf.breakpointCount)
    (hdead : ¬s.inf.IsActive → Q () (s.setInf { s.inf with breakpointCount := 0 }))
    (hI : s.inf.IsActive → I s.inf.count s)
    (step : ∀ k t, k < s.inf.count → I (k + 1) t → wp F (breakpointRemovePhybp env k)
      (fun _ u => I k (u.setInf { u.inf with breakpointCount := k })) E t)
    (hQ : ∀ t, I 0 t → Q () t) : wp F (breakpointClearall env) Q E s := by
  unfold breakpointClearall
  rw [wp_bind, wp_get, wp_ite]
  split
  · rename_i hact
    exact hdead hact
  · rename_i hact
    rw [wp_bind, wp_when, if_neg (by omega)]
    exact (wp_breakpointClear (hI (not_not.mp hact)) step).imp (fun _ t => hQ t) fun _ _ => id

end Rules

end Sylvan
