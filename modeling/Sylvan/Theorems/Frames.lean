import Sylvan.Theorems.Status
import Sylvan.Theorems.TableMap

/-! What the calls of the library leave alone. A relation between states that does not look at what a function changes is
    kept by the function: the errors and the searches change the scratch part, a load the symbol tables, and what deals
    with a process the record of it and all of the inferior but its tables. -/

namespace Sylvan
open Exec

/-- `R` does not look at the scratch part. -/
class IgnoresScratch (R : State → State → Prop) : Prop extends IsPreorder State R where
  scratch (s : State) (x : Scratch) : R s (s.withScratch x)

/-- `R` does not look at the symbol tables either. -/
class IgnoresTables (R : State → State → Prop) : Prop extends IgnoresScratch R where
  table (s : State) (id : TableId) (table : SymTable) : R s (s.setTable id table)

/-- `R` does not look at the path and the arguments of the inferior either. -/
class IgnoresPaths (R : State → State → Prop) : Prop extends IgnoresScratch R where
  realpath (s : State) (path : Option String) : R s (s.setInf { s.inf with realpath := path })
  args (s : State) (args : Option String) : R s (s.setInf { s.inf with args := args })

/-- `R` does not look at the memory and the registers of the processes either. -/
class IgnoresImages (R : State → State → Prop) : Prop extends IgnoresScratch R where
  image (s : State) (pid : Pid) (p : Process) : R s (s.setProc pid p)

/-- Of the inferior and of what was asked of the system, `R` looks at most at the symbol tables and at the end of the
    inferior. -/
class IgnoresLife (R : State → State → Prop) : Prop extends IgnoresImages R where
  event (s : State) (e : Event) (going : e ≠ .freed) : R s (s.record e)
  inf (s : State) (inf : Inferior) (elf : inf.elfTable = s.inf.elfTable) (dwarf : inf.dwarfTable = s.inf.dwarfTable) :
    R s (s.setInf inf)

/-- `R` is kept by what edits the table of breakpoints and by what lets a process go. -/
class KeptByRelease (R : State → State → Prop) : Prop extends IgnoresImages R where
  edited {s t : State} : State.Edited s t → R s t
  request (env : Env) (req : Request) : req ≠ .attach → Keeps R (Sys.ptraceResume env req)
  dissociate : Keeps R dissociate

/-- `R` is kept by all that a call asks about the process of the inferior and does to it. -/
class KeptByCalls (R : State → State → Prop) : Prop extends KeptByRelease R where
  wait (env : Env) (blocking : Bool) : Keeps R (updateInfStatus env blocking)
  kill (env : Env) : Keeps R (kill env)

instance {R : State → State → Prop} [IgnoresLife R] : IgnoresPaths R where
  realpath s _ := IgnoresLife.inf s _ rfl rfl
  args s _ := IgnoresLife.inf s _ rfl rfl

section
variable {R : State → State → Prop} {α : Type} {env : Env} {code : Code} {text : String} {id : TableId}

/-! ### Errors and answers -/

section Handled
variable [IsPreorder State R] {call : SylvanM (Except Errno α)} {onError : Errno → SylvanM α}

theorem keeps_handled (hc : Keeps R call) (he : ∀ e, Keeps R (onError e)) : Keeps R (handled call onError) := by
  refine Keeps.bind hc fun r => ?_
  cases r with
  | ok a => exact Keeps.pure a
  | error e => exact he e

theorem keeps_retry (hc : Keeps R call) : ∀ n, Keeps R (Sys.retry call n)
  | 0 => Keeps.fault _
  | n + 1 => by
    refine Keeps.bind hc fun r => ?_
    cases r with
    | ok a => exact Keeps.pure _
    | error e => exact Keeps.ite (fun _ => keeps_retry hc n) fun _ => Keeps.pure _

theorem keeps_assert {c : Prop} [Decidable c] : Keeps R (assert c) := Keeps.when fun _ => Keeps.fault _

end Handled

section Scratch
variable [IgnoresScratch R]

theorem keeps_setMessage : Keeps R (setMessage code text : SylvanM α) := fun s => IgnoresScratch.scratch s _

theorem keeps_setCode : Keeps R (setCode code : SylvanM α) := fun s => IgnoresScratch.scratch s _

theorem keeps_setErrnoMsg : Keeps R (setErrnoMsg env code text : SylvanM α) := fun s => IgnoresScratch.scratch s _

theorem keeps_setErrno {e : Errno} : Keeps R (setErrno e) := fun s => IgnoresScratch.scratch s _

theorem keeps_returnCode : Keeps R (returnCode code) :=
  Keeps.ite (fun _ => Keeps.modify fun s => IgnoresScratch.scratch s _) fun _ => keeps_setCode

theorem keeps_tick : Keeps R Sys.tick := fun s => IgnoresScratch.scratch s _

theorem keeps_malloc : Keeps R (Sys.malloc env) := fun s => IgnoresScratch.scratch s _

theorem keeps_answered {answer : Nat → Except Failure α} : Keeps R (Sys.answered answer) := fun s =>
  wp_answered fun _ x => IgnoresScratch.scratch s x

theorem keeps_plain {answer : Nat → Option Failure} : Keeps R (Sys.plain answer) := keeps_answered

theorem keeps_checked {call : SylvanM (Except Errno α)} (hc : Keeps R call) : Keeps R (checked env code text call) :=
  keeps_handled hc fun _ => keeps_setErrnoMsg

/-! ### Paths -/

theorem keeps_realPath {path : String} : Keeps R (realPath env path) :=
  keeps_handled keeps_answered fun _ => Keeps.ite (fun _ => keeps_setCode) fun _ => keeps_setErrnoMsg

theorem keeps_findInDirectories {command : String} : ∀ tokens, Keeps R (findInDirectories env command tokens)
  | [] => keeps_setCode
  | token :: tokens => by
    unfold findInDirectories
    refine Keeps.bind keeps_malloc fun _ => Keeps.bind (Keeps.when fun _ => keeps_setCode) fun _ =>
      Keeps.bind keeps_plain fun r => ?_
    cases r with
    | ok => exact Keeps.pure _
    | error => exact keeps_findInDirectories tokens

theorem keeps_findInPATH {command : String} : Keeps R (findInPATH env command) := by
  unfold findInPATH
  refine Keeps.bind keeps_tick fun t => ?_
  cases env.getenv t "PATH" with
  | none => exact keeps_setCode
  | some path =>
    exact Keeps.bind keeps_malloc fun _ => Keeps.bind (Keeps.when fun _ => keeps_setCode) fun _ =>
      keeps_findInDirectories _

theorem keeps_canonicalPath {path : String} : Keeps R (canonicalPath env path) := by
  refine Keeps.bind (Keeps.attempt keeps_realPath) fun r => ?_
  cases r with
  | ok _ => exact Keeps.pure _
  | error _ => exact Keeps.ite (fun _ => keeps_findInPATH) fun _ => Keeps.error _

/-! ### Labels -/

theorem keeps_bsearch {name : String} {symbols : List Symbol} : ∀ fuel l u, Keeps R (bsearch name symbols fuel l u)
  | 0, _, _ => Keeps.pure _
  | fuel + 1, l, u => by
    unfold bsearch
    refine Keeps.ite (fun _ => Keeps.pure _) fun _ => ?_
    split
    · exact Keeps.fault _
    · split
      · exact Keeps.fault _
      · split
        · exact keeps_bsearch fuel _ _
        · exact keeps_bsearch fuel _ _
        · exact Keeps.pure _

theorem keeps_getLabelAddr {name : String} : Keeps R (getLabelAddr name) := by
  unfold getLabelAddr
  refine Keeps.bind Keeps.get fun _ => Keeps.bind (keeps_bsearch _ _ _) fun r => ?_
  cases r with
  | some sym => exact Keeps.pure _
  | none =>
    refine Keeps.bind (keeps_bsearch _ _ _) fun r => ?_
    cases r with
    | some sym => exact Keeps.pure _
    | none => exact keeps_setMessage

/-! ### The report of a child -/

theorem keeps_childFailed {report : List Byte} : Keeps R (childFailed env report) := by
  unfold childFailed
  refine Keeps.bind keeps_tick fun t => ?_
  dsimp only
  split
  · exact keeps_setMessage
  · refine Keeps.bind keeps_setErrno fun _ => ?_
    split
    · exact keeps_setErrnoMsg
    · exact keeps_setCode
    · exact keeps_setMessage
    · exact keeps_setMessage
    · exact keeps_returnCode

end Scratch

/-! ### Loading -/

section Tables
variable [IgnoresTables R]

theorem keeps_setTables {g : State → SymTable} : Keeps R (Exec.modify fun s => s.setTable id (g s) : SylvanM Unit) :=
  Keeps.modify fun s => IgnoresTables.table s id (g s)

theorem keeps_symTableInit : Keeps R (symTableInit env id) :=
  Keeps.bind keeps_malloc fun _ => Keeps.ite (fun _ => keeps_setTables) fun _ =>
    Keeps.bind keeps_setTables fun _ => keeps_setCode

theorem keeps_symInit : Keeps R (symInit env) := Keeps.bind keeps_symTableInit fun _ => keeps_symTableInit

theorem keeps_symDestroy : Keeps R symDestroy := Keeps.bind keeps_setTables fun _ => keeps_setTables

theorem keeps_symGrow : Keeps R (symGrow env id) :=
  Keeps.bind Keeps.get fun _ => Keeps.when fun _ => Keeps.bind keeps_setTables fun _ =>
    Keeps.bind keeps_malloc fun _ => Keeps.bind (Keeps.when fun _ => keeps_setCode) fun _ => keeps_setTables

theorem keeps_symAdd {name : String} {addr : Addr} : Keeps R (symAdd env id name addr) :=
  Keeps.bind keeps_symGrow fun _ => Keeps.bind Keeps.get fun _ => Keeps.bind (Keeps.when fun _ => Keeps.fault _)
    fun _ => Keeps.bind keeps_malloc fun _ => keeps_setTables

theorem keeps_symTryAdd {name : String} {addr : Addr} : Keeps R (symTryAdd env id name addr) :=
  Keeps.bind (Keeps.attempt keeps_symAdd) fun _ => Keeps.pure _

theorem keeps_symLoadDie {tag : Nat} {die : Die} : Keeps R (symLoadDie env id tag die) := by
  unfold symLoadDie
  split
  · exact Keeps.when fun _ => keeps_symTryAdd
  · exact Keeps.pure _

theorem keeps_symLoadDies : ∀ dies, Keeps R (symLoadDies env id dies)
  | [] => Keeps.pure _
  | die :: dies => by
    unfold symLoadDies
    split
    · exact Keeps.pure _
    · exact Keeps.bind keeps_symLoadDie fun _ => keeps_symLoadDies dies

theorem keeps_symLoadUnits : ∀ units, Keeps R (symLoadUnits env id units)
  | [] => Keeps.pure _
  | .error :: _ => Keeps.pure _
  | .unit none :: units => keeps_symLoadUnits units
  | .unit (some dies) :: units => Keeps.bind (keeps_symLoadDies dies) fun _ => keeps_symLoadUnits units

theorem keeps_symLoadDwarf {path : Option String} : Keeps R (symLoadDwarf env path id) := by
  unfold symLoadDwarf
  refine Keeps.bind keeps_tick fun t => ?_
  cases env.dwarf t path with
  | none => exact Keeps.error _
  | some units => exact keeps_symLoadUnits units

theorem keeps_symLoadElfSymbol {file : ElfFile} {sym : Option ElfSym} : Keeps R (symLoadElfSymbol env file id sym) := by
  unfold symLoadElfSymbol
  split
  · exact Keeps.pure _
  · split
    · exact Keeps.pure _
    · refine Keeps.ite (fun _ => ?_) fun _ => Keeps.pure _
      split
      · exact Keeps.when fun _ => keeps_symTryAdd
      · exact Keeps.pure _

theorem keeps_symLoadElfSection {file : ElfFile} {scn : ElfSection} : Keeps R (symLoadElfSection env file id scn) := by
  unfold symLoadElfSection
  refine Keeps.ite (fun _ => Keeps.pure _) fun _ => Keeps.ite (fun _ => Keeps.pure _) fun _ => ?_
  split
  · exact Keeps.pure _
  · exact Keeps.bind (Keeps.when fun _ => Keeps.fault _) fun _ => Keeps.each (fun _ => keeps_symLoadElfSymbol) _

theorem keeps_symLoadElf {path : Option String} : Keeps R (symLoadElf env path id) := by
  unfold symLoadElf
  refine Keeps.bind keeps_tick fun _ => Keeps.bind (Keeps.when fun _ => keeps_setCode) fun _ =>
    Keeps.bind (keeps_checked keeps_plain) fun _ => Keeps.bind keeps_tick fun t => ?_
  cases env.elf t path with
  | none => exact keeps_setCode
  | some file =>
    exact Keeps.bind (Keeps.when fun _ => keeps_setCode) fun _ => Keeps.each (fun _ => keeps_symLoadElfSection) _

theorem keeps_symSort : Keeps R (symSort env id) :=
  Keeps.bind Keeps.get fun _ => Keeps.bind (Keeps.when fun _ => Keeps.fault _) fun _ =>
    Keeps.bind keeps_tick fun _ => keeps_setTables

theorem keeps_symLoadTables : Keeps R (symLoadTables env) :=
  Keeps.bind keeps_symDestroy fun _ => Keeps.bind (Keeps.attempt keeps_symInit) fun _ => Keeps.bind Keeps.get fun _ =>
    Keeps.bind (Keeps.catching keeps_symLoadDwarf fun _ => Keeps.when fun _ => Keeps.error _) fun _ =>
      Keeps.bind keeps_symLoadElf fun _ => Keeps.bind keeps_symSort fun _ => keeps_symSort

end Tables

/-! ### The path and the arguments of the inferior -/

theorem keeps_setRealpath [IgnoresPaths R] {path : Option String} : Keeps R (setRealpath path) :=
  Keeps.modify fun s => IgnoresPaths.realpath s path

theorem keeps_setArgs [IgnoresPaths R] : ∀ {args : Option String}, Keeps R (setArgs env args)
  | none => Keeps.modify fun s => IgnoresPaths.args s none
  | some args => Keeps.bind keeps_malloc fun _ => Keeps.bind (Keeps.when fun _ => keeps_setCode) fun _ =>
    Keeps.modify fun s => IgnoresPaths.args s (some args)

theorem keeps_setFilepath [IgnoresTables R] [IgnoresPaths R] : ∀ {path : Option String}, Keeps R (setFilepath env path)
  | none => keeps_setRealpath
  | some _ => Keeps.bind keeps_canonicalPath fun _ => Keeps.bind (keeps_checked keeps_plain) fun _ =>
    Keeps.bind keeps_setRealpath fun _ => keeps_symLoadTables

/-! ### Registers and memory -/

section Images
variable [IgnoresImages R] {addr : Addr}

theorem keeps_ptracePeek : Keeps R (Sys.ptracePeek env addr) := fun s =>
  wp_ptracePeek (fun x _ => IgnoresScratch.scratch s x) fun x _ => IgnoresScratch.scratch s x

theorem keeps_ptracePoke {data : Word} : Keeps R (Sys.ptracePoke env addr data) := fun s =>
  wp_ptracePoke (fun x => trans_of R (IgnoresImages.image s _ _) (IgnoresScratch.scratch _ x))
    fun _ x => IgnoresScratch.scratch s x

theorem keeps_ptraceGetregs : Keeps R (Sys.ptraceGetregs env) := fun s =>
  wp_ptraceGetregs (fun x => IgnoresScratch.scratch s x) fun _ _ x => IgnoresScratch.scratch s x

theorem keeps_ptraceSetregs {regs : UserRegs} : Keeps R (Sys.ptraceSetregs env regs) := fun s =>
  wp_ptraceSetregs (fun x => trans_of R (IgnoresImages.image s _ _) (IgnoresScratch.scratch _ x))
    fun _ _ x => IgnoresScratch.scratch s x

theorem keeps_getMemory : Keeps R (getMemory env addr) :=
  Keeps.bind keeps_setErrno fun _ => Keeps.bind keeps_ptracePeek fun _ => Keeps.bind (fun s => refl_of R s) fun _ =>
    Keeps.bind (Keeps.when fun _ => keeps_setErrnoMsg) fun _ => Keeps.pure _

theorem keeps_setMemoryWords {bytes : List Byte} : Keeps R (setMemoryWords env addr bytes) := by
  induction addr, bytes using setMemoryWords.induct with
  | case1 addr b0 b1 b2 b3 b4 b5 b6 b7 bytes ih =>
    rw [setMemoryWords]
    exact Keeps.bind (keeps_handled keeps_ptracePoke fun _ => Keeps.fault _) fun _ => ih
  | case2 addr h =>
    rw [setMemoryWords, if_pos rfl]
    · exact Keeps.pure _
    · exact h
  | case3 addr bytes h hne =>
    rw [setMemoryWords, if_neg hne]
    · exact Keeps.bind (Keeps.catching keeps_getMemory fun _ => Keeps.fault _) fun _ =>
        keeps_handled keeps_ptracePoke fun _ => Keeps.fault _
    · exact h

theorem keeps_setMemory {data : List Byte} : Keeps R (setMemory env addr data) :=
  Keeps.ite (fun _ => keeps_returnCode) fun _ => Keeps.ite (fun _ => keeps_setErrnoMsg) fun _ => keeps_setMemoryWords

end Images

/-! ### Giving up a process -/

theorem keeps_edited [KeptByRelease R] {y : SylvanM α} (hy : Keeps State.Edited y) : Keeps R y :=
  hy.imp fun _ _ h => KeptByRelease.edited h

theorem keeps_release [KeptByRelease R] : Keeps R (release env) :=
  Keeps.bind (keeps_edited edited_unsetallPhybp) fun _ =>
    Keeps.bind (keeps_handled (KeptByRelease.request env .detach Request.noConfusion) fun _ => Keeps.when fun _ => keeps_setErrnoMsg)
      fun _ => KeptByRelease.dissociate

section Calls
variable [KeptByCalls R]

theorem keeps_detach : Keeps R (detach env) := by
  refine Keeps.bind Keeps.get fun _ => Keeps.bind (Keeps.when fun _ => keeps_setMessage) fun _ =>
    Keeps.bind (Keeps.attempt (KeptByCalls.wait env false)) fun r => ?_
  cases r with
  | ok _ => exact keeps_release
  | error code => exact Keeps.when fun _ => Keeps.error _

theorem keeps_terminateOrDetach : Keeps R (terminateOrDetach env) :=
  Keeps.bind Keeps.get fun _ => Keeps.ite (fun _ => Keeps.pure _) fun _ =>
    Keeps.catching (Keeps.ite (fun _ => KeptByCalls.kill env) fun _ => keeps_detach) fun _ => Keeps.when fun _ => Keeps.error _

/-! ### Resuming -/

theorem keeps_resume {req : Request} (hreq : req ≠ .attach) : Keeps R (do
    checked env code text (Sys.ptraceResume env req)
    updateInfStatus env true) :=
  Keeps.bind (keeps_checked (KeptByRelease.request env req hreq)) fun _ => KeptByCalls.wait env true

theorem keeps_rebuild : Keeps R (do
    breakpointResetPhybp
    breakpointSetallPhybp env) :=
  Keeps.bind (keeps_edited edited_breakpointResetPhybp) fun _ => keeps_edited edited_setallPhybp

theorem keeps_stepOver {regs : UserRegs} {i : Nat} : Keeps R (stepOver env regs i) :=
  Keeps.bind (keeps_checked keeps_ptraceSetregs) fun _ => Keeps.bind (keeps_edited edited_disablePtr) fun _ =>
    Keeps.bind (keeps_checked (KeptByRelease.request env .singlestep Request.noConfusion)) fun _ => Keeps.bind (KeptByCalls.wait env _) fun _ =>
      keeps_edited edited_enablePtr

theorem keeps_passBreakpoint : Keeps R (passBreakpoint env) := by
  refine Keeps.bind (Keeps.attempt (Keeps.bind (keeps_checked keeps_ptraceGetregs) fun regs =>
    Keeps.bind Keeps.get fun s => ?_)) fun r => ?_
  · dsimp only
    cases breakpointFindByAddr s.inf (regs .rip - 1) with
    | none => exact Keeps.error _
    | some i => exact Keeps.ite (fun _ => Keeps.error _) fun _ => keeps_stepOver
  · cases r with
    | ok _ => exact Keeps.pure _
    | error code => exact Keeps.ite (fun _ => Keeps.pure _) fun _ => Keeps.error _

theorem keeps_validateProcessState : Keeps R (validateProcessState env) :=
  Keeps.bind (KeptByCalls.wait env _) fun _ => Keeps.bind Keeps.get fun _ =>
    Keeps.when fun _ => Keeps.ite (fun _ => keeps_setMessage) fun _ => keeps_setMessage

/-- A call that looks at the process first. -/
theorem keeps_checkedAccess {y : SylvanM α} (hy : Keeps R y) : Keeps R (do
    updateInfStatus env false
    Exec.when (¬(← Exec.get).inf.IsActive) (setMessage code text)
    y) :=
  Keeps.bind (KeptByCalls.wait env _) fun _ => Keeps.bind Keeps.get fun _ =>
    Keeps.bind (Keeps.when fun _ => keeps_setMessage) fun _ => hy

theorem keeps_getRegs : Keeps R (getRegs env) := keeps_checkedAccess (keeps_checked keeps_ptraceGetregs)

theorem keeps_cont : Keeps R (cont env) :=
  Keeps.bind keeps_validateProcessState fun _ => Keeps.bind keeps_passBreakpoint fun _ => keeps_resume Request.noConfusion

theorem keeps_stepinst : Keeps R (stepinst env) :=
  Keeps.bind keeps_validateProcessState fun _ => Keeps.bind keeps_passBreakpoint fun _ =>
    Keeps.ite (fun _ => Keeps.pure _) fun _ => keeps_resume Request.noConfusion

/-- The calls that neither take a process nor load a file nor end the inferior. -/
theorem Op.keeps [IgnoresPaths R] (op : Op) (hattach : ∀ pid, op ≠ .attach pid) (hrun : op ≠ .run)
    (hload : ∀ path, op ≠ .setFilepath path) (hdestroy : op ≠ .destroy) : Keeps R (op.call env) := by
  cases op with
  | attach pid => exact absurd rfl (hattach pid)
  | detach => exact keeps_detach
  | run => exact absurd rfl hrun
  | cont => exact keeps_cont
  | stepinst => exact keeps_stepinst
  | getRegs => exact Keeps.bind keeps_getRegs fun _ => Keeps.pure _
  | setRegs regs => exact keeps_checkedAccess (keeps_checked keeps_ptraceSetregs)
  | setFilepath path => exact absurd rfl (hload path)
  | setArgs args => exact keeps_setArgs
  | getMemory addr => exact Keeps.bind keeps_getMemory fun _ => Keeps.pure _
  | setMemory addr data => exact keeps_setMemory
  | setBreakpointFunction function => exact Keeps.bind keeps_getLabelAddr fun _ => keeps_edited edited_breakpointSet
  | breakpoint op => exact keeps_edited op.edited
  | clearall => exact keeps_edited edited_breakpointClearall
  | destroy => exact absurd rfl hdestroy

end Calls

/-! ### The life of the inferior -/

section Life
variable [IgnoresLife R] {s t : State} {pid : Pid}

/-- What edits the table changes nothing that `R` looks at. -/
theorem State.Edited.keeps (h : State.Edited s t) : R s t := by
  obtain ⟨m, hprocs⟩ : ∃ m, t.procs = Function.update s.procs s.inf.pid { s.proc with mem := m } := ⟨_, h.procs⟩
  have hinf : R s (s.setInf t.inf) := IgnoresLife.inf s t.inf (by rw [h.inf]) (by rw [h.inf])
  have hproc : R (s.setInf t.inf) ((s.setInf t.inf).setProc s.inf.pid { s.proc with mem := m }) := IgnoresImages.image _ _ _
  have heq : t = ((s.setInf t.inf).setProc s.inf.pid { s.proc with mem := m }).withScratch t.scratch := by
    obtain ⟨hidx, hcount, hfreed⟩ := h.registry
    show State.mk t.inf t.procs t.trace t.inferiorIdx t.inferiorCount t.freed t.scratch = _
    rw [hprocs, h.trace, hidx, hcount, hfreed]
    rfl
  rw [heq]
  exact trans_of R (trans_of R hinf hproc) (IgnoresScratch.scratch _ _)

theorem keeps_event {e : Event} {x : Scratch} (going : e ≠ .freed) : R s ((s.record e).withScratch x) :=
  trans_of R (IgnoresLife.event s e going) (IgnoresScratch.scratch _ x)

theorem keeps_kill_call {sig : Int} : Keeps R (Sys.kill env pid sig) := fun _ =>
  wp_kill (fun _ => keeps_event Event.noConfusion) fun _ _ => keeps_event Event.noConfusion

theorem keeps_waitpid : Keeps R (Sys.waitpid env pid) := fun s =>
  wp_waitpid (fun _ _ _ => keeps_event Event.noConfusion) fun _ x => IgnoresScratch.scratch s x

theorem keeps_ptraceResume {req : Request} : Keeps R (Sys.ptraceResume env req) := fun s =>
  wp_ptraceResume (fun _ x => trans_of R (trans_of R (IgnoresLife.event s _ Event.noConfusion) (IgnoresImages.image _ _ _))
    (IgnoresScratch.scratch _ x)) fun _ _ => keeps_event Event.noConfusion

theorem keeps_setInf {g : State → Inferior} (helf : ∀ s, (g s).elfTable = s.inf.elfTable)
    (hdwarf : ∀ s, (g s).dwarfTable = s.inf.dwarfTable) : Keeps R (Exec.modify fun s => s.setInf (g s) : SylvanM Unit) :=
  Keeps.modify fun s => IgnoresLife.inf s (g s) (helf s) (hdwarf s)

theorem keeps_setStatus {status : InferiorState} : Keeps R (setStatus status) := keeps_setInf (fun _ => rfl) fun _ => rfl

theorem keeps_dissociate : Keeps R dissociate := keeps_setInf (fun _ => rfl) fun _ => rfl

theorem Waits.keeps {c : Option Code} (h : Waits s c t) : R s t := by
  have hset : ∀ {u : State} (inf : Inferior) (x : Scratch), R s u → inf.elfTable = u.inf.elfTable →
      inf.dwarfTable = u.inf.dwarfTable → R s ((u.setInf inf).withScratch x) := fun inf x hu helf hdwarf =>
    trans_of R (trans_of R hu (IgnoresLife.inf _ inf helf hdwarf)) (IgnoresScratch.scratch _ x)
  cases h with
  | unchanged x _ => exact IgnoresScratch.scratch s x
  | stopped sig x _ => exact hset _ x (IgnoresLife.event s _ Event.noConfusion) rfl rfl
  | stoppedFor code sig x _ _ => exact hset _ x (IgnoresLife.event s _ Event.noConfusion) rfl rfl
  | running x _ => exact hset _ x (IgnoresLife.event s _ Event.noConfusion) rfl rfl
  | exited code x _ => exact hset _ x (IgnoresLife.event s _ Event.noConfusion) rfl rfl
  | terminated sig x _ => exact hset _ x (IgnoresLife.event s _ Event.noConfusion) rfl rfl
  | failed code x _ => exact IgnoresScratch.scratch s x
  | untraced code failed x _ _ => exact keeps_event Event.noConfusion
  | lost x _ => exact hset _ x (IgnoresLife.event s _ Event.noConfusion) rfl rfl

theorem keeps_updateInfStatus {blocking : Bool} : Keeps R (updateInfStatus env blocking) := fun s =>
  (wp_updateInfStatus (F := fun _ t => R s t) (fun x => IgnoresScratch.scratch s x) fun _ _ _ => keeps_event Event.noConfusion).imp
    (fun _ _ hw => hw.keeps) fun _ _ hw => hw.keeps

theorem keeps_kill : Keeps R (kill env) := by
  refine Keeps.bind Keeps.get fun _ => Keeps.ite (fun _ => Keeps.pure _) fun _ => Keeps.bind keeps_kill_call fun r => ?_
  cases r with
  | ok _ => exact Keeps.bind (keeps_checked (keeps_retry keeps_waitpid _)) fun _ => keeps_dissociate
  | error e => exact Keeps.bind (Keeps.when fun _ => keeps_setErrnoMsg) fun _ => keeps_dissociate

instance : KeptByCalls R where
  edited := State.Edited.keeps
  request _ _ _ := keeps_ptraceResume
  dissociate := keeps_dissociate
  wait _ _ := keeps_updateInfStatus
  kill _ := keeps_kill

theorem keeps_ptraceAttach : Keeps R (Sys.ptraceAttach env pid) := fun s =>
  wp_ptraceAttach (fun _ x _ => trans_of R (trans_of R (IgnoresLife.event s _ Event.noConfusion) (IgnoresImages.image _ _ _))
    (IgnoresScratch.scratch _ x)) fun _ _ => keeps_event Event.noConfusion

theorem keeps_fork : Keeps R (Sys.fork env) := fun s =>
  wp_fork (fun _ x => trans_of R (trans_of R (IgnoresLife.event s _ Event.noConfusion) (IgnoresImages.image _ _ _))
    (IgnoresScratch.scratch _ x)) fun _ x => IgnoresScratch.scratch s x

theorem keeps_attachedStatus : ∀ st, Keeps R (attachedStatus pid st)
  | .stopped _ => keeps_setStatus
  | .continued => keeps_setStatus
  | .exited _ => keeps_setMessage
  | .signaled _ => keeps_setMessage
  | .unknown => keeps_assert

theorem keeps_updateWaitStatus : ∀ st, Keeps R (updateWaitStatus st)
  | .stopped _ => keeps_setStatus
  | .continued => keeps_setStatus
  | .exited _ => keeps_setStatus
  | .signaled _ => keeps_setStatus
  | .unknown => keeps_assert

theorem keeps_attachWait : Keeps R (attachWait env pid) :=
  Keeps.bind (Keeps.attempt keeps_realPath) fun _ =>
    Keeps.bind (keeps_handled (keeps_retry keeps_waitpid _) fun _ => Keeps.ite (fun _ => keeps_setMessage) fun _ => keeps_setErrnoMsg)
      fun st => Keeps.bind (keeps_attachedStatus st) fun _ => keeps_setInf (fun _ => rfl) fun _ => rfl

/-- The part of `sylvan_attach` before the load. -/
def attachProcess (env : Env) (pid : Pid) : SylvanM Unit := do
  handled (Sys.kill env pid 0) fun e =>
    if e = ESRCH then setMessage .procNotFound s!"Process {pid} does not exist"
    else setErrnoMsg env .systemError "Check process existence"
  terminateOrDetach env
  handled (Sys.ptraceAttach env pid) fun e =>
    if e = EPERM then setMessage .ptraceAttachFailed s!"Permission denied to attach to process {pid}"
    else if e = ESRCH then setMessage .procNotFound s!"Process {pid} does not exist"
    else setErrnoMsg env .ptraceAttachFailed "ptrace attach"
  attachWait env pid

theorem attach_eq : attach env pid = (do
    attachProcess env pid
    symLoadTables env
    breakpointResetPhybp
    breakpointSetallPhybp env) := by
  simp only [attach, attachProcess, bind_assoc]

theorem keeps_attachProcess : Keeps R (attachProcess env pid) :=
  Keeps.bind (keeps_handled keeps_kill_call fun _ => Keeps.ite (fun _ => keeps_setMessage) fun _ => keeps_setErrnoMsg)
    fun _ => Keeps.bind keeps_terminateOrDetach fun _ =>
      Keeps.bind (keeps_handled keeps_ptraceAttach fun _ => Keeps.ite (fun _ => keeps_setMessage) fun _ =>
        Keeps.ite (fun _ => keeps_setMessage) fun _ => keeps_setErrnoMsg) fun _ => keeps_attachWait

theorem keeps_childStarted : Keeps R (childStarted env pid) := by
  refine Keeps.bind (keeps_checked (keeps_retry keeps_waitpid _)) fun st => ?_
  have hstarted : Keeps R (do
      updateWaitStatus st
      Exec.modify fun s => s.setInf { s.inf with pid, isAttached := false }
      breakpointResetPhybp
      breakpointSetallPhybp env
      checked env .ptraceContFailed "ptrace cont" (Sys.ptraceResume env .cont)
      updateInfStatus env true) :=
    Keeps.bind (keeps_updateWaitStatus st) fun _ => Keeps.bind (keeps_setInf (fun _ => rfl) fun _ => rfl) fun _ =>
      Keeps.bind (keeps_edited edited_breakpointResetPhybp) fun _ =>
        Keeps.bind (keeps_edited edited_setallPhybp) fun _ => keeps_resume Request.noConfusion
  cases st with
  | exited code => exact keeps_setMessage
  | signaled sig | stopped sig | continued | unknown => exact hstarted

theorem keeps_handleParent : Keeps R (handleParent env pid) :=
  Keeps.bind (keeps_checked keeps_plain) fun _ => Keeps.bind (keeps_retry keeps_answered _) fun _ =>
    Keeps.bind (keeps_checked keeps_plain) fun _ =>
      Keeps.bind (keeps_handled (Keeps.pure _) fun _ => keeps_setErrnoMsg) fun _ =>
        Keeps.ite (fun _ => keeps_childFailed) fun _ => keeps_childStarted

theorem keeps_run : Keeps R (run env) := by
  refine Keeps.bind Keeps.get fun s => ?_
  cases s.inf.realpath with
  | none => exact keeps_setMessage
  | some path =>
    exact Keeps.bind (keeps_checked keeps_plain) fun _ => Keeps.bind keeps_kill fun _ =>
      Keeps.bind (keeps_checked keeps_plain) fun _ =>
        Keeps.bind (keeps_handled keeps_fork fun _ => Keeps.bind keeps_plain fun _ =>
          Keeps.bind keeps_plain fun _ => keeps_setErrnoMsg) fun _ => keeps_handleParent

/-- The calls that load a file. -/
def Op.IsLoad (op : Op) : Prop := (∃ pid, op = .attach pid) ∨ ∃ path, op = .setFilepath path

theorem Op.keeps_life (op : Op) (hload : ¬op.IsLoad) (hdestroy : op ≠ .destroy) : Keeps R (op.call env) := by
  by_cases hrun : op = .run
  · subst hrun
    exact keeps_run
  · exact op.keeps (fun pid h => hload (Or.inl ⟨pid, h⟩)) hrun (fun path h => hload (Or.inr ⟨path, h⟩)) hdestroy

/-- What does not look at the symbol tables is kept by the calls that load a file as well. -/
theorem Op.keeps_load [IgnoresTables R] (op : Op) (hdestroy : op ≠ .destroy) : Keeps R (op.call env) := by
  by_cases hload : op.IsLoad
  · rcases hload with ⟨pid, rfl⟩ | ⟨path, rfl⟩
    · show Keeps R (Sylvan.attach env pid)
      rw [attach_eq]
      exact Keeps.bind keeps_attachProcess fun _ => Keeps.bind keeps_symLoadTables fun _ => keeps_rebuild
    · exact keeps_setFilepath
  · exact op.keeps_life hload hdestroy

end Life

end

end Sylvan
