import Sylvan.Theorems.CommandFrames
import Sylvan.Theorems.FilePaths
import Sylvan.Theorems.MemoryCommand
import Sylvan.Theorems.MemoryWrites
import Sylvan.Theorems.Resolution
import Sylvan.Ui.Startup

/-! The message of an error is the format that prints it. So a run of the debugger prints its errors as they are just if none of
    them quotes a percent sign: in the name of a function, in the path of a file or in that of the program. And the message of
    one of them lacks an argument before it is printed: that of a write which the process refuses. -/

namespace Sylvan
open Exec

/-! ### What a step quotes -/

/-- The error of the command may quote the text. -/
inductive Handler.Names (env : UiEnv) (command : Argv) : Handler → Session → String → Prop where
  | breakpointSet {s : Session} {text : CStr} {quoted : String} (h1 : command.arg 1 = some text) (h2 : command.arg 2 = none)
      (hname : text.char 0 ≠ '0') (h : Op.Names env.toEnv (.setBreakpointFunction text.text) s.state quoted) :
      Names env command .breakpointSet s quoted
  | run {s : Session} {quoted : String} (h1 : command.arg 1 = none) (h : Op.Names env.toEnv .run s.state quoted) :
      Names env command .run s quoted
  | file {s t : Session} {filepath : CStr} {quoted : String} (h1 : command.arg 1 = some filepath) (h2 : command.arg 2 = none)
      (hnew : Exec.when (s.state.inf.pid ≠ 0) (renewInferior env) s = .ok () t)
      (h : Op.Names env.toEnv (.setFilepath (some filepath.text)) t.state quoted) : Names env command .file s quoted

/-- What `debugger_main` does: it starts, takes turns of its loop, and ends. -/
inductive Stage where
  | start (options : List CmdOption) (operands : List CStr)
  | turn
  | finish

def Stage.run (env : UiEnv) : Stage → UiM Unit
  | start options operands => debuggerStart env options operands
  | turn => do
    let _ ← interfaceTurn env
    pure ()
  | finish => do
    let _ ← debuggerFinish env
    pure ()

/-- An error of the stage quotes the text. -/
inductive Stage.Names (env : UiEnv) : Stage → Session → String → Prop where
  | start {s t : Session} {u : State} {options : List CmdOption} {operands : List CStr} {cmdArgs : CmdArgs} {filepath : CStr}
      {quoted : String} (hargs : parseArgs options operands s = .ok cmdArgs t) (hpath : cmdArgs.filepath = some filepath)
      (hcreate : inferiorCreate env.toEnv t.state = .ok () u)
      (h : Op.Names env.toEnv (.setFilepath (some filepath.text)) { u with freed := false } quoted) :
      Names env (.start options operands) s quoted
  | turn {s t : Session} {line : Argv} {name : CStr} {cmd : Command} {quoted : String}
      (hread : getCommand env s = .ok (some line) t) (hname : line.arg 0 = some name) (hchar : name.char 0 ≠ '\x00')
      (hcmd : lookupCommand t.aliases name.text = some cmd) (h : cmd.handler.Names env line t quoted) : Names env .turn s quoted

/-- The process refuses one of the accesses of the write that the command makes. -/
def WriteRefused (env : UiEnv) (command : Argv) (s : Session) : Prop :=
  ∃ addr bytes t, writeTarget command s = .ok (addr, bytes) t ∧ addr ≠ 0 ∧
    ¬env.GrantsNext t.state.scratch.clock (accesses addr bytes).length

/-- The stage is a `memory_write` that the process refuses. -/
inductive Stage.Refused (env : UiEnv) : Stage → Session → Prop where
  | turn {s t : Session} {line : Argv} {name : CStr} {cmd : Command} (hread : getCommand env s = .ok (some line) t)
      (hname : line.arg 0 = some name) (hchar : name.char 0 ≠ '\x00') (hcmd : lookupCommand t.aliases name.text = some cmd)
      (hwrites : cmd.handler = .writeMemory) (h : WriteRefused env line t) : Refused env .turn s

/-- No text that the stage quotes has a percent sign, and the stage is not a write that is refused. -/
structure Stage.Quiet (env : UiEnv) (stage : Stage) (s : Session) : Prop where
  plain : ∀ text, stage.Names env s text → Plain text
  granted : ¬stage.Refused env s

/-- The stages are taken one after the other, each from the session beside it, and lead to the session `t`. A stage may end
    on a fault. -/
inductive Staged (env : UiEnv) (s : Session) : List (Stage × Session) → Session → Prop where
  | start : Staged env s [] s
  | stage {taken : List (Stage × Session)} {t u : Session} (stage : Stage) (h : Staged env s taken t) (hends : (stage.run env).Ends t u) :
    Staged env s (taken ++ [(stage, t)]) u

/-! ### What is printed -/

/-- Nothing is said of the states. -/
def AnyStates (_ _ : State) : Prop := True

instance : IsPreorder State AnyStates where
  refl _ := trivial
  trans _ _ _ _ _ := trivial

instance : IgnoresScratch AnyStates where
  scratch _ _ := trivial

/-- What was printed from `s` to `t` was printed as it is. -/
def PrintedAsIs (s t : Session) : Prop := Follows .verbatim AnyStates s t

instance : IsPreorder Session PrintedAsIs := inferInstanceAs (IsPreorder Session (Follows .verbatim AnyStates))

/-- However `x` ends, what it printed was printed as it is, and no message lacked an argument. -/
def PrintsAsIs {α : Type} (x : UiM α) (s : Session) : Prop :=
  wp (fun f t => f ≠ .missingArgument ∧ PrintedAsIs s t) x (fun _ => PrintedAsIs s) (fun _ => PrintedAsIs s) s

/-- Wherever `x` starts, it prints what it prints as it is. -/
abbrev KeepsAsIs {α : Type} (x : UiM α) : Prop := KeepsTo Printing.verbatim.Ends PrintedAsIs x

section
variable {α β : Type} {env : UiEnv} {s t : Session} {command : Argv}

theorem keeps_anyStates {x : SylvanM α} : Keeps AnyStates x := fun s => by
  unfold wp
  cases x s <;> trivial

theorem keptByLibrary_anyStates : KeptByLibrary env AnyStates := fun _ _ => keeps_anyStates

theorem printsAsIs_of {x : UiM α} (hx : KeepsAsIs x) : PrintsAsIs x s := hx.both s

theorem PrintsAsIs.bind {x : UiM α} {f : α → UiM β} (hx : PrintsAsIs x s) (hf : ∀ a t, x s = .ok a t → PrintsAsIs (f a) t) :
    PrintsAsIs (x >>= f) s := by
  unfold PrintsAsIs at *
  refine wp_bind.mpr (wp_of (fun a t ht => ?_) (fun _ _ => hx.error) fun _ _ => hx.fault)
  have hst : PrintedAsIs s t := hx.ok ht
  exact (hf a t ht).mono (fun _ _ => trans_of PrintedAsIs hst) (fun _ _ => trans_of PrintedAsIs hst) fun _ _ h =>
    ⟨h.1, trans_of PrintedAsIs hst h.2⟩

/-! ### Calls of the library -/

theorem Op.Names.mayGarble {op : Op} {u : State} {text : String} (h : op.Names env.toEnv u text) : op.MayGarble := by
  cases h with
  | symbol => exact .setBreakpointFunction
  | file => exact .setFilepath
  | program => exact .run

theorem Op.Writes.mayGarble {op : Op} (h : op.Writes) : op.MayGarble := by
  cases h with
  | setMemory => exact .setMemory

/-- The message of a call that failed is plain, if what it quotes is, and only that of a write lacks an argument. -/
theorem Op.plain_message (henv : env.PlainTexts) (op : Op) {u : State} (hwrites : ¬op.Writes)
    (h : ∀ text, op.Names env.toEnv u text → Plain text) :
    wp (fun f _ => f ≠ .missingArgument) (op.call env.toEnv) (fun _ _ => True) (fun _ v => Plain v.scratch.lastError.message) u :=
  (op.told u).mono (fun _ _ => id) (fun _ _ htold => htold.2 henv h) fun _ _ htold hf => hwrites (htold hf)

theorem tellsCalls_verbatim (henv : env.PlainTexts) : Printing.verbatim.TellsCalls env := fun op hop _ =>
  (op.plain_message henv (fun h => hop h.mayGarble) fun _ h => absurd h.mayGarble hop).mono (fun _ _ => id) (fun _ _ h => h.error)
    fun _ _ => id

theorem printsAsIs_call (henv : env.PlainTexts) (op : Op) (hwrites : ¬op.Writes)
    (h : ∀ text, op.Names env.toEnv s.state text → Plain text) : PrintsAsIs (orLastError (op.call env.toEnv)) s := by
  unfold PrintsAsIs
  rw [wp_orLastError]
  refine (op.plain_message henv hwrites h).mono (fun _ _ _ => .quiet trivial rfl) (fun _ u hu => ?_) fun _ _ hf => ⟨hf, .quiet trivial rfl⟩
  refine ⟨trivial, [_], rfl, fun o ho => ?_⟩
  obtain rfl := List.mem_singleton.mp ho
  exact hu.error

/-- The message of a create that failed is plain. -/
theorem plain_inferiorCreate (henv : env.PlainTexts) :
    FailsWith (fun f _ => f ≠ .missingArgument) (fun _ v => Plain v.scratch.lastError.message) (inferiorCreate env.toEnv) := by
  have htold : FailsWith (fun f _ => f = .missingArgument → False) (Told env.toEnv fun _ => False) (inferiorCreate env.toEnv) :=
    told_inferiorCreate
  exact htold.imp (fun _ _ => id) fun _ _ h => h.2 henv fun _ => False.elim

theorem keeps_renewInferior (henv : env.PlainTexts) : KeepsAsIs (renewInferior env) := by
  have hdestroy : KeepsAsIs (orLastError (inferiorDestroy env.toEnv)) :=
    keeps_orLastError keeps_anyStates (tellsCalls_verbatim henv .destroy nofun)
  have hcreate : KeepsAsIs (orLastError (inferiorCreate env.toEnv)) :=
    keeps_orLastError keeps_anyStates ((plain_inferiorCreate henv).imp (fun _ _ => id) fun _ _ h => h.error)
  exact KeepsTo.bind hdestroy fun _ => KeepsTo.bind hcreate fun _ => KeepsTo.modify fun _ => .quiet trivial rfl

/-! ### The commands -/

/-- A search looks at the tables only. -/
theorem Op.Names.of_inf {u v : State} {function text : String} (hinf : v.inf = u.inf)
    (h : Op.Names env.toEnv (.setBreakpointFunction function) v text) : Op.Names env.toEnv (.setBreakpointFunction function) u text := by
  cases h with
  | symbol hdwarf helf => exact .symbol (hinf ▸ hdwarf) (hinf ▸ helf)

theorem printsAsIs_handleBreakpointSet (henv : env.PlainTexts)
    (h : ∀ text, Handler.Names env command .breakpointSet s text → Plain text) : PrintsAsIs (handleBreakpointSet env command) s := by
  unfold handleBreakpointSet
  cases h1 : command.arg 1 with
  | none => exact (keeps_rejectUsage rfl).both s
  | some text =>
    cases h2 : command.arg 2 with
    | some _ => exact keeps_invalidArguments.both s
    | none =>
      refine PrintsAsIs.bind (printsAsIs_of keeps_invalidIf) fun _ t ht => ?_
      cases ht
      have hconverted : ∀ r : Numeral.Result,
          wp (fun _ _ => False) (converted r) (fun _ u => u.state.inf = s.state.inf) (fun _ _ => False) s := fun r => wp_converted.mpr rfl
      refine PrintsAsIs.bind (keeps_converted.both s) fun r u hu => ?_
      dsimp only
      by_cases hname : text.char 0 ≠ '0'
      · rw [if_pos hname]
        refine PrintsAsIs.bind (printsAsIs_call henv (.setBreakpointFunction text.text) nofun fun quoted hquoted => ?_) fun _ v _ =>
          keeps_printOk.both v
        exact h quoted (.breakpointSet h1 h2 hname (hquoted.of_inf ((hconverted _).ok hu)))
      · rw [if_neg hname]
        exact (keeps_setAt keptByLibrary_anyStates (tellsCalls_verbatim henv)).both u

theorem printsAsIs_handleRun (henv : env.PlainTexts) (h : ∀ text, Handler.Names env command .run s text → Plain text) :
    PrintsAsIs (handleRun env command) s := by
  unfold handleRun
  cases h1 : command.arg 1 with
  | some _ => exact keeps_invalidArguments.both s
  | none =>
    refine PrintsAsIs.bind (printsAsIs_of keeps_invalidIf) fun _ t ht => ?_
    cases ht
    exact printsAsIs_call henv .run nofun fun quoted hquoted => h quoted (.run h1 hquoted)

theorem printsAsIs_handleFile (henv : env.PlainTexts) (h : ∀ text, Handler.Names env command .file s text → Plain text) :
    PrintsAsIs (handleFile env command) s := by
  unfold handleFile
  cases h1 : command.arg 1 with
  | none => exact (keeps_rejectText rfl).both s
  | some filepath =>
    cases h2 : command.arg 2 with
    | some _ => exact keeps_invalidArguments.both s
    | none =>
      refine PrintsAsIs.bind (printsAsIs_of keeps_invalidIf) fun _ t ht => ?_
      cases ht
      refine PrintsAsIs.bind (keeps_inferior.both s) fun inf t ht => ?_
      cases ht
      refine PrintsAsIs.bind ((KeepsTo.when fun _ => keeps_renewInferior henv).both s) fun _ t hnew => ?_
      refine PrintsAsIs.bind (printsAsIs_call henv (.setFilepath (some filepath.text)) nofun fun quoted hquoted => ?_) fun _ u _ => ?_
      · exact h quoted (.file h1 h2 hnew hquoted)
      · exact (KeepsTo.bind keeps_inferior fun _ => keeps_printOk).both u

theorem keeps_handleAddInferior (henv : env.PlainTexts) : KeepsAsIs (handleAddInferior env command) :=
  KeepsTo.bind keeps_invalidIf fun _ => KeepsTo.bind (keeps_renewInferior henv) fun _ => KeepsTo.bind keeps_inferior fun _ => keeps_printOk

theorem keeps_handleAttach (henv : env.PlainTexts) : KeepsAsIs (handleAttach env command) := by
  unfold handleAttach
  cases command.arg 1 with
  | none => exact keeps_rejectUsage rfl
  | some text =>
    refine KeepsTo.bind keeps_invalidIf fun _ => KeepsTo.bind keeps_converted fun _ =>
      KeepsTo.bind (keeps_rejectIf (keeps_reject ⟨trivial, trivial⟩)) fun _ => KeepsTo.bind keeps_inferior fun _ => KeepsTo.bind (KeepsTo.when fun _ => keeps_renewInferior henv) fun _ => ?_
    exact KeepsTo.bind (keeps_call keptByLibrary_anyStates (tellsCalls_verbatim henv) (.attach _) Op.noConfusion nofun) fun _ =>
      KeepsTo.bind keeps_inferior fun _ => keeps_printOk

/-- A write of the user reaches the process with bytes to write, or says what is wrong with the texts. -/
theorem keeps_writeTarget : KeepsAsIs (writeTarget command) := by
  have husage : KeepsAsIs (reject writeUsage : UiM (Addr × List Byte)) := keeps_reject ⟨verbatim_error rfl, trivial, trivial⟩
  have husage' : KeepsAsIs (reject writeUsage : UiM Unit) := keeps_reject ⟨verbatim_error rfl, trivial, trivial⟩
  unfold writeTarget
  cases command.arg 1 with
  | none => exact husage
  | some text =>
    cases command.arg 2 with
    | none => exact husage
    | some value =>
      exact KeepsTo.bind (keeps_rejectIf husage') fun _ => KeepsTo.bind (keeps_parseAddr keeps_rejectArgs) fun _ =>
        KeepsTo.bind (keeps_collectBytes _ _) fun _ => KeepsTo.pure _

theorem printsAsIs_handleWriteMemory (henv : env.PlainTexts) (h : ¬WriteRefused env command s) :
    PrintsAsIs (handleWriteMemory env command) s := by
  rw [handleWriteMemory_eq, handleWriteMemoryWith_eq]
  refine PrintsAsIs.bind (keeps_writeTarget.both s) fun p t ht => ?_
  refine PrintsAsIs.bind ?_ fun _ u _ => keeps_printOk.both u
  unfold PrintsAsIs
  rw [wp_orLastError]
  have hplain : ∀ {c u}, setMemory env.toEnv p.1 p.2 t.state = .error c u → Plain u.scratch.lastError.message := fun hu =>
    ((told_setMemory t.state).error hu).2 henv fun _ => False.elim
  refine wp_of (fun _ _ _ => .quiet trivial rfl) (fun _ u hu => ?_) fun f u hu => ?_
  · refine ⟨trivial, [_], rfl, fun o ho => ?_⟩
    obtain rfl := List.mem_singleton.mp ho
    exact (hplain hu).error
  · obtain ⟨haddr, hrefused⟩ := setMemory_fault_grants hu
    exact absurd ⟨p.1, p.2, t, ht, haddr, hrefused⟩ h

/-- A command prints its errors as they are, if what they quote is plain and no write of it is refused. -/
theorem Handler.printsAsIs (henv : env.PlainTexts) (handler : Handler) (h : ∀ text, handler.Names env command s text → Plain text)
    (hgranted : handler = .writeMemory → ¬WriteRefused env command s) : PrintsAsIs (handler.body env command) s := by
  by_cases hrenews : handler.IsRenewal
  · cases hrenews with
    | addInferior => exact (keeps_handleAddInferior henv).both s
    | file => exact printsAsIs_handleFile henv h
    | attach => exact (keeps_handleAttach henv).both s
  · by_cases hgarbles : handler.MayGarble
    · cases hgarbles with
      | breakpointSet => exact printsAsIs_handleBreakpointSet henv h
      | run => exact printsAsIs_handleRun henv h
      | writeMemory => exact printsAsIs_handleWriteMemory henv (hgranted rfl)
    · exact (handler.keeps keptByLibrary_anyStates (tellsCalls_verbatim henv) hrenews (absurd · hgarbles)).both s

/-! ### The stages -/

theorem printsAsIs_turn (henv : env.PlainTexts) (h : Stage.turn.Quiet env s) : PrintsAsIs (interfaceTurn env) s := by
  unfold interfaceTurn
  refine PrintsAsIs.bind (keeps_getCommand.both s) fun line t hread => ?_
  cases line with
  | none => exact (KeepsTo.pure 0).both t
  | some line =>
    dsimp only
    cases hname : line.arg 0 with
    | none => exact (KeepsTo.pure 0).both t
    | some name =>
      by_cases hchar : name.char 0 = '\x00'
      · exact (KeepsTo.ite (fun _ => KeepsTo.pure 0) (absurd hchar)).both t
      · dsimp only
        rw [if_neg hchar]
        unfold handleCommand
        rw [hname]
        refine PrintsAsIs.bind (KeepsTo.get.both t) fun u v hv => ?_
        cases hv
        cases hcmd : lookupCommand t.aliases name.text with
        | none => exact (KeepsTo.bind keeps_printf fun _ => KeepsTo.bind keeps_printf fun _ => KeepsTo.pure 0).both t
        | some cmd =>
          have hbody := Handler.printsAsIs henv cmd.handler
            (fun quoted hquoted => h.plain quoted (.turn hread hname hchar hcmd hquoted))
            fun hwrites hrefused => h.granted (.turn hread hname hchar hcmd hwrites hrefused)
          unfold PrintsAsIs at *
          unfold Handler.call
          rw [wp_catching, wp_bind]
          exact hbody

theorem keeps_parseOption {cmdArgs : CmdArgs} : ∀ option, KeepsAsIs (parseOption cmdArgs option)
  | .help => by
    refine KeepsTo.bind ?_ fun _ => KeepsTo.error _
    exact KeepsTo.bind keeps_printf fun _ => KeepsTo.bind keeps_printf fun _ => KeepsTo.bind keeps_printf fun _ =>
      KeepsTo.bind keeps_printf fun _ => keeps_printf
  | .version => KeepsTo.bind keeps_printf fun _ => KeepsTo.error _
  | .args _ => KeepsTo.pure _
  | .attach _ => by
    refine KeepsTo.bind ?_ fun _ => KeepsTo.pure _
    refine KeepsTo.bind (KeepsTo.when fun _ => keeps_answer fun _ => ⟨_, _, rfl⟩) fun _ => KeepsTo.ite (fun _ => ?_) fun _ => KeepsTo.pure _
    exact KeepsTo.bind (keeps_print trivial) fun _ => KeepsTo.error _
  | .invalid => KeepsTo.bind (keeps_print (verbatim_stderr rfl)) fun _ => KeepsTo.error _

theorem keeps_parseOperands {cmdArgs : CmdArgs} {operands : List CStr} : KeepsAsIs (parseOperands cmdArgs operands) := by
  unfold parseOperands
  split
  · exact KeepsTo.pure _
  · refine KeepsTo.bind (KeepsTo.when fun _ => ?_) fun _ => KeepsTo.pure _
    exact KeepsTo.bind (keeps_print (verbatim_stderr rfl)) fun _ => KeepsTo.bind (KeepsTo.each (fun _ => keeps_print (by trivial)) _) fun _ =>
      keeps_print (verbatim_stderr rfl)

theorem keeps_parseArgs {options : List CmdOption} {operands : List CStr} : KeepsAsIs (parseArgs options operands) :=
  KeepsTo.bind (KeepsTo.foldlM (fun _ => keeps_parseOption) options .zero) fun _ => keeps_parseOperands

theorem printsAsIs_errorLast (h : Plain s.state.scratch.lastError.message) : PrintsAsIs errorLast s := by
  refine PrintsAsIs.bind (printsAsIs_of KeepsTo.get) fun u t ht => ?_
  cases ht
  exact (KeepsTo.bind (keeps_print h.stderr) fun _ => keeps_print (verbatim_stderr rfl)).both s

/-- The error that a call returns is still the last one. -/
theorem plain_of_lib {F : Fault → State → Prop} {x : SylvanM α} {c : Code}
    (h : wp F x (fun _ _ => True) (fun _ u => Plain u.scratch.lastError.message) s.state) (ht : lib x s = .ok (.error c) t) :
    Plain t.state.scratch.lastError.message := by
  have hlib : wp (fun _ _ => True) (lib x) (fun r t => ∀ c, r = .error c → Plain t.state.scratch.lastError.message)
      (fun _ _ => True) s := wp_lib.mpr (h.mono (fun _ _ _ _ => nofun) (fun _ _ h _ _ => h) fun _ _ _ => trivial)
  exact hlib.ok ht c rfl

theorem ok_of_lib {x : SylvanM α} {a : α} (h : lib x s = .ok (.ok a) t) : x s.state = .ok a t.state := by
  unfold lib at h
  split at h
  · rename_i hx
    cases h
    exact hx
  · cases h
  · cases h

/-- A call whose messages have their arguments -/
theorem printsAsIs_lib {E : Code → State → Prop} {x : SylvanM α} (h : wp (fun f _ => f ≠ .missingArgument) x (fun _ _ => True) E s.state) :
    PrintsAsIs (lib x) s :=
  wp_lib.mpr (h.mono (fun _ _ _ => .quiet trivial rfl) (fun _ _ _ => .quiet trivial rfl) fun _ _ hf => ⟨hf, .quiet trivial rfl⟩)

theorem printsAsIs_orPrinted (henv : env.PlainTexts) (op : Op) (hwrites : ¬op.Writes)
    (h : ∀ text, op.Names env.toEnv s.state text → Plain text) : PrintsAsIs (orPrinted (op.call env.toEnv)) s := by
  have hplain := op.plain_message henv hwrites h
  refine PrintsAsIs.bind (printsAsIs_lib hplain) fun r t ht => ?_
  cases r with
  | ok _ => exact (KeepsTo.pure _).both t
  | error c => exact printsAsIs_errorLast (plain_of_lib hplain ht)

/-- A call that quotes nothing, where it is made at all -/
theorem keeps_orPrintedIf (henv : env.PlainTexts) {c : Prop} [Decidable c] (op : Op) (hop : ¬op.MayGarble) :
    KeepsAsIs (Exec.when c (orPrinted (op.call env.toEnv))) :=
  KeepsTo.when fun _ => .of_wp fun _ => printsAsIs_orPrinted henv op (fun h => hop h.mayGarble) fun _ h => absurd h.mayGarble hop

theorem printsAsIs_start (henv : env.PlainTexts) {options : List CmdOption} {operands : List CStr}
    (h : (Stage.start options operands).Quiet env s) : PrintsAsIs (debuggerStart env options operands) s := by
  refine PrintsAsIs.bind (keeps_parseArgs.both s) fun cmdArgs t hargs => ?_
  refine PrintsAsIs.bind (printsAsIs_lib (plain_inferiorCreate henv t.state)) fun r u hu => ?_
  cases r with
  | error c =>
    exact (printsAsIs_errorLast (plain_of_lib (plain_inferiorCreate henv t.state) hu)).bind fun _ v _ => (KeepsTo.error _).both v
  | ok _ =>
    refine PrintsAsIs.bind (Follows.quiet trivial rfl) fun _ v hv => ?_
    cases hv
    refine PrintsAsIs.bind ?_ fun _ w _ => ?_
    · cases hpath : cmdArgs.filepath with
      | none => exact (KeepsTo.pure ()).both _
      | some filepath =>
        exact printsAsIs_orPrinted henv (.setFilepath (some filepath.text)) nofun fun quoted hquoted =>
          h.plain quoted (.start hargs hpath (ok_of_lib hu) hquoted)
    · have hset := keeps_orPrintedIf henv (c := cmdArgs.fileArgs.isSome) (.setArgs (cmdArgs.fileArgs.map CStr.text)) nofun
      have hattach := keeps_orPrintedIf henv (c := cmdArgs.isAttached) (.attach cmdArgs.pid) nofun
      exact (KeepsTo.bind hset fun _ => hattach).both w

theorem keeps_finish (henv : env.PlainTexts) : KeepsAsIs (debuggerFinish env) := .of_wp fun s => by
  have hplain := @Op.plain_message env henv .destroy s.state nofun fun _ h => absurd h.mayGarble nofun
  refine PrintsAsIs.bind (printsAsIs_lib hplain) fun r t ht => ?_
  cases r with
  | ok _ => exact (KeepsTo.pure _).both t
  | error c => exact (printsAsIs_errorLast (plain_of_lib hplain ht)).bind fun _ u _ => (KeepsTo.pure _).both u

/-- One stage prints its errors as they are, if what they quote is plain. -/
theorem Stage.printsAsIs (henv : env.PlainTexts) (stage : Stage) (h : stage.Quiet env s) : PrintsAsIs (stage.run env) s := by
  cases stage with
  | start options operands => exact printsAsIs_start henv h
  | turn => exact (printsAsIs_turn henv h).bind fun _ t _ => (KeepsTo.pure ()).both t
  | finish => exact (KeepsTo.bind (keeps_finish henv) fun _ => KeepsTo.pure ()).both s

end

/-! ### A percent sign that is quoted -/

section
variable {α β : Type} {env : UiEnv} {s t u : Session} {v w : State} {command : Argv} {text quoted : String}

/-- What is read at the front of a text is in the message, which is cut further on. -/
theorem mem_errnoText {c : Char} {description : String} (h : c ∈ text.toList.take (errmsgBufferSize - 1)) :
    c ∈ (errnoText text description).toList := by
  unfold errnoText
  split
  · rw [toList_cut, String.append_assoc, String.toList_append, List.take_append]
    exact List.mem_append_left _ h
  · rwa [toList_cut]

theorem mem_notExecutable {c : Char} {path rest description : String} (h : c ∈ path.toList.take 2041) :
    c ∈ (errnoText ("File '" ++ path ++ rest) description).toList := by
  have hlen : errmsgBufferSize - 1 - "File '".length = 2041 := by decide
  refine mem_errnoText ?_
  simp only [String.toList_append, List.take_append, String.length_toList, hlen]
  exact List.mem_append_left _ (List.mem_append_right _ h)

/-- A check that fails -/
theorem checked_refused {code : Code} {answer : Nat → Option Failure} {e : Failure} (h : answer v.scratch.clock = some e) :
    checked env.toEnv code text (Sys.plain answer) v = setErrnoMsg env.toEnv code text (v.withScratch (v.scratch.fail e)) := by
  have hcall : Sys.plain answer v = .ok (.error e.errno) (v.withScratch (v.scratch.fail e)) := by
    unfold Sys.plain Sys.answered
    simp only [h]
  unfold checked handled
  rw [bind_of_ok hcall]

theorem SymTable.Lacks.lookup {table : SymTable} {name : String} (h : table.Lacks name) : ∀ v, symLookup table name v = .ok none v := by
  obtain ⟨s, t, h⟩ := h
  exact symLookup_of_ok h

theorem fails_of_errnoMsg {op : Op} {code : Code} {u : State} (hcall : op.call env.toEnv v = setErrnoMsg env.toEnv code text u)
    (hmem : ∀ description, '%' ∈ (errnoText text description).toList) :
    ∃ code w, op.call env.toEnv v = .error code w ∧ ¬Plain w.scratch.lastError.message :=
  ⟨code, _, hcall, not_not.mpr (hmem _)⟩

/-- The call fails, and the percent sign is in its message. -/
theorem Op.Names.fails {op : Op} (h : op.Names env.toEnv v quoted) (hquoted : ¬Plain quoted) :
    ∃ code w, op.call env.toEnv v = .error code w ∧ ¬Plain w.scratch.lastError.message := by
  have hmem := not_not.mp hquoted
  cases h with
  | @symbol _ name hdwarf helf =>
    have hcall : getLabelAddr name v = setMessage .symbolNotFound (cut 256 name ++ " not found") v :=
      getLabelAddr_none (hdwarf.lookup v) (helf.lookup v)
    refine ⟨_, _, bind_of_error hcall, not_not.mpr ?_⟩
    show '%' ∈ (messageText (cut 256 name ++ " not found")).toList
    have hsize : errmsgBufferSize - 1 - 1 = 2046 := rfl
    rw [toList_cut] at hmem
    rw [messageText, toList_cut, String.toList_append, toList_cut, List.take_append, List.take_take, hsize]
    exact List.mem_append_left _ hmem
  | @file _ t filepath newpath e hpath haccess =>
    have hcall : Sylvan.setFilepath env.toEnv (some filepath) v = setErrnoMsg env.toEnv .notExecutable
        (if filepath.length ≤ 256 then s!"File '{filepath}' is not executable"
          else s!"File '{cut 256 filepath}...' is not executable") (t.withScratch (t.scratch.fail e)) :=
      (bind_of_ok hpath).trans (bind_of_error (checked_refused haccess))
    have hfront : '%' ∈ (cut 256 filepath).toList.take 2041 := by
      rw [toList_cut] at hmem ⊢
      rwa [List.take_take]
    refine @fails_of_errnoMsg env v _ (.setFilepath (some filepath)) _ _ hcall fun description => ?_
    split
    · rename_i hlen
      rw [cut_of_length_le hlen] at hfront
      exact @mem_notExecutable '%' filepath "' is not executable" description hfront
    · exact @mem_notExecutable '%' (cut 256 filepath) "...' is not executable" description hfront
  | @program _ path e hpath haccess =>
    have hcall : Sylvan.run env.toEnv v =
        setErrnoMsg env.toEnv .notExecutable s!"File '{path}' is not executable" (v.withScratch (v.scratch.fail e)) := by
      unfold Sylvan.run
      rw [bind_of_ok (show Exec.get v = .ok v v from rfl), hpath]
      exact bind_of_error (checked_refused haccess)
    rw [toList_cut] at hmem
    refine @fails_of_errnoMsg env v _ .run _ _ hcall fun description => ?_
    exact @mem_notExecutable '%' path "' is not executable" description hmem

end

/-! ### What is not printed as it is -/

section
variable {α β : Type} {env : UiEnv} {s t u : Session} {command : Argv} {quoted : String}

/-- Something that was printed from `s` to `t` was not printed as it is. -/
def Garbled (s t : Session) : Prop := ∃ printed, t.out = s.out ++ printed ∧ ∃ o ∈ printed, ¬o.Verbatim

theorem PrintedAsIs.not_garbled (h : PrintedAsIs s t) : ¬Garbled s t := by
  obtain ⟨printed, hout, hall⟩ := h.out
  rintro ⟨printed', hout', o, ho, hbad⟩
  rw [List.append_cancel_left (hout.symm.trans hout')] at hall
  exact hbad (hall o ho)

theorem PrintedAsIs.grows (h : PrintedAsIs s t) : s.out <+: t.out := by
  obtain ⟨printed, hout, -⟩ := h.out
  exact ⟨printed, hout.symm⟩

theorem Garbled.grows (h : Garbled s t) : s.out <+: t.out := by
  obtain ⟨printed, hout, -⟩ := h
  exact ⟨printed, hout.symm⟩

theorem PrintedAsIs.garbled (hst : PrintedAsIs s t) (h : Garbled t u) : Garbled s u := by
  obtain ⟨before, hbefore, -⟩ := hst.out
  obtain ⟨printed, hout, o, ho, hbad⟩ := h
  exact ⟨before ++ printed, by rw [hout, hbefore, List.append_assoc], o, List.mem_append_right _ ho, hbad⟩

theorem Garbled.append (h : Garbled s t) (htu : t.out <+: u.out) : Garbled s u := by
  obtain ⟨printed, hout, o, ho, hbad⟩ := h
  obtain ⟨after, hafter⟩ := htu
  exact ⟨printed ++ after, by rw [← hafter, hout, List.append_assoc], o, List.mem_append_left _ ho, hbad⟩

/-- However `x` ends, it printed something that is not as it is, if a message did not lack an argument. -/
def Garbles (x : UiM α) (s : Session) : Prop :=
  wp (fun f t => Garbled s t ∨ f = .missingArgument ∧ s.out <+: t.out) x (fun _ => Garbled s) (fun _ => Garbled s) s

theorem Garbles.behind {x : UiM α} {f : α → UiM β} {a : α} (hrun : x s = .ok a t) (hx : PrintedAsIs s t) (hf : Garbles (f a) t) :
    Garbles (x >>= f) s := by
  refine wp_bind.mpr (wp_of (fun b u hb => ?_) (fun c u hc => ?_) fun g u hg => ?_)
  · cases hrun.symm.trans hb
    exact hf.mono (fun _ _ => hx.garbled) (fun _ _ => hx.garbled) fun _ _ h => h.imp hx.garbled (And.imp_right hx.grows.trans)
  · cases hrun.symm.trans hc
  · cases hrun.symm.trans hg

theorem Garbles.bind {x : UiM α} {f : α → UiM β} (hx : Garbles x s) (hf : ∀ a, KeepsAsIs (f a)) :
    Garbles (x >>= f) s := by
  unfold Garbles at *
  refine hx.bind (fun a t ht => ?_) fun _ _ => id
  exact ((hf a).both t).mono (fun _ _ hr => ht.append hr.grows) (fun _ _ hr => ht.append hr.grows) fun _ _ hr =>
    Or.inl (ht.append hr.2.grows)

theorem garbles_call {op : Op} (h : op.Names env.toEnv s.state quoted) (hquoted : ¬Plain quoted) :
    Garbles (orLastError (op.call env.toEnv)) s := by
  obtain ⟨code, w, hcall, hmessage⟩ := h.fails hquoted
  unfold Garbles
  rw [wp_orLastError]
  unfold wp
  rw [hcall]
  exact ⟨[_], rfl, _, List.mem_singleton_self _, fun h => hmessage (formatText_eq_self_iff.mp h)⟩

theorem garbles_orPrinted {op : Op} (h : op.Names env.toEnv s.state quoted) (hquoted : ¬Plain quoted) :
    Garbles (orPrinted (op.call env.toEnv)) s := by
  obtain ⟨code, w, hcall, hmessage⟩ := h.fails hquoted
  unfold Garbles orPrinted
  rw [wp_bind, wp_lib]
  unfold wp
  rw [hcall]
  refine ⟨[.stderr w.scratch.lastError.message [], .stderr "\n" []], ?_, _, List.mem_cons_self .., fun h => ?_⟩
  · simp
  · exact hmessage (formatText_eq_self_iff.mp h)

theorem Handler.Names.garbles (henv : env.PlainTexts) {handler : Handler} (h : handler.Names env command s quoted)
    (hquoted : ¬Plain quoted) : Garbles (handler.body env command) s := by
  cases h with
  | @breakpointSet _ text _ h1 h2 hname h =>
    show Garbles (handleBreakpointSet env command) s
    unfold handleBreakpointSet
    rw [h1, h2]
    dsimp only
    refine Garbles.behind (t := s) rfl (refl_of PrintedAsIs s) ?_
    refine Garbles.behind rfl (Follows.quiet trivial rfl) ?_
    dsimp only
    rw [if_pos hname]
    refine Garbles.bind (garbles_call (h.of_inf ?_) hquoted) fun _ => keeps_printOk
    rfl
  | run h1 h =>
    show Garbles (handleRun env command) s
    unfold handleRun
    rw [h1]
    exact Garbles.behind (t := s) rfl (refl_of PrintedAsIs s) (garbles_call h hquoted)
  | file h1 h2 hnew h =>
    show Garbles (handleFile env command) s
    unfold handleFile
    rw [h1, h2]
    dsimp only
    refine Garbles.behind (t := s) rfl (refl_of PrintedAsIs s) ?_
    refine Garbles.behind (t := s) rfl (refl_of PrintedAsIs s) ?_
    have hfollows : PrintedAsIs s _ := (printsAsIs_of (KeepsTo.when fun _ => keeps_renewInferior henv)).ok hnew
    refine Garbles.behind hnew hfollows (Garbles.bind (garbles_call h hquoted) fun _ => ?_)
    exact KeepsTo.bind keeps_inferior fun _ => keeps_printOk

end

section
variable {env : UiEnv} {s t : Session}

theorem lib_of_ok {α : Type} {x : SylvanM α} {a : α} {v : State} (h : x s.state = .ok a v) :
    lib x s = .ok (.ok a) { s with state := v } := by
  unfold lib
  rw [h]

theorem garbles_turn (h : Stage.turn.Names env s quoted) (henv : env.PlainTexts) (hquoted : ¬Plain quoted) :
    Garbles (interfaceTurn env) s := by
  cases h with
  | @turn _ t line name cmd _ hread hname hchar hcmd h =>
    have hbody := h.garbles henv hquoted
    refine Garbles.behind hread ((printsAsIs_of keeps_getCommand).ok hread) ?_
    dsimp only
    rw [hname]
    dsimp only
    rw [if_neg hchar]
    unfold handleCommand
    rw [hname]
    refine Garbles.behind (t := t) rfl (refl_of PrintedAsIs t) ?_
    rw [hcmd]
    dsimp only
    unfold Garbles Handler.call at *
    rw [wp_catching, wp_bind]
    exact hbody

theorem garbles_start {options : List CmdOption} {operands : List CStr} (h : (Stage.start options operands).Names env s quoted)
    (henv : env.PlainTexts) (hquoted : ¬Plain quoted) : Garbles (debuggerStart env options operands) s := by
  cases h with
  | @start _ t v _ _ cmdArgs filepath _ hargs hpath hcreate h =>
    have hset := keeps_orPrintedIf henv (c := cmdArgs.fileArgs.isSome) (.setArgs (cmdArgs.fileArgs.map CStr.text)) nofun
    have hattach := keeps_orPrintedIf henv (c := cmdArgs.isAttached) (.attach cmdArgs.pid) nofun
    refine Garbles.behind hargs ((printsAsIs_of keeps_parseArgs).ok hargs) ?_
    refine Garbles.behind (lib_of_ok hcreate) (Follows.quiet trivial rfl) ?_
    refine Garbles.behind rfl (Follows.quiet trivial rfl) ?_
    rw [hpath, when_true Option.isSome_some]
    exact Garbles.bind (@garbles_orPrinted env { t with state := { v with freed := false } } _ _ h hquoted) fun _ =>
      KeepsTo.bind hset fun _ => hattach

/-- A write that is refused has no message. -/
theorem WriteRefused.garbles {command : Argv} (h : WriteRefused env command s) : Garbles (handleWriteMemory env command) s := by
  obtain ⟨addr, bytes, t, ht, haddr, hrefused⟩ := h
  obtain ⟨v, hv⟩ := setMemory_faults haddr hrefused
  rw [handleWriteMemory_eq, handleWriteMemoryWith_eq]
  refine Garbles.behind ht ((printsAsIs_of keeps_writeTarget).ok ht) (Garbles.bind ?_ fun _ => keeps_printOk)
  unfold Garbles
  rw [wp_orLastError]
  unfold wp
  rw [hv]
  exact Or.inr ⟨rfl, List.prefix_rfl⟩

theorem Stage.Refused.garbles {stage : Stage} (h : stage.Refused env s) : Garbles (stage.run env) s := by
  cases h with
  | @turn _ t line name cmd hread hname hchar hcmd hwrites h =>
    refine Garbles.bind (Garbles.behind hread ((printsAsIs_of keeps_getCommand).ok hread) ?_) fun _ => KeepsTo.pure ()
    dsimp only
    rw [hname]
    dsimp only
    rw [if_neg hchar]
    unfold handleCommand
    rw [hname]
    refine Garbles.behind (t := t) rfl (refl_of PrintedAsIs t) ?_
    rw [hcmd]
    dsimp only
    have hbody := h.garbles
    unfold Garbles Handler.call at *
    rw [wp_catching, wp_bind, hwrites]
    exact hbody

/-- A stage that quotes a percent sign prints an error that is not as it is. -/
theorem Stage.Names.garbles {stage : Stage} (h : stage.Names env s quoted) (henv : env.PlainTexts) (hquoted : ¬Plain quoted) :
    Garbles (stage.run env) s := by
  cases stage with
  | start options operands => exact garbles_start h henv hquoted
  | turn => exact Garbles.bind (garbles_turn h henv hquoted) fun _ => KeepsTo.pure ()
  | finish => cases h

/-- A message of the stage lacks an argument. -/
def Stage.LacksArgument (env : UiEnv) (stage : Stage) (s : Session) : Prop := ∃ u, stage.run env s = .fault .missingArgument u

theorem Stage.garbles (henv : env.PlainTexts) {stage : Stage} (h : ¬stage.Quiet env s) : Garbles (stage.run env) s := by
  by_cases hrefused : stage.Refused env s
  · exact hrefused.garbles
  · obtain ⟨text, hnames, hquoted⟩ : ∃ text, stage.Names env s text ∧ ¬Plain text := by
      by_contra hall
      exact h ⟨fun text hnames => not_not.mp fun hquoted => hall ⟨text, hnames, hquoted⟩, hrefused⟩
    exact hnames.garbles henv hquoted

/-- One stage prints its errors as they are, or it is not quiet and does not. -/
theorem Stage.printed (henv : env.PlainTexts) (stage : Stage) (hends : (stage.run env).Ends s t) :
    stage.Quiet env s ∧ PrintedAsIs s t ∧ ¬stage.LacksArgument env s ∨
      ¬stage.Quiet env s ∧ (Garbled s t ∨ stage.LacksArgument env s ∧ s.out <+: t.out) := by
  by_cases hquiet : stage.Quiet env s
  · have hprints := stage.printsAsIs henv hquiet
    refine .inl ⟨hquiet, (hprints.mono (fun _ _ => id) (fun _ _ => id) fun _ _ => And.right).ends hends, ?_⟩
    rintro ⟨u, hu⟩
    exact (hprints.fault hu).1 rfl
  · have hgarbles := Stage.garbles henv hquiet
    refine .inr ⟨hquiet, ?_⟩
    rcases hends with (⟨_, hok⟩ | ⟨_, herror⟩) | ⟨f, hfault⟩
    · exact Or.inl (hgarbles.ok hok)
    · exact Or.inl (hgarbles.error herror)
    · rcases hgarbles.fault hfault with hgarbled | ⟨rfl, hgrows⟩
      · exact Or.inl hgarbled
      · exact Or.inr ⟨⟨t, hfault⟩, hgrows⟩

theorem Stage.grows (henv : env.PlainTexts) (stage : Stage) (hends : (stage.run env).Ends s t) : s.out <+: t.out := by
  rcases stage.printed henv hends with ⟨-, hst, -⟩ | ⟨-, hst | ⟨-, hst⟩⟩
  · exact hst.grows
  · exact hst.grows
  · exact hst

/-- What a run prints, and whether a message of it lacks an argument -/
theorem Staged.printed (henv : env.PlainTexts) {taken : List (Stage × Session)} (hrun : Staged env s taken t) :
    (∀ p ∈ taken, p.1.Quiet env p.2) ∧ PrintedAsIs s t ∧ (∀ p ∈ taken, ¬p.1.LacksArgument env p.2) ∨
      ¬(∀ p ∈ taken, p.1.Quiet env p.2) ∧
        (Garbled s t ∨ ¬(∀ p ∈ taken, ¬p.1.LacksArgument env p.2) ∧ s.out <+: t.out) := by
  induction hrun with
  | start => exact .inl ⟨List.forall_mem_nil _, refl_of PrintedAsIs s, List.forall_mem_nil _⟩
  | stage stage hrun hends ih =>
    rw [List.forall_mem_append, List.forall_mem_singleton, List.forall_mem_append, List.forall_mem_singleton]
    rcases ih with ⟨hbefore, hst, hformed⟩ | ⟨hbefore, hst⟩
    · rcases stage.printed henv hends with ⟨hquiet, htu, hformed'⟩ | ⟨hquiet, htu⟩
      · exact .inl ⟨⟨hbefore, hquiet⟩, trans_of PrintedAsIs hst htu, hformed, hformed'⟩
      · refine .inr ⟨fun h => hquiet h.2, ?_⟩
        exact htu.imp hst.garbled fun h => ⟨fun hall => hall.2 h.1, hst.grows.trans h.2⟩
    · have hgrows := stage.grows henv hends
      refine .inr ⟨fun h => hbefore h.1, ?_⟩
      exact hst.imp (fun h => h.append hgrows) fun h => ⟨fun hall => h.1 hall.1, h.2.trans hgrows⟩

/-- In every run of the debugger, each error is printed as it is, and no message of one lacks an argument, just if no stage
    quotes a percent sign and no write is refused. -/
theorem errors_are_verbatim_iff (env : UiEnv) (s t : Session) (taken : List (Stage × Session)) (henv : env.PlainTexts)
    (hrun : Staged env s taken t) :
    ((∃ printed, t.out = s.out ++ printed ∧ ∀ o ∈ printed, o.Verbatim) ∧ ∀ p ∈ taken, ¬p.1.LacksArgument env p.2) ↔
      ∀ p ∈ taken, p.1.Quiet env p.2 := by
  rcases hrun.printed henv with ⟨hquiet, hst, hformed⟩ | ⟨hquiet, hst⟩
  · exact iff_of_true ⟨hst.out, hformed⟩ hquiet
  · refine iff_of_false (fun h => ?_) hquiet
    rcases hst with hst | hst
    · exact PrintedAsIs.not_garbled ⟨trivial, h.1⟩ hst
    · exact hst.1 h.2

end

/-- `line` is typed at each prompt. -/
def UiEnv.types (line : CStr) : UiEnv := { UiEnv.on .compliant with readline := fun _ => (some line, false) }

theorem types_plainTexts {line : CStr} : (UiEnv.types line).PlainTexts :=
  ⟨fun _ => plain_ofList (show ([] : List Char).elem '%' = false from rfl)⟩

/-- There is no symbol `main`, and the error that says so is printed as it is: what it quotes has no percent sign. -/
theorem errors_are_verbatim_iff_main :
    Stage.turn.Quiet (UiEnv.types (.word "breakpoint main" (by decide))) (Session.on State.created) := by
  have hrun : ((Stage.turn.run (UiEnv.types (.word "breakpoint main" (by decide)))) (Session.on State.created)).isOk = true := by
    decide +kernel
  have hok := Outcome.eq_ok_of_isOk hrun
  have hout : ((Stage.turn.run (UiEnv.types (.word "breakpoint main" (by decide)))) (Session.on State.created)).state.out =
      (Session.on State.created).out ++ [.error "main not found" []] := by decide +kernel
  have hverbatim : (Output.error "main not found" []).Verbatim := formatText_eq_self_iff.mpr (by decide)
  have hiff := errors_are_verbatim_iff (UiEnv.types (.word "breakpoint main" (by decide))) (Session.on State.created) _
    [(.turn, Session.on State.created)] types_plainTexts (.stage .turn .start (Or.inl (Or.inl ⟨(), hok⟩)))
  refine hiff.mp ⟨⟨_, hout, List.forall_mem_singleton.mpr hverbatim⟩, ?_⟩ _ (List.mem_singleton_self _)
  intro p hp
  obtain rfl := List.mem_singleton.mp hp
  rintro ⟨u, hu⟩
  cases hok.symm.trans hu

/-- The name that is typed is the format of the error. -/
theorem errors_garbled :
    ¬∀ (env : UiEnv) (s t : Session) (taken : List (Stage × Session)), env.PlainTexts → Staged env s taken t →
      (∃ printed, t.out = s.out ++ printed ∧ ∀ o ∈ printed, o.Verbatim) ∧ ∀ p ∈ taken, ¬p.1.LacksArgument env p.2 := by
  intro h
  have hrun : ((Stage.turn.run (UiEnv.types (.word "breakpoint %s" (by decide)))) (Session.on State.created)).isOk = true := by
    decide +kernel
  obtain ⟨⟨printed, hout, hall⟩, -⟩ := h (UiEnv.types (.word "breakpoint %s" (by decide))) (Session.on State.created) _ [(.turn, _)]
    types_plainTexts (.stage .turn .start (Or.inl (Or.inl ⟨(), Outcome.eq_ok_of_isOk hrun⟩)))
  have hprinted : ((Stage.turn.run (UiEnv.types (.word "breakpoint %s" (by decide)))) (Session.on State.created)).state.out =
      [.error "%s not found" []] := by decide +kernel
  obtain rfl := hprinted.symm.trans hout
  have hverbatim := hall _ (List.mem_singleton_self _)
  exact formatText_eq_self_iff.mp hverbatim (by decide)

end Sylvan
