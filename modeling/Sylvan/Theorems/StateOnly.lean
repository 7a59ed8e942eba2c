import Sylvan.Lib.Refine
import Sylvan.Ui.Interface

/-! # What works on the inferior and the output only

The commands that go through the aliases or through the commands are five. Every other command reads and writes what the
library works on, and prints: from sessions that differ in the rest, it does the same and leaves the rest. -/

namespace Sylvan
open Exec

/-- The rest of a session: its aliases, the flag of `SIGINT` and the history. -/
abbrev Rest : Type := List Alias × Bool × List CStr

def Session.rest (s : Session) : Rest := (s.aliases, s.interrupted, s.history)

def Session.withRest (s : Session) (r : Rest) : Session := { s with aliases := r.1, interrupted := r.2.1, history := r.2.2 }

/-- The sessions differ in the rest only, which are `a` and `b`. -/
def Apart (a b : Rest) (s t : Session) : Prop := s.rest = a ∧ t = s.withRest b

/-- `x` neither reads nor writes the rest. -/
def StateOnly {α : Type} (x : UiM α) : Prop := ∀ a b, Refines id (fun _ => False) (Apart a b) (Apart a b) x x

namespace StateOnly
variable {α β : Type} {env : UiEnv} {command : Argv} {outputs : List Output}

/-! ### Rules -/

protected theorem pure (a : α) : StateOnly (pure a) := fun _ _ => .pure fun _ _ => id

theorem leave (n : Int) : StateOnly (Sylvan.leave n : UiM α) := fun _ _ => .error fun _ _ => id

theorem fault (f : Fault) : StateOnly (Exec.fault f : UiM α) := fun _ _ => .fault fun _ _ => id

protected theorem bind {x : UiM α} {f : α → UiM β} (hx : StateOnly x) (hf : ∀ a, StateOnly (f a)) : StateOnly (x >>= f) :=
  fun a b => (hx a b).seq fun c => hf c a b

theorem ite {c : Prop} [Decidable c] {x y : UiM α} (hx : StateOnly x) (hy : StateOnly y) : StateOnly (if c then x else y) :=
  fun a b => .ite (fun _ => hx a b) fun _ => hy a b

theorem when {c : Prop} [Decidable c] {x : UiM Unit} (hx : StateOnly x) : StateOnly (Exec.when c x) := fun a b =>
  .when (hx a b) fun _ _ => id

theorem each {f : α → UiM Unit} (hf : ∀ a, StateOnly (f a)) (l : List α) : StateOnly (Exec.each l f) := fun _ _ =>
  .each (fun a => hf a _ _) l

/-- The session is read, but not the rest. -/
theorem get {f : Session → UiM β} (hf : ∀ s, StateOnly (f s)) (hfree : ∀ s r, f (s.withRest r) = f s) :
    StateOnly (Exec.get >>= f) := by
  refine fun a b => .get_bind fun s t hst => ?_
  have h := hf s a b s t hst
  obtain ⟨-, rfl⟩ := hst
  rwa [hfree s b]

theorem modify {g : Session → Session} (hg : ∀ s r, g (s.withRest r) = (g s).withRest r) : StateOnly (Exec.modify g) := by
  refine fun a b => .modify fun s t hst => ?_
  obtain ⟨rfl, rfl⟩ := hst
  have hg' : g s = (g s).withRest s.rest := hg s s.rest
  have hkept : (g s).rest = s.rest := by
    rw [hg']
    rfl
  exact ⟨hkept, hg s b⟩

theorem lib (x : SylvanM α) : StateOnly (Sylvan.lib x) := by
  rintro a b s t ⟨rfl, rfl⟩
  simp only [Sylvan.lib, Session.withRest]
  cases x s.state with
  | ok a u => exact ⟨rfl, rfl, rfl⟩
  | error e u => exact ⟨rfl, rfl, rfl⟩
  | fault f u => exact .inr ⟨rfl, rfl, rfl⟩

/-! ### Calls and output -/

theorem print (o : Output) : StateOnly (Sylvan.print o) := modify fun _ _ => rfl

theorem printf (format : String) (args : List Arg) : StateOnly (Sylvan.printf format args) := print _

theorem printOk (format : String) (args : List Arg) : StateOnly (Sylvan.printOk format args) := print _

theorem reject : StateOnly (Sylvan.reject outputs : UiM α) := .bind (modify fun _ _ => rfl) fun _ => leave 0

theorem sys (x : SylvanM α) : StateOnly (Sylvan.sys x) :=
  .bind (lib x) fun
    | .ok a => .pure a
    | .error _ => leave 0

theorem orLastError (x : SylvanM α) : StateOnly (Sylvan.orLastError x) :=
  .bind (lib x) fun
    | .ok a => .pure a
    | .error _ => .bind (get (fun _ => print _) fun _ _ => rfl) fun _ => leave 0

theorem inferior : StateOnly Sylvan.inferior := get (fun _ => .pure _) fun _ _ => rfl

theorem converted {r : Numeral.Result} : StateOnly (Sylvan.converted r) := .bind (sys _) fun _ => .pure r

theorem allocate : StateOnly (Sylvan.allocate env) := .bind (sys _) fun _ => when (fault _)

theorem copyText {text : String} : StateOnly (Sylvan.copyText env text) := .bind (sys _) fun _ => ite (.pure _) (.pure _)

/-- What prints what went wrong, and says so -/
theorem failed {o : Output} {a : α} : StateOnly (do
    Sylvan.print o
    pure a) := .bind (print o) fun _ => .pure a

theorem invalidIf {c : Prop} [Decidable c] : StateOnly (Exec.when c Sylvan.invalidArguments) := when reject

theorem printAllocated {n : Nat} {title : String} {rows : List (List Arg)} : StateOnly (Sylvan.printAllocated env n title rows) :=
  .bind (each (fun _ => each (fun _ => allocate) _) _) fun _ => print _

theorem parseAddr {mem : List Char} : StateOnly (Sylvan.parseAddr mem outputs) :=
  .bind converted fun _ => ite reject (.pure _)

theorem parseId {text : CStr} {tooLarge : String} : StateOnly (Sylvan.parseId text tooLarge) :=
  .bind converted fun _ => .bind (when reject) fun _ => .bind inferior fun _ => .bind (when reject) fun _ => sys _

theorem parseEnd {text : CStr} {addr : Addr} : StateOnly (Sylvan.parseEnd text addr) := .bind converted fun _ => ite reject (.pure _)

theorem parseRange {first : CStr} {rip : Addr} : ∀ second, StateOnly (Sylvan.parseRange first second rip)
  | none => .pure _
  | some _ => .bind parseAddr fun _ => .bind parseEnd fun _ => .pure _

theorem withTarget {usage : List Output} {tooLarge invalid : String} {byId : Nat → UiM Unit} {byAddr : Addr → UiM Unit}
    (hid : ∀ id, StateOnly (byId id)) (haddr : ∀ addr, StateOnly (byAddr addr)) :
    StateOnly (Sylvan.withTarget usage tooLarge invalid byId byAddr command) := by
  unfold Sylvan.withTarget
  cases command.arg 1 with
  | none => exact reject
  | some text =>
    refine ite (.bind parseId hid) ?_
    cases command.arg 2 with
    | none => exact reject
    | some text => exact .bind parseAddr haddr

theorem collectArgs : ∀ tokens args size, StateOnly (Sylvan.collectArgs env tokens args size)
  | [], _, _ => .bind (when (fault _)) fun _ => .pure _
  | _ :: tokens, _, _ => .bind (when (fault _)) fun _ => .bind (sys _) fun _ =>
    ite failed (ite (.bind (sys _) fun _ => ite failed (collectArgs tokens _ _)) (collectArgs tokens _ _))

/-! ### Auxiliary vectors -/

theorem targetReadAuxv : StateOnly (Sylvan.targetReadAuxv env) := by
  refine .bind inferior fun _ => .bind (sys _) fun r => ?_
  cases r with
  | error _ => exact failed
  | ok _ =>
    refine .bind (sys _) fun _ => ite failed (.bind (sys _) fun _ => .bind (sys _) fun r => ?_)
    cases r with
    | error _ => exact failed
    | ok _ => exact ite failed (.pure _)

theorem parseRecords {buffer : List Byte} {len size maxEntries : Nat} :
    ∀ fuel i, StateOnly (Sylvan.parseRecords buffer len size maxEntries fuel i)
  | 0, _ => .pure _
  | fuel + 1, _ => ite (.pure _) (.bind (when (fault _)) fun _ => ite (.pure _) (.bind (when (fault _)) fun _ =>
    .bind (when (fault _)) fun _ => .bind (parseRecords fuel _) fun _ => .pure _))

theorem parseAuxv {buffer : List Byte} {len : Nat} {is64bit : Bool} : StateOnly (Sylvan.parseAuxv env buffer len is64bit) := by
  unfold Sylvan.parseAuxv
  exact ite (.pure _) (.bind (sys _) fun _ => ite (.pure _) (.bind (parseRecords _ _) fun _ => .bind (when (fault _)) fun _ => .pure _))

theorem handleInfoAuxv : StateOnly (Sylvan.handleInfoAuxv env command) := by
  refine .bind invalidIf fun _ => .bind inferior fun _ => .bind (when reject) fun _ => .bind targetReadAuxv fun r => ?_
  cases r with
  | none => exact .pure _
  | some raw =>
    refine .bind parseAuxv fun r => ?_
    cases r with
    | none => exact reject
    | some entries =>
      exact .bind (printf _ _) fun _ => .bind (printf _ _) fun _ => .bind (printf _ _) fun _ =>
        each (fun _ => ite (printf _ _) (printf _ _)) _

/-! ### Disassembly -/

theorem findSymbol {funcName : String} : ∀ scns, StateOnly (Sylvan.findSymbol funcName scns)
  | [] => .pure _
  | scn :: scns => by
    refine ite (findSymbol scns) (ite (.bind (when (fault _)) fun _ => ?_) (findSymbol scns))
    cases scn.findSym funcName with
    | some sym => exact .pure _
    | none => exact findSymbol scns

theorem getFunctionBounds {path : Option String} {funcName : String} : StateOnly (Sylvan.getFunctionBounds env path funcName) := by
  refine .bind (sys _) fun _ => ite failed (.bind (sys _) fun r => ?_)
  cases r with
  | error _ => exact failed
  | ok _ =>
    refine .bind (sys _) fun t => ?_
    cases env.elf t path with
    | none => exact failed
    | some file =>
      refine ite failed (.bind (findSymbol _) fun r => ?_)
      cases r with
      | some _ => exact .pure _
      | none => exact failed

theorem findSegment {file : List Byte} {vaddr : Addr} {size : BitVec 64} :
    ∀ n i pos, StateOnly (Sylvan.findSegment file vaddr size n i pos)
  | 0, _, _ => failed
  | n + 1, i, pos => by
    unfold Sylvan.findSegment
    cases readPhdr file pos with
    | none => exact failed
    | some phdr => exact ite (.bind (when (printf _ _)) fun _ => .pure _) (findSegment n _ _)

theorem storeChars {block : List Char} {k : Nat} {cs : List Char} : StateOnly (Sylvan.storeChars block k cs) :=
  .bind (when (fault _)) fun _ => .pure _

theorem printBytes : ∀ bytes block p, StateOnly (Sylvan.printBytes bytes block p)
  | [], _, _ => .pure _
  | b :: bytes, _, _ => by
    unfold Sylvan.printBytes
    generalize (hexByte b).toList ++ [' ', '\x00'] = cs
    exact .bind storeChars fun _ => printBytes bytes _ _

theorem formatOpcodes {bytes : List Byte} {stale : List Char} : StateOnly (Sylvan.formatOpcodes bytes stale) :=
  .bind (printBytes _ _ _) fun _ => .bind (when (fault _)) fun _ => .bind storeChars fun _ => .bind (when (fault _)) fun _ => .pure _

theorem makeNode {addr : Addr} {buffer : List Byte} {offset : Nat} {instr : Instruction} :
    StateOnly (Sylvan.makeNode env addr buffer offset instr) := by
  refine .bind (sys _) fun _ => ite failed (.bind (sys _) fun _ => ite failed (.bind (when (fault _)) fun _ => ?_))
  exact .bind (sys _) fun _ => .bind formatOpcodes fun _ => .bind (sys _) fun _ => ite failed (.pure _)

theorem disassembleLoop {buffer : List Byte} {isNotFunc : Bool} :
    ∀ fuel addr offset count, StateOnly (Sylvan.disassembleLoop env buffer isNotFunc fuel addr offset count)
  | 0, _, _, _ => .pure _
  | fuel + 1, addr, offset, count => by
    unfold Sylvan.disassembleLoop
    cases env.zydis addr (buffer.drop offset) with
    | none => exact .pure _
    | some instr =>
      refine .bind makeNode fun r => ?_
      cases r with
      | none => exact .pure _
      | some node => exact ite (.pure _) (ite (.pure _) (.bind (disassembleLoop fuel _ _ _) fun _ => .pure _))

theorem disassembleRange {file : OpenFile} {addr : Addr} {offset size : BitVec 64} {isNotFunc : Bool} :
    StateOnly (Sylvan.disassembleRange env file addr offset size isNotFunc) :=
  .bind (sys _) fun _ => ite failed (ite failed (ite failed (.bind (disassembleLoop _ _ _ _) fun _ => .pure _)))

theorem disassemble {startAddr endAddr : Addr} : StateOnly (Sylvan.disassemble env startAddr endAddr) := by
  refine .bind inferior fun _ => ite failed (.bind (sys _) fun r => ?_)
  cases r with
  | error _ => exact failed
  | ok file =>
    refine .bind (ite failed (ite failed (findSegment _ _ _))) fun r => ?_
    cases r with
    | none => exact .pure _
    | some range => exact disassembleRange

theorem disassemblyRows : ∀ instructions : List Disassembled, StateOnly (instructions.mapM (disassemblyRow env))
  | [] => .pure _
  | _ :: instructions => by
    rw [List.mapM_cons]
    exact .bind (.bind allocate fun _ => .bind allocate fun _ => .bind copyText fun _ => .bind copyText fun _ => .pure _) fun _ =>
      .bind (disassemblyRows instructions) fun _ => .pure _

theorem disassembleAt {startAddr endAddr : Addr} : StateOnly (Sylvan.disassembleAt env startAddr endAddr) := by
  refine .bind disassemble fun r => ?_
  cases r with
  | none => exact .pure _
  | some instructions => exact ite (printf _ _) (.bind (disassemblyRows _) fun _ => print _)

theorem functionStart {name : String} : StateOnly (Sylvan.functionStart env name) := by
  refine .bind inferior fun _ => .bind getFunctionBounds fun r => ?_
  cases r with
  | none => exact leave 0
  | some bounds => exact .pure _

theorem handleDisassemble : StateOnly (Sylvan.handleDisassemble env command) := by
  unfold Sylvan.handleDisassemble
  split
  · exact reject
  · refine ite ?_ ?_
    · exact .bind (orLastError _) fun _ => .bind (parseRange _) fun _ => disassembleAt
    · exact .bind (parseRange _) fun _ => .bind functionStart fun _ => disassembleAt

/-! ### Memory -/

theorem quotedBytes : ∀ cs bytes, StateOnly (Sylvan.quotedBytes cs bytes)
  | [], _ => reject
  | _ :: cs, _ => ite (.pure _) (.bind (when (fault _)) fun _ => quotedBytes cs _)

theorem collectBytes : ∀ args bytes, StateOnly (Sylvan.collectBytes args bytes)
  | [], _ => .pure _
  | _ :: args, _ => by
    unfold Sylvan.collectBytes
    refine ite (.pure _) (ite (.bind (when reject) fun _ => .bind (quotedBytes _ _) fun _ => collectBytes args _) ?_)
    dsimp only
    generalize Numeral.strtoul _ _ = r
    exact .bind converted fun _ => .bind (when reject) fun _ => collectBytes args _

theorem handleWriteMemory : StateOnly (Sylvan.handleWriteMemory env command) := by
  unfold Sylvan.handleWriteMemory
  split
  · exact reject
  · split
    · exact reject
    · exact .bind (when reject) fun _ => .bind parseAddr fun _ => .bind (collectBytes _ _) fun _ =>
        .bind (orLastError _) fun _ => printOk _ _

theorem parseRows : ∀ rows, StateOnly (Sylvan.parseRows rows)
  | none => .pure _
  | some _ => .bind converted fun _ => .bind (when reject) fun _ => ite (.bind (printf _ _) fun _ => .pure _) (.pure _)

theorem readWords {pTable data : Bool} : ∀ n addr, StateOnly (Sylvan.readWords env pTable data n addr)
  | 0, _ => .pure _
  | n + 1, addr => by
    refine .bind (lib _) fun r => ?_
    cases r with
    | error _ => exact get (fun _ => reject) fun _ _ => rfl
    | ok word => exact .bind (when (fault _)) fun _ => .bind (when (printf _ _)) fun _ => .bind (readWords n _) fun _ => .pure _

theorem handleReadMemory : StateOnly (Sylvan.handleReadMemory env command) := by
  unfold Sylvan.handleReadMemory
  dsimp only
  split
  · exact reject
  · exact .bind (parseRows _) fun _ => .bind (when reject) fun _ => .bind parseAddr fun _ => .bind (sys _) fun _ =>
      .bind (readWords _ _) fun _ => when printAllocated

/-! ### The inferior -/

theorem renewInferior : StateOnly (Sylvan.renewInferior env) :=
  .bind (orLastError _) fun _ => .bind (orLastError _) fun _ => modify fun _ _ => rfl

theorem handleFile : StateOnly (Sylvan.handleFile env command) := by
  unfold Sylvan.handleFile
  split
  · exact reject
  · exact .bind invalidIf fun _ => .bind inferior fun _ => .bind (when renewInferior) fun _ => .bind (orLastError _) fun _ =>
      .bind inferior fun _ => printOk _ _

theorem handleAttach : StateOnly (Sylvan.handleAttach env command) := by
  unfold Sylvan.handleAttach
  split
  · exact reject
  · exact .bind invalidIf fun _ => .bind converted fun _ => .bind (when reject) fun _ => .bind inferior fun _ =>
      .bind (when renewInferior) fun _ => .bind (orLastError _) fun _ => .bind inferior fun _ => printOk _ _

theorem handleSetReg : StateOnly (Sylvan.handleSetReg env command) := by
  unfold Sylvan.handleSetReg
  split
  · refine .bind invalidIf fun _ => ?_
    split
    · exact reject
    · exact .bind (when reject) fun _ => .bind converted fun _ => .bind (when reject) fun _ => .bind (orLastError _) fun _ =>
        .bind (orLastError _) fun _ => printOk _ _
  · exact reject

theorem handleBreakpointSet : StateOnly (Sylvan.handleBreakpointSet env command) := by
  unfold Sylvan.handleBreakpointSet
  cases command.arg 1 with
  | none => exact reject
  | some text =>
    exact .bind invalidIf fun _ => .bind converted fun _ => ite (.bind (orLastError _) fun _ => printOk _ _)
      (.bind (orLastError _) fun _ => printOk _ _)

theorem toggleBreakpoint {isDisable : Bool} : StateOnly (Sylvan.toggleBreakpoint env command isDisable) :=
  withTarget (fun _ => .bind inferior fun _ => .bind (orLastError _) fun _ => .bind inferior fun _ => printOk _ _)
    fun _ => .bind (orLastError _) fun _ => printOk _ _

theorem handleDeleteBreakpoint : StateOnly (Sylvan.handleDeleteBreakpoint env command) :=
  withTarget (fun _ => .bind inferior fun _ => .bind (orLastError _) fun _ => .bind inferior fun _ => printOk _ _)
    fun _ => .bind (orLastError _) fun _ => printOk _ _

end StateOnly

/-! ### The command line -/

/-- The sessions differ in their aliases only, which are `l` and `m`. -/
def AliasesApart (l m : List Alias) (s t : Session) : Prop := s.aliases = l ∧ t = { s with aliases := m }

/-- `x` neither reads nor writes the aliases. -/
def AliasFree {α : Type} (x : UiM α) : Prop :=
  ∀ l m, Refines id (fun _ => False) (AliasesApart l m) (AliasesApart l m) x x

section CommandLine
variable {α β : Type} {env : UiEnv}

theorem StateOnly.aliasFree {x : UiM α} (hx : StateOnly x) : AliasFree x := by
  rintro l m s t ⟨rfl, rfl⟩
  refine (hx s.rest (m, s.interrupted, s.history) s _ ⟨rfl, rfl⟩).mono fun u v h => ?_
  obtain ⟨hu, rfl⟩ := h
  simp only [Session.rest, Prod.mk.injEq] at hu
  refine ⟨hu.1, ?_⟩
  simp only [Session.withRest, ← hu.2.1, ← hu.2.2]

namespace AliasFree

protected theorem bind {x : UiM α} {f : α → UiM β} (hx : AliasFree x) (hf : ∀ a, AliasFree (f a)) : AliasFree (x >>= f) :=
  fun l m => (hx l m).seq fun a => hf a l m

theorem ite {c : Prop} [Decidable c] {x y : UiM α} (hx : AliasFree x) (hy : AliasFree y) : AliasFree (if c then x else y) :=
  fun l m => .ite (fun _ => hx l m) fun _ => hy l m

theorem get {f : Session → UiM β} (hf : ∀ s, AliasFree (f s)) (hfree : ∀ s l, f { s with aliases := l } = f s) :
    AliasFree (Exec.get >>= f) := by
  refine fun l m => .get_bind fun s t hst => ?_
  have h := hf s l m s t hst
  obtain ⟨-, rfl⟩ := hst
  rwa [hfree s m]

theorem modify {g : Session → Session} (hkept : ∀ s, (g s).aliases = s.aliases)
    (hg : ∀ s l, g { s with aliases := l } = { g s with aliases := l }) : AliasFree (Exec.modify g) := by
  refine fun l m => .modify fun s t hst => ?_
  obtain ⟨rfl, rfl⟩ := hst
  exact ⟨hkept s, hg s m⟩

theorem commandLine {input : CStr} : AliasFree (Sylvan.commandLine env input) := by
  refine ite (.bind (modify (fun _ => rfl) fun _ _ => rfl) fun _ => (StateOnly.pure _).aliasFree) (get (fun s => ?_) fun _ _ => rfl)
  cases s.history.getLast? with
  | none => exact (StateOnly.pure _).aliasFree
  | some last => exact ite (StateOnly.pure _).aliasFree (StateOnly.bind (.sys _) fun _ => .ite (.pure _) (.pure _)).aliasFree

theorem getCommand : AliasFree (Sylvan.getCommand env) := by
  refine .bind (StateOnly.sys _).aliasFree fun t => .bind (modify (fun _ => rfl) fun _ _ => rfl) fun _ =>
    get (fun s => ?_) fun _ _ => rfl
  refine ite (.bind (modify (fun _ => rfl) fun _ _ => rfl) fun _ => (StateOnly.pure _).aliasFree) ?_
  cases (env.readline t).1 with
  | none => exact (StateOnly.fault _).aliasFree
  | some input =>
    refine .bind commandLine fun line => StateOnly.aliasFree (.bind (.sys _) fun _ => .ite .failed ?_)
    cases line with
    | none => exact .fault _
    | some line => exact .bind (.collectArgs _ _ _) fun _ => .pure _

end AliasFree

end CommandLine

/-! ### The commands -/

/-- The commands that go through a table of the registry. -/
inductive Handler.IsRegistry : Handler → Prop where
  | help : IsRegistry .help
  | info : IsRegistry .info
  | set : IsRegistry .set
  | infoAlias : IsRegistry .infoAlias
  | setAlias : IsRegistry .setAlias

/-- Every other command works on the inferior and the output only. -/
theorem Handler.stateOnly {env : UiEnv} {command : Argv} (handler : Handler) (h : ¬handler.IsRegistry) :
    StateOnly (handler.body env command) := by
  cases handler with
  | help => exact absurd .help h
  | info => exact absurd .info h
  | set => exact absurd .set h
  | infoAlias => exact absurd .infoAlias h
  | setAlias => exact absurd .setAlias h
  | exit => exact .bind (.printf _ _) fun _ => .leave 1
  | «continue» => exact .orLastError _
  | breakpointSet => exact .handleBreakpointSet
  | addInferior => exact .bind .invalidIf fun _ => .bind .renewInferior fun _ => .bind .inferior fun _ => .printOk _ _
  | disassemble => exact .handleDisassemble
  | run => exact .bind .invalidIf fun _ => .orLastError _
  | stepInst => exact .bind .invalidIf fun _ => .bind (.orLastError _) fun _ => .printOk _ _
  | file => exact .handleFile
  | attach => exact .handleAttach
  | disableBreakpoint | enableBreakpoint => exact .toggleBreakpoint
  | deleteBreakpoint => exact .handleDeleteBreakpoint
  | readMemory => exact .handleReadMemory
  | writeMemory => exact .handleWriteMemory
  | infoRegisters => exact .bind .invalidIf fun _ => .bind (.orLastError _) fun _ => .printAllocated
  | infoArgs => exact .bind .invalidIf fun _ => .bind .inferior fun _ => .printf _ _
  | infoAuxv => exact .handleInfoAuxv
  | infoBreakpoints =>
    exact .bind .invalidIf fun _ => .bind .inferior fun _ => .bind (.when (.fault _)) fun _ => .printAllocated
  | infoInferiors =>
    exact .bind .invalidIf fun _ => .bind .inferior fun _ => .bind (.printf _ _) fun _ => .bind (.printf _ _) fun _ =>
      .bind (.printf _ _) fun _ => .bind (.printf _ _) fun _ => .printf _ _
  | setArgs =>
    exact .bind (.sys _) fun _ => .ite (.bind (.orLastError _) fun _ => .bind .inferior fun _ => .printOk _ _) .reject
  | setReg => exact .handleSetReg

theorem Handler.call_stateOnly {env : UiEnv} {command : Argv} {handler : Handler} (h : ¬handler.IsRegistry) :
    StateOnly (handler.call env command) := fun a b =>
  .catching (StateOnly.bind (handler.stateOnly h) (fun _ => .pure 0) a b) fun n => StateOnly.pure n a b

/-- Runs of other commands from two sessions that differ in the rest only: they return the same and print the same, leave the
    inferior as the other does, and leave the rest of each session as it was. -/
theorem commands_stateOnly {env : UiEnv} {commands : List (Handler × Argv)} (h : ∀ c ∈ commands, ¬c.1.IsRegistry) (s : Session)
    (b : Rest) : Matches id (fun _ => False) (Apart s.rest b) (commands.mapM (fun c => c.1.call env c.2) s)
      (commands.mapM (fun c => c.1.call env c.2) (s.withRest b)) := by
  suffices hall : StateOnly (commands.mapM fun c => c.1.call env c.2) from hall s.rest b s (s.withRest b) ⟨rfl, rfl⟩
  induction commands with
  | nil => exact .pure []
  | cons c commands ih =>
    rw [List.mapM_cons]
    exact .bind (Handler.call_stateOnly (h c (List.mem_cons_self ..))) fun _ =>
      .bind (ih fun c hc => h c (List.mem_cons_of_mem _ hc)) fun _ => .pure _

theorem commands_stateOnly_sample : Matches id (fun _ => False) (Apart (staticAliases, false, []) ([], true, []))
    ([(Handler.run, (⟨[], []⟩ : Argv)), (.infoRegisters, ⟨[], []⟩)].mapM (fun c => c.1.call (UiEnv.on .compliant) c.2) (Session.on .blank))
    ([(Handler.run, (⟨[], []⟩ : Argv)), (.infoRegisters, ⟨[], []⟩)].mapM (fun c => c.1.call (UiEnv.on .compliant) c.2)
      ((Session.on .blank).withRest ([], true, []))) := by
  refine commands_stateOnly (fun c hc => ?_) (Session.on .blank) ([], true, [])
  simp only [List.mem_cons, List.not_mem_nil, or_false] at hc
  rcases hc with rfl | rfl
  · exact nofun
  · exact nofun

end Sylvan
