import Mathlib.Data.List.Basic
import Sylvan.Theorems.Commands
import Sylvan.Theorems.Frames
import Sylvan.Theorems.LastError

/-! What the commands leave alone, and what they print. They change the state by calls of the library only, so a relation
    between states that the calls keep, and that does not look at the scratch part, is kept by each command that does not
    renew the inferior. What they print is printed as it is, but for the last error, which is a format (`Follows`). -/

namespace Sylvan
open Exec

/-- The states of the two sessions are related by `R`. -/
def OnState (R : State → State → Prop) (s t : Session) : Prop := R s.state t.state

/-! ### Formats -/

theorem length_formatText {cs ds : List Char} (h : formatText cs = some ds) : ds.length ≤ cs.length := by
  fun_induction formatText cs generalizing ds with
  | case1 => simp_all
  | case2 cs ih =>
    obtain ⟨es, hes, rfl⟩ := Option.map_eq_some_iff.mp h
    have := ih hes
    simp only [List.length_cons]
    omega
  | case3 => cases h
  | case4 c cs _ _ ih =>
    obtain ⟨es, hes, rfl⟩ := Option.map_eq_some_iff.mp h
    exact Nat.succ_le_succ (ih hes)

/-- Only a format without percent signs is printed as it is: two of them are printed as one. -/
theorem formatText_eq_self_iff {cs : List Char} : formatText cs = some cs ↔ '%' ∉ cs := by
  fun_induction formatText cs with
  | case1 => simp
  | case2 cs =>
    refine iff_of_false (fun h => ?_) (by simp)
    obtain ⟨es, hes, heq⟩ := Option.map_eq_some_iff.mp h
    have hlen := length_formatText hes
    simp only [List.cons.injEq, true_and] at heq
    rw [heq, List.length_cons] at hlen
    exact Nat.not_succ_le_self _ hlen
  | case3 => simp
  | case4 c cs hpair hlone ih =>
    have hc : c ≠ '%' := by
      rintro rfl
      exact hlone rfl
    simp [ih, hc.symm]

theorem Plain.error {format : String} (h : Plain format) : (Output.error format []).Verbatim := formatText_eq_self_iff.mpr h

theorem Plain.stderr {format : String} (h : Plain format) : (Output.stderr format []).Verbatim := formatText_eq_self_iff.mpr h

theorem verbatim_error {cs : List Char} (h : cs.elem '%' = false) : (Output.error (String.ofList cs) []).Verbatim :=
  (plain_ofList h).error

theorem verbatim_stderr {cs : List Char} (h : cs.elem '%' = false) : (Output.stderr (String.ofList cs) []).Verbatim :=
  (plain_ofList h).stderr

/-- What may be printed, at least what is printed as it is, and on what faults a step may end, at least on those that are not
    about a message. -/
structure Printing where
  Shown : Output → Prop
  Ends : Fault → Prop
  of_verbatim : ∀ {o}, o.Verbatim → Shown o
  of_formatted : ∀ {f}, f ≠ .missingArgument → Ends f

def Printing.any : Printing := ⟨fun _ => True, fun _ => True, fun _ => trivial, fun _ => trivial⟩

def Printing.verbatim : Printing := ⟨Output.Verbatim, (· ≠ .missingArgument), id, id⟩

/-- The states are related by `R`, and what was printed in between may be. -/
structure Follows (V : Printing) (R : State → State → Prop) (s t : Session) : Prop where
  state : OnState R s t
  out : ∃ new, t.out = s.out ++ new ∧ ∀ o ∈ new, V.Shown o

instance {V : Printing} {R : State → State → Prop} [IsPreorder State R] : IsPreorder Session (Follows V R) where
  refl s := ⟨refl_of R s.state, [], (List.append_nil _).symm, nofun⟩
  trans s t u h h' := by
    obtain ⟨new, hnew, hshown⟩ := h.out
    obtain ⟨new', hnew', hshown'⟩ := h'.out
    refine ⟨trans_of R h.state h'.state, new ++ new', ?_, List.forall_mem_append.mpr ⟨hshown, hshown'⟩⟩
    rw [hnew', hnew, List.append_assoc]

theorem Follows.quiet {V : Printing} {R : State → State → Prop} {s t : Session} (h : R s.state t.state) (hout : t.out = s.out) :
    Follows V R s t := ⟨h, [], by rw [hout, List.append_nil], nofun⟩

/-- The message of each error of `x` may be printed, and `x` may end on each of its faults. -/
def Printing.Tells (V : Printing) {α : Type} (x : SylvanM α) : Prop :=
  FailsWith (fun f _ => V.Ends f) (fun _ t => V.Shown (.error t.scratch.lastError.message [])) x

theorem Printing.any_tells {α : Type} {x : SylvanM α} : Printing.any.Tells x := fun s => by
  unfold wp
  cases x s <;> trivial

section
variable {V : Printing} {R : State → State → Prop} {α : Type} {env : UiEnv} {command : Argv} {outputs : List Output}

/-! ### Calls and output -/

theorem keeps_lib {x : SylvanM α} (hx : KeepsTo V.Ends R x) : KeepsTo V.Ends (Follows V R) (lib x) := .of_wp fun s =>
  wp_lib.mpr ((hx.both s.state).mono (fun _ _ h => .quiet h rfl) (fun _ _ h => .quiet h rfl) fun _ _ h => ⟨h.1, .quiet h.2 rfl⟩)

theorem keeps_sys {x : SylvanM α} (hx : KeepsTo V.Ends R x) : KeepsTo V.Ends (Follows V R) (sys x) := .of_wp fun s =>
  wp_sys.mpr ((hx.both s.state).mono (fun _ _ h => .quiet h rfl) (fun _ _ h => .quiet h rfl) fun _ _ h => ⟨h.1, .quiet h.2 rfl⟩)

theorem keeps_orLastError {x : SylvanM α} (hx : Keeps R x) (htells : V.Tells x) : KeepsTo V.Ends (Follows V R) (orLastError x) :=
  .of_wp fun s => wp_orLastError.mpr (((hx s.state).both (htells s.state)).mono (fun _ _ h => .quiet h.1 rfl)
    (fun _ _ h => ⟨h.1, [_], rfl, by simpa using h.2⟩) fun _ _ h => ⟨h.2, .quiet h.1 rfl⟩)

/-- A call of the system that answers -/
theorem keeps_answer [IgnoresScratch R] {x : SylvanM α} (hx : ∀ s, ∃ a y, x s = .ok a (s.withScratch y)) :
    KeepsTo V.Ends (Follows V R) (sys x) := keeps_sys <| .of_wp fun s => by
  obtain ⟨a, y, ha⟩ := hx s
  unfold wp
  rw [ha]
  exact IgnoresScratch.scratch s y

theorem answered_ok {answer : Nat → Except Failure α} (s : State) : ∃ a y, Sys.answered answer s = .ok a (s.withScratch y) := by
  unfold Sys.answered
  cases answer s.scratch.clock <;> exact ⟨_, _, rfl⟩

section Output
variable [IsPreorder State R]

theorem keeps_print {o : Output} (h : o.Verbatim) : KeepsTo V.Ends (Follows V R) (print o) := .of_wp fun s =>
  ⟨refl_of R s.state, [o], rfl, by simpa using V.of_verbatim h⟩

theorem keeps_reject (h : outputs.Forall Output.Verbatim) : KeepsTo V.Ends (Follows V R) (reject outputs : UiM α) := .of_wp fun s =>
  ⟨refl_of R s.state, outputs, rfl, fun o ho => V.of_verbatim (List.forall_iff_forall_mem.mp h o ho)⟩

theorem keeps_inferior : KeepsTo V.Ends (Follows V R) inferior := .of_wp fun s => refl_of (Follows V R) s

theorem keeps_rejectIf {c : Prop} [Decidable c] (h : KeepsTo V.Ends (Follows V R) (reject outputs : UiM Unit)) :
    KeepsTo V.Ends (Follows V R) (Exec.when c (reject outputs)) := KeepsTo.when fun _ => h

section Texts
variable {cs : List Char} {format usage : String} {args : List Arg} {x : Arg} {a : α}

theorem keeps_printf : KeepsTo V.Ends (Follows V R) (printf format args) := keeps_print trivial

theorem keeps_printOk : KeepsTo V.Ends (Follows V R) (printOk format args) := keeps_print trivial

theorem keeps_rejectText (h : cs.elem '%' = false) : KeepsTo V.Ends (Follows V R) (reject [.error (String.ofList cs) []] : UiM α) :=
  keeps_reject (verbatim_error h)

theorem keeps_rejectUsage (h : cs.elem '%' = false) :
    KeepsTo V.Ends (Follows V R) (reject [.error (String.ofList cs) [], .instruction usage] : UiM α) := keeps_reject ⟨verbatim_error h, trivial⟩

theorem keeps_rejectArgs : KeepsTo V.Ends (Follows V R) (reject [.error format (x :: args)] : UiM α) := keeps_reject trivial

/-- What prints what went wrong, and says so -/
theorem keeps_failed : KeepsTo V.Ends (Follows V R) (do
    printStderr format (x :: args)
    pure a) := KeepsTo.bind (keeps_print trivial) fun _ => KeepsTo.pure _

theorem keeps_failedText (h : cs.elem '%' = false) : KeepsTo V.Ends (Follows V R) (do
    printStderr (String.ofList cs) []
    pure a) := KeepsTo.bind (keeps_print (verbatim_stderr h)) fun _ => KeepsTo.pure _

theorem keeps_invalidArguments : KeepsTo V.Ends (Follows V R) (invalidArguments : UiM α) := keeps_rejectText rfl

theorem keeps_invalidIf {c : Prop} [Decidable c] : KeepsTo V.Ends (Follows V R) (Exec.when c invalidArguments) :=
  KeepsTo.when fun _ => keeps_invalidArguments

end Texts

theorem keeps_printCommandsOf {title : String} {tp : CommandType} : KeepsTo V.Ends (Follows V R) (printCommandsOf title tp) :=
  KeepsTo.bind keeps_printf fun _ => KeepsTo.each (fun _ => KeepsTo.bind keeps_printf fun _ => KeepsTo.bind keeps_printf fun _ =>
    KeepsTo.bind keeps_printf fun _ => keeps_printf) _

theorem keeps_printCommands {tp : CommandType} {printAll : Bool} : KeepsTo V.Ends (Follows V R) (printCommands tp printAll) :=
  KeepsTo.bind (KeepsTo.when fun _ => keeps_printCommandsOf) fun _ => KeepsTo.bind (KeepsTo.when fun _ => keeps_printCommandsOf) fun _ =>
    KeepsTo.when fun _ => keeps_printCommandsOf

theorem keeps_printAuxvEntry {entry : AuxvEntry} : KeepsTo V.Ends (Follows V R) (printAuxvEntry entry) :=
  KeepsTo.ite (fun _ => keeps_printf) fun _ => keeps_printf

end Output

section Scratch
variable [IgnoresScratch R]

theorem keeps_converted {r : Numeral.Result} : KeepsTo V.Ends (Follows V R) (converted r) :=
  KeepsTo.bind (keeps_answer fun _ => ⟨_, _, rfl⟩) fun _ => KeepsTo.pure r

theorem keeps_allocated : KeepsTo V.Ends (Follows V R) (sys (Sys.malloc env.toEnv)) := keeps_answer fun _ => ⟨_, _, rfl⟩

theorem keeps_allocate : KeepsTo V.Ends (Follows V R) (allocate env) :=
  KeepsTo.bind keeps_allocated fun _ => KeepsTo.when fun _ => KeepsTo.fault (V.of_formatted nofun)

theorem keeps_copyText {text : String} : KeepsTo V.Ends (Follows V R) (copyText env text) :=
  KeepsTo.bind keeps_allocated fun _ => KeepsTo.ite (fun _ => KeepsTo.pure _) fun _ => KeepsTo.pure _

theorem keeps_parseAddr {mem : List Char} (h : KeepsTo V.Ends (Follows V R) (reject outputs : UiM Addr)) :
    KeepsTo V.Ends (Follows V R) (parseAddr mem outputs) :=
  KeepsTo.bind keeps_converted fun _ => KeepsTo.ite (fun _ => h) fun _ => KeepsTo.pure _

theorem keeps_slotIndex {i : Int} : KeepsTo V.Ends R (slotIndex i) :=
  KeepsTo.ite (fun _ => KeepsTo.pure _) fun _ => KeepsTo.fault (V.of_formatted nofun)

theorem keeps_parseId {text : CStr} {cs : List Char} (h : cs.elem '%' = false) : KeepsTo V.Ends (Follows V R) (parseId text (String.ofList cs)) :=
  KeepsTo.bind keeps_converted fun _ => KeepsTo.bind (keeps_rejectIf (keeps_rejectText rfl)) fun _ => KeepsTo.bind keeps_inferior fun _ =>
    KeepsTo.bind (keeps_rejectIf (keeps_rejectText h)) fun _ => keeps_sys keeps_slotIndex

theorem keeps_withTarget {usage : List Output} {cs ds : List Char} {byId : Nat → UiM Unit} {byAddr : Addr → UiM Unit}
    (husage : usage.Forall Output.Verbatim) (hcs : cs.elem '%' = false) (hds : ds.elem '%' = false)
    (hid : ∀ id, KeepsTo V.Ends (Follows V R) (byId id)) (haddr : ∀ addr, KeepsTo V.Ends (Follows V R) (byAddr addr)) :
    KeepsTo V.Ends (Follows V R) (withTarget usage (String.ofList cs) (String.ofList ds) byId byAddr command) := by
  unfold withTarget
  cases command.arg 1 with
  | none => exact keeps_reject husage
  | some text =>
    refine KeepsTo.ite (fun _ => KeepsTo.bind (keeps_parseId hcs) hid) fun _ => ?_
    cases command.arg 2 with
    | none => exact keeps_reject husage
    | some text => exact KeepsTo.bind (keeps_parseAddr (keeps_rejectText hds)) haddr

theorem keeps_parseRows : ∀ {rows : Option CStr}, KeepsTo V.Ends (Follows V R) (parseRows rows)
  | none => KeepsTo.pure _
  | some _ => KeepsTo.bind keeps_converted fun _ => KeepsTo.bind (keeps_rejectIf (keeps_rejectText rfl)) fun _ =>
    KeepsTo.ite (fun _ => KeepsTo.bind keeps_printf fun _ => KeepsTo.pure _) fun _ => KeepsTo.pure _

theorem keeps_parseEnd {text : CStr} {addr : Addr} : KeepsTo V.Ends (Follows V R) (parseEnd text addr) :=
  KeepsTo.bind keeps_converted fun _ => KeepsTo.ite (fun _ => keeps_rejectArgs) fun _ => KeepsTo.pure _

theorem keeps_parseRange {first : CStr} {rip : Addr} : ∀ {second : Option CStr}, KeepsTo V.Ends (Follows V R) (parseRange first second rip)
  | none => KeepsTo.pure _
  | some _ => KeepsTo.bind (keeps_parseAddr keeps_rejectArgs) fun _ => KeepsTo.bind keeps_parseEnd fun _ => KeepsTo.pure _

theorem keeps_quotedBytes : ∀ cs bytes, KeepsTo V.Ends (Follows V R) (quotedBytes cs bytes)
  | [], _ => keeps_reject ⟨verbatim_error rfl, trivial⟩
  | _ :: cs, _ => KeepsTo.ite (fun _ => KeepsTo.pure _) fun _ => KeepsTo.bind (KeepsTo.when fun _ => KeepsTo.fault (V.of_formatted nofun)) fun _ =>
    keeps_quotedBytes cs _

theorem keeps_collectBytes : ∀ args bytes, KeepsTo V.Ends (Follows V R) (collectBytes args bytes)
  | [], _ => KeepsTo.pure _
  | _ :: args, _ => by
    unfold collectBytes
    refine KeepsTo.ite (fun _ => KeepsTo.pure _) fun _ => KeepsTo.ite (fun _ => ?_) fun _ => ?_
    · exact KeepsTo.bind (keeps_rejectIf (keeps_rejectText rfl)) fun _ => KeepsTo.bind (keeps_quotedBytes _ _) fun _ =>
        keeps_collectBytes args _
    · dsimp only
      generalize Numeral.strtoul _ _ = r
      exact KeepsTo.bind keeps_converted fun _ => KeepsTo.bind (keeps_rejectIf keeps_rejectArgs) fun _ => keeps_collectBytes args _

theorem keeps_printAllocated {n : Nat} {title : String} {rows : List (List Arg)} : KeepsTo V.Ends (Follows V R) (printAllocated env n title rows) :=
  KeepsTo.bind (KeepsTo.each (fun _ => KeepsTo.each (fun _ => keeps_allocate) _) _) fun _ => keeps_print trivial

theorem keeps_insertAlias {id : Int} {type : Char} :
    ∀ {name orgCmd : Option String}, KeepsTo V.Ends (Follows V R) (insertAlias env name orgCmd id type)
  | none, none | none, some _ | some _, none => KeepsTo.pure _
  | some _, some _ => by
    refine KeepsTo.bind KeepsTo.get fun _ => KeepsTo.ite (fun _ => keeps_failed) fun _ => KeepsTo.ite (fun _ => keeps_failed) fun _ =>
      KeepsTo.bind keeps_allocated fun _ => KeepsTo.ite (fun _ => keeps_failedText rfl) fun _ => KeepsTo.bind keeps_allocated fun _ =>
        KeepsTo.bind keeps_allocated fun _ => KeepsTo.ite (fun _ => keeps_failedText rfl) fun _ => ?_
    exact KeepsTo.bind (KeepsTo.modify fun s => .quiet (refl_of R s.state) rfl) fun _ => KeepsTo.bind keeps_printf fun _ => KeepsTo.pure _

/-! ### The command line -/

theorem keeps_collectArgs : ∀ tokens args size, KeepsTo V.Ends (Follows V R) (collectArgs env tokens args size)
  | [], _, _ => KeepsTo.bind (KeepsTo.when fun _ => KeepsTo.fault (V.of_formatted nofun)) fun _ => KeepsTo.pure _
  | _ :: tokens, _, _ => KeepsTo.bind (KeepsTo.when fun _ => KeepsTo.fault (V.of_formatted nofun)) fun _ => KeepsTo.bind keeps_allocated fun _ =>
    KeepsTo.ite (fun _ => keeps_failed) fun _ => KeepsTo.ite (fun _ => KeepsTo.bind keeps_allocated fun _ =>
      KeepsTo.ite (fun _ => keeps_failed) fun _ => keeps_collectArgs tokens _ _) fun _ => keeps_collectArgs tokens _ _

theorem keeps_commandLine {input : CStr} : KeepsTo V.Ends (Follows V R) (commandLine env input) := by
  refine KeepsTo.ite (fun _ => KeepsTo.bind (KeepsTo.modify fun s => .quiet (refl_of R s.state) rfl) fun _ => KeepsTo.pure _) fun _ => ?_
  refine KeepsTo.bind KeepsTo.get fun s => ?_
  cases s.history.getLast? with
  | none => exact KeepsTo.pure _
  | some last =>
    exact KeepsTo.ite (fun _ => KeepsTo.pure _) fun _ => KeepsTo.bind keeps_allocated fun _ =>
      KeepsTo.ite (fun _ => KeepsTo.pure _) fun _ => KeepsTo.pure _

theorem keeps_getCommand : KeepsTo V.Ends (Follows V R) (getCommand env) := by
  have hinterrupt : ∀ g : Session → Bool, KeepsTo V.Ends (Follows V R) (Exec.modify fun s => { s with interrupted := g s } : UiM Unit) := fun _ =>
    KeepsTo.modify fun s => .quiet (refl_of R s.state) rfl
  refine KeepsTo.bind (keeps_answer fun _ => ⟨_, _, rfl⟩) fun t => KeepsTo.bind (hinterrupt _) fun _ => KeepsTo.bind KeepsTo.get fun s =>
    KeepsTo.ite (fun _ => KeepsTo.bind (hinterrupt _) fun _ => KeepsTo.pure _) fun _ => ?_
  cases (env.readline t).1 with
  | none => exact KeepsTo.fault (V.of_formatted nofun)
  | some input =>
    refine KeepsTo.bind keeps_commandLine fun line => KeepsTo.bind keeps_allocated fun _ => KeepsTo.ite (fun _ => keeps_failed) fun _ => ?_
    cases line with
    | none => exact KeepsTo.fault (V.of_formatted nofun)
    | some line => exact KeepsTo.bind (keeps_collectArgs _ _ _) fun _ => KeepsTo.pure _

/-! ### Auxiliary vectors -/

theorem keeps_targetReadAuxv : KeepsTo V.Ends (Follows V R) (targetReadAuxv env) := by
  refine KeepsTo.bind keeps_inferior fun _ => KeepsTo.bind (keeps_answer answered_ok) fun r => ?_
  cases r with
  | error _ => exact keeps_failed
  | ok _ =>
    refine KeepsTo.bind keeps_allocated fun _ => KeepsTo.ite (fun _ => keeps_failedText rfl) fun _ => KeepsTo.bind (keeps_answer fun _ => ⟨_, _, rfl⟩) fun _ =>
      KeepsTo.bind (keeps_answer answered_ok) fun r => ?_
    cases r with
    | error _ => exact keeps_failed
    | ok _ => exact KeepsTo.ite (fun _ => keeps_failed) fun _ => KeepsTo.pure _

theorem keeps_parseRecords {buffer : List Byte} {len size maxEntries : Nat} :
    ∀ fuel i, KeepsTo V.Ends (Follows V R) (parseRecords buffer len size maxEntries fuel i)
  | 0, _ => KeepsTo.pure _
  | fuel + 1, _ => KeepsTo.ite (fun _ => KeepsTo.pure _) fun _ => KeepsTo.bind (KeepsTo.when fun _ => KeepsTo.fault (V.of_formatted nofun)) fun _ =>
    KeepsTo.ite (fun _ => KeepsTo.pure _) fun _ => KeepsTo.bind (KeepsTo.when fun _ => KeepsTo.fault (V.of_formatted nofun)) fun _ =>
      KeepsTo.bind (KeepsTo.when fun _ => KeepsTo.fault (V.of_formatted nofun)) fun _ => KeepsTo.bind (keeps_parseRecords fuel _) fun _ => KeepsTo.pure _

theorem keeps_parseAuxv {buffer : List Byte} {len : Nat} {is64bit : Bool} : KeepsTo V.Ends (Follows V R) (parseAuxv env buffer len is64bit) := by
  unfold parseAuxv
  refine KeepsTo.ite (fun _ => KeepsTo.pure _) fun _ => KeepsTo.bind keeps_allocated fun _ => KeepsTo.ite (fun _ => KeepsTo.pure _) fun _ => ?_
  exact KeepsTo.bind (keeps_parseRecords _ _) fun _ => KeepsTo.bind (KeepsTo.when fun _ => KeepsTo.fault (V.of_formatted nofun)) fun _ => KeepsTo.pure _

/-! ### Disassembly -/

theorem keeps_findSymbol {funcName : String} : ∀ scns, KeepsTo V.Ends (Follows V R) (findSymbol funcName scns)
  | [] => KeepsTo.pure _
  | scn :: scns => by
    refine KeepsTo.ite (fun _ => keeps_findSymbol scns) fun _ => KeepsTo.ite (fun _ => ?_) fun _ => keeps_findSymbol scns
    refine KeepsTo.bind (KeepsTo.when fun _ => KeepsTo.fault (V.of_formatted nofun)) fun _ => ?_
    cases scn.findSym funcName with
    | some sym => exact KeepsTo.pure _
    | none => exact keeps_findSymbol scns

theorem keeps_getFunctionBounds {path : Option String} {funcName : String} : KeepsTo V.Ends (Follows V R) (getFunctionBounds env path funcName) := by
  refine KeepsTo.bind (keeps_answer fun _ => ⟨_, _, rfl⟩) fun _ => KeepsTo.ite (fun _ => keeps_failed) fun _ =>
    KeepsTo.bind (keeps_answer answered_ok) fun r => ?_
  cases r with
  | error _ => exact keeps_failed
  | ok _ =>
    refine KeepsTo.bind (keeps_answer fun _ => ⟨_, _, rfl⟩) fun t => ?_
    cases env.elf t path with
    | none => exact keeps_failed
    | some file =>
      refine KeepsTo.ite (fun _ => keeps_failed) fun _ => KeepsTo.bind (keeps_findSymbol _) fun r => ?_
      cases r with
      | some _ => exact KeepsTo.pure _
      | none => exact keeps_failed

theorem keeps_findSegment {file : List Byte} {vaddr : Addr} {size : BitVec 64} :
    ∀ n i pos, KeepsTo V.Ends (Follows V R) (findSegment file vaddr size n i pos)
  | 0, _, _ => keeps_failed
  | n + 1, i, pos => by
    unfold findSegment
    cases readPhdr file pos with
    | none => exact keeps_failed
    | some phdr =>
      exact KeepsTo.ite (fun _ => KeepsTo.bind (KeepsTo.when fun _ => keeps_printf) fun _ => KeepsTo.pure _) fun _ => keeps_findSegment n _ _

theorem keeps_getFileOffsetFromVaddr {file : OpenFile} {vaddr : Addr} {size : BitVec 64} :
    KeepsTo V.Ends (Follows V R) (getFileOffsetFromVaddr file vaddr size) :=
  KeepsTo.ite (fun _ => keeps_failedText rfl) fun _ => KeepsTo.ite (fun _ => keeps_failedText rfl) fun _ => keeps_findSegment _ _ _

theorem keeps_storeChars {block : List Char} {k : Nat} {cs : List Char} : KeepsTo V.Ends (Follows V R) (storeChars block k cs) :=
  KeepsTo.bind (KeepsTo.when fun _ => KeepsTo.fault (V.of_formatted nofun)) fun _ => KeepsTo.pure _

theorem keeps_printBytes : ∀ bytes block p, KeepsTo V.Ends (Follows V R) (printBytes bytes block p)
  | [], _, _ => KeepsTo.pure _
  | b :: bytes, _, _ => by
    unfold printBytes
    generalize (hexByte b).toList ++ [' ', '\x00'] = cs
    exact KeepsTo.bind keeps_storeChars fun _ => keeps_printBytes bytes _ _

theorem keeps_formatOpcodes {bytes : List Byte} {stale : List Char} : KeepsTo V.Ends (Follows V R) (formatOpcodes bytes stale) :=
  KeepsTo.bind (keeps_printBytes _ _ _) fun _ => KeepsTo.bind (KeepsTo.when fun _ => KeepsTo.fault (V.of_formatted nofun)) fun _ =>
    KeepsTo.bind keeps_storeChars fun _ => KeepsTo.bind (KeepsTo.when fun _ => KeepsTo.fault (V.of_formatted nofun)) fun _ => KeepsTo.pure _

theorem keeps_makeNode {addr : Addr} {buffer : List Byte} {offset : Nat} {instr : Instruction} :
    KeepsTo V.Ends (Follows V R) (makeNode env addr buffer offset instr) := by
  refine KeepsTo.bind keeps_allocated fun _ => KeepsTo.ite (fun _ => keeps_failedText rfl) fun _ => KeepsTo.bind keeps_allocated fun _ =>
    KeepsTo.ite (fun _ => keeps_failedText rfl) fun _ => KeepsTo.bind (KeepsTo.when fun _ => KeepsTo.fault (V.of_formatted nofun)) fun _ => ?_
  exact KeepsTo.bind (keeps_answer fun _ => ⟨_, _, rfl⟩) fun _ => KeepsTo.bind keeps_formatOpcodes fun _ => KeepsTo.bind keeps_allocated fun _ =>
    KeepsTo.ite (fun _ => keeps_failedText rfl) fun _ => KeepsTo.pure _

theorem keeps_disassembleLoop {buffer : List Byte} {isNotFunc : Bool} :
    ∀ fuel addr offset count, KeepsTo V.Ends (Follows V R) (disassembleLoop env buffer isNotFunc fuel addr offset count)
  | 0, _, _, _ => KeepsTo.pure _
  | fuel + 1, addr, offset, count => by
    unfold disassembleLoop
    cases env.zydis addr (buffer.drop offset) with
    | none => exact KeepsTo.pure _
    | some instr =>
      refine KeepsTo.bind keeps_makeNode fun r => ?_
      cases r with
      | none => exact KeepsTo.pure _
      | some node =>
        refine KeepsTo.ite (fun _ => KeepsTo.pure _) fun _ => KeepsTo.ite (fun _ => KeepsTo.pure _) fun _ => ?_
        exact KeepsTo.bind (keeps_disassembleLoop fuel _ _ _) fun _ => KeepsTo.pure _

theorem keeps_disassembleRange {file : OpenFile} {addr : Addr} {offset size : BitVec 64} {isNotFunc : Bool} :
    KeepsTo V.Ends (Follows V R) (disassembleRange env file addr offset size isNotFunc) := by
  refine KeepsTo.bind keeps_allocated fun _ => KeepsTo.ite (fun _ => keeps_failedText rfl) fun _ =>
    KeepsTo.ite (fun _ => keeps_failed) fun _ => ?_
  exact KeepsTo.ite (fun _ => keeps_failed) fun _ => KeepsTo.bind (keeps_disassembleLoop _ _ _ _) fun _ => KeepsTo.pure _

theorem keeps_disassemble {startAddr endAddr : Addr} : KeepsTo V.Ends (Follows V R) (disassemble env startAddr endAddr) := by
  refine KeepsTo.bind keeps_inferior fun _ => KeepsTo.ite (fun _ => keeps_failedText rfl) fun _ =>
    KeepsTo.bind (keeps_answer answered_ok) fun r => ?_
  cases r with
  | error _ => exact keeps_failed
  | ok file =>
    refine KeepsTo.bind keeps_getFileOffsetFromVaddr fun r => ?_
    cases r with
    | none => exact KeepsTo.pure _
    | some range => exact keeps_disassembleRange

theorem keeps_printDisassembly {instructions : List Disassembled} {count : Int} :
    KeepsTo V.Ends (Follows V R) (printDisassembly env instructions count) :=
  KeepsTo.ite (fun _ => keeps_printf) fun _ => KeepsTo.bind (KeepsTo.mapM (fun _ => KeepsTo.bind keeps_allocate fun _ =>
    KeepsTo.bind keeps_allocate fun _ => KeepsTo.bind keeps_copyText fun _ => KeepsTo.bind keeps_copyText fun _ => KeepsTo.pure _) _)
      fun _ => keeps_print trivial

theorem keeps_disassembleAt {startAddr endAddr : Addr} : KeepsTo V.Ends (Follows V R) (disassembleAt env startAddr endAddr) := by
  refine KeepsTo.bind keeps_disassemble fun r => ?_
  cases r with
  | none => exact KeepsTo.pure _
  | some instructions => exact keeps_printDisassembly

theorem keeps_functionStart {name : String} : KeepsTo V.Ends (Follows V R) (functionStart env name) := by
  refine KeepsTo.bind keeps_inferior fun _ => KeepsTo.bind keeps_getFunctionBounds fun r => ?_
  cases r with
  | none => exact KeepsTo.error _
  | some bounds => exact KeepsTo.pure _

end Scratch

/-! ### The handlers -/

theorem keeps_handleInfoAuxv [IgnoresScratch R] : KeepsTo V.Ends (Follows V R) (handleInfoAuxv env command) := by
  refine KeepsTo.bind keeps_invalidIf fun _ => KeepsTo.bind keeps_inferior fun _ => KeepsTo.bind (keeps_rejectIf (keeps_rejectText rfl)) fun _ =>
    KeepsTo.bind keeps_targetReadAuxv fun r => ?_
  cases r with
  | none => exact KeepsTo.pure _
  | some raw =>
    refine KeepsTo.bind keeps_parseAuxv fun r => ?_
    cases r with
    | none => exact keeps_rejectText rfl
    | some entries =>
      exact KeepsTo.bind keeps_printf fun _ => KeepsTo.bind keeps_printf fun _ => KeepsTo.bind keeps_printf fun _ =>
        KeepsTo.each (fun _ => keeps_printAuxvEntry) _

theorem keeps_handleSetAlias [IgnoresScratch R] : KeepsTo V.Ends (Follows V R) (handleSetAlias env command) := by
  unfold handleSetAlias
  split
  · exact KeepsTo.bind KeepsTo.get fun _ => KeepsTo.bind keeps_insertAlias fun _ => KeepsTo.ite (fun _ => keeps_printOk) fun _ =>
      keeps_rejectText rfl
  · exact keeps_rejectText rfl

/-- `R` is kept by the calls of the library but the one that ends the inferior. -/
def KeptByLibrary (env : UiEnv) (R : State → State → Prop) : Prop := ∀ op : Op, op ≠ .destroy → Keeps R (op.call env.toEnv)

/-- The calls whose message may not come out as it is: it may quote what was typed, or lack an argument. -/
inductive Op.MayGarble : Op → Prop where
  | run : MayGarble .run
  | setFilepath {path : Option String} : MayGarble (.setFilepath path)
  | setBreakpointFunction {function : String} : MayGarble (.setBreakpointFunction function)
  | setMemory {addr : Addr} {data : List Byte} : MayGarble (.setMemory addr data)

/-- `V` has the messages of the other calls. -/
def Printing.TellsCalls (V : Printing) (env : UiEnv) : Prop := ∀ op : Op, ¬op.MayGarble → V.Tells (op.call env.toEnv)

/-- A call whose result is not looked at is kept as the call itself. -/
theorem keeps_of_discard {x : SylvanM α} (hx : Keeps R (do
    let _ ← x
    pure ())) : Keeps R x := fun s => wp_bind.mp (hx s)

theorem Printing.Tells.of_discard {x : SylvanM α} (hx : V.Tells (do
    let _ ← x
    pure ())) : V.Tells x := fun s => wp_bind.mp (hx s)

theorem Printing.Tells.keepsTo {x : SylvanM α} (hx : V.Tells x) (hkeeps : Keeps R x) : KeepsTo V.Ends R x :=
  ⟨hkeeps, hx.imp (fun _ _ => id) fun _ _ _ => trivial⟩

theorem keeps_toggle (h : KeptByLibrary env R) {isDisable : Bool} {addr : Addr} : Keeps R (toggle env isDisable addr) :=
  Keeps.ite (fun _ => h (.breakpoint (.disable addr)) Op.noConfusion) fun _ => h (.breakpoint (.enable addr)) Op.noConfusion

/-- A call that is not the last, and whose message comes out as it is -/
theorem keeps_call (h : KeptByLibrary env R) (ht : V.TellsCalls env) (op : Op) (hop : op ≠ .destroy) (hplain : ¬op.MayGarble) :
    KeepsTo V.Ends (Follows V R) (orLastError (op.call env.toEnv)) := keeps_orLastError (h op hop) (ht op hplain)

theorem keeps_toggled (h : KeptByLibrary env R) (ht : V.TellsCalls env) {isDisable : Bool} {addr : Addr} :
    KeepsTo V.Ends (Follows V R) (orLastError (toggle env isDisable addr)) := by
  refine keeps_orLastError (keeps_toggle h) (FailsWith.ite ?_ ?_)
  · exact ht (.breakpoint (.disable addr)) nofun
  · exact ht (.breakpoint (.enable addr)) nofun

section Handlers
variable [IgnoresScratch R] (h : KeptByLibrary env R) (ht : V.TellsCalls env)
include h ht

theorem keeps_readRegs : KeepsTo V.Ends (Follows V R) (orLastError (readRegs env)) := by
  refine keeps_orLastError (Keeps.bind keeps_malloc fun _ => Keeps.ite (fun _ => ?_) fun _ => keeps_setCode) ?_
  · exact keeps_of_discard (h .getRegs Op.noConfusion)
  · refine FailsWith.bind (fun _ => trivial) fun _ => FailsWith.ite ?_ fun _ => V.of_verbatim plain_strerror.error
    exact Printing.Tells.of_discard (ht .getRegs nofun)

theorem keeps_handleInfoRegisters : KeepsTo V.Ends (Follows V R) (handleInfoRegisters env command) :=
  KeepsTo.bind keeps_invalidIf fun _ => KeepsTo.bind (keeps_readRegs h ht) fun _ => keeps_printAllocated

theorem keeps_handleSetReg : KeepsTo V.Ends (Follows V R) (handleSetReg env command) := by
  unfold handleSetReg
  split
  · refine KeepsTo.bind keeps_invalidIf fun _ => ?_
    split
    · exact keeps_rejectText rfl
    · refine KeepsTo.bind (keeps_rejectIf (keeps_rejectUsage rfl)) fun _ => KeepsTo.bind keeps_converted fun _ =>
        KeepsTo.bind (keeps_rejectIf (keeps_reject ⟨trivial, trivial⟩)) fun _ => KeepsTo.bind (keeps_readRegs h ht) fun _ => ?_
      exact KeepsTo.bind (keeps_call h ht (.setRegs _) Op.noConfusion nofun) fun _ => keeps_printOk
  · exact keeps_rejectUsage rfl

theorem keeps_handleStepInst : KeepsTo V.Ends (Follows V R) (handleStepInst env command) :=
  KeepsTo.bind keeps_invalidIf fun _ => KeepsTo.bind (keeps_call h ht .stepinst Op.noConfusion nofun) fun _ => keeps_printOk

theorem keeps_handleSetArgs : KeepsTo V.Ends (Follows V R) (handleSetArgs env command) := by
  refine KeepsTo.bind keeps_allocated fun _ => KeepsTo.ite (fun _ => ?_) fun _ => keeps_rejectText rfl
  exact KeepsTo.bind (keeps_call h ht (.setArgs (some (String.intercalate " " command.texts))) Op.noConfusion nofun) fun _ =>
    KeepsTo.bind keeps_inferior fun _ => keeps_printOk

theorem keeps_setAt {addr : Addr} : KeepsTo V.Ends (Follows V R) (setAt env addr) :=
  KeepsTo.bind (keeps_call h ht (.breakpoint (.set addr)) Op.noConfusion nofun) fun _ => keeps_printOk

theorem keeps_handleBreakpointSet (hquotes : ∀ function, V.Tells (setBreakpointFunction env.toEnv function)) :
    KeepsTo V.Ends (Follows V R) (handleBreakpointSet env command) := by
  unfold handleBreakpointSet
  cases command.arg 1 with
  | none => exact keeps_rejectUsage rfl
  | some text =>
    refine KeepsTo.bind keeps_invalidIf fun _ => KeepsTo.bind keeps_converted fun _ => KeepsTo.ite (fun _ => ?_) fun _ => keeps_setAt h ht
    exact KeepsTo.bind (keeps_orLastError (h (.setBreakpointFunction _) Op.noConfusion) (hquotes _)) fun _ => keeps_printOk

theorem keeps_toggleBreakpoint {isDisable : Bool} : KeepsTo V.Ends (Follows V R) (toggleBreakpoint env command isDisable) :=
  keeps_withTarget ⟨verbatim_error rfl, trivial⟩ rfl rfl
    (fun _ => KeepsTo.bind keeps_inferior fun _ => KeepsTo.bind (keeps_toggled h ht) fun _ => KeepsTo.bind keeps_inferior fun _ => keeps_printOk)
    fun _ => KeepsTo.bind (keeps_toggled h ht) fun _ => keeps_printOk

theorem keeps_handleDeleteBreakpoint : KeepsTo V.Ends (Follows V R) (handleDeleteBreakpoint env command) :=
  keeps_withTarget ⟨verbatim_error rfl, trivial⟩ rfl rfl
    (fun _ => KeepsTo.bind keeps_inferior fun _ => KeepsTo.bind (keeps_call h ht (.breakpoint (.unset _)) Op.noConfusion nofun) fun _ =>
      KeepsTo.bind keeps_inferior fun _ => keeps_printOk)
    fun addr => KeepsTo.bind (keeps_call h ht (.breakpoint (.unset addr)) Op.noConfusion nofun) fun _ => keeps_printOk

omit ht in
theorem keeps_handleWriteMemory (hwrites : ∀ addr data, V.Tells (setMemory env.toEnv addr data)) :
    KeepsTo V.Ends (Follows V R) (handleWriteMemory env command) := by
  have husage : KeepsTo V.Ends (Follows V R) (reject writeUsage : UiM Unit) := keeps_reject ⟨verbatim_error rfl, trivial, trivial⟩
  unfold handleWriteMemory
  split
  · exact husage
  · split
    · exact husage
    · refine KeepsTo.bind (keeps_rejectIf husage) fun _ => KeepsTo.bind (keeps_parseAddr keeps_rejectArgs) fun _ =>
        KeepsTo.bind (keeps_collectBytes _ _) fun _ => ?_
      exact KeepsTo.bind (keeps_orLastError (h (.setMemory _ _) Op.noConfusion) (hwrites _ _)) fun _ => keeps_printOk

theorem keeps_handleDisassemble : KeepsTo V.Ends (Follows V R) (handleDisassemble env command) := by
  unfold handleDisassemble
  split
  · exact keeps_rejectUsage rfl
  · refine KeepsTo.ite (fun _ => ?_) fun _ => ?_
    · exact KeepsTo.bind (keeps_readRegs h ht) fun _ => KeepsTo.bind keeps_parseRange fun _ => keeps_disassembleAt
    · exact KeepsTo.bind keeps_parseRange fun _ => KeepsTo.bind keeps_functionStart fun _ => keeps_disassembleAt

theorem keeps_readWords {pTable data : Bool} : ∀ n addr, KeepsTo V.Ends (Follows V R) (readWords env pTable data n addr)
  | 0, _ => KeepsTo.pure _
  | n + 1, addr => by
    have hread := Printing.Tells.of_discard (ht (.getMemory addr) nofun)
    refine KeepsTo.bind (keeps_lib (hread.keepsTo (keeps_of_discard (h (.getMemory addr) Op.noConfusion)))) fun r => ?_
    cases r with
    | error _ => exact KeepsTo.bind KeepsTo.get fun _ => keeps_rejectArgs
    | ok word =>
      exact KeepsTo.bind (KeepsTo.when fun _ => KeepsTo.fault (V.of_formatted nofun)) fun _ => KeepsTo.bind (KeepsTo.when fun _ => keeps_printf) fun _ =>
        KeepsTo.bind (keeps_readWords n _) fun _ => KeepsTo.pure _

theorem keeps_handleReadMemory : KeepsTo V.Ends (Follows V R) (handleReadMemory env command) := by
  unfold handleReadMemory
  dsimp only
  split
  · exact keeps_rejectText rfl
  · exact KeepsTo.bind keeps_parseRows fun _ => KeepsTo.bind (keeps_rejectIf (keeps_rejectUsage rfl)) fun _ =>
      KeepsTo.bind (keeps_parseAddr keeps_rejectArgs) fun _ => KeepsTo.bind keeps_allocated fun _ => KeepsTo.bind (keeps_readWords h ht _ _) fun _ =>
        KeepsTo.when fun _ => keeps_printAllocated

/-- The commands that may renew the inferior. -/
inductive Handler.IsRenewal : Handler → Prop where
  | addInferior : IsRenewal .addInferior
  | file : IsRenewal .file
  | attach : IsRenewal .attach

/-- The other commands whose error may not come out as it is. -/
inductive Handler.MayGarble : Handler → Prop where
  | breakpointSet : MayGarble .breakpointSet
  | run : MayGarble .run
  | writeMemory : MayGarble .writeMemory

/-- Every other command keeps what the calls of the library keep. -/
theorem Handler.keeps (handler : Handler) (hrenews : ¬handler.IsRenewal)
    (htells : handler.MayGarble → ∀ op : Op, V.Tells (op.call env.toEnv)) : KeepsTo V.Ends (Follows V R) (handler.body env command) := by
  cases handler with
  | help => exact keeps_printCommands
  | exit => exact KeepsTo.bind keeps_printf fun _ => KeepsTo.error _
  | «continue» => exact keeps_call h ht .cont Op.noConfusion nofun
  | breakpointSet => exact keeps_handleBreakpointSet h ht fun function => htells .breakpointSet (.setBreakpointFunction function)
  | info | set => exact KeepsTo.ite (fun _ => keeps_invalidArguments) fun _ => keeps_printCommands
  | addInferior => exact absurd .addInferior hrenews
  | disassemble => exact keeps_handleDisassemble h ht
  | run => exact KeepsTo.bind keeps_invalidIf fun _ => keeps_orLastError (h .run Op.noConfusion) (htells .run .run)
  | stepInst => exact keeps_handleStepInst h ht
  | file => exact absurd .file hrenews
  | attach => exact absurd .attach hrenews
  | disableBreakpoint | enableBreakpoint => exact keeps_toggleBreakpoint h ht
  | deleteBreakpoint => exact keeps_handleDeleteBreakpoint h ht
  | readMemory => exact keeps_handleReadMemory h ht
  | writeMemory => exact keeps_handleWriteMemory h fun addr data => htells .writeMemory (.setMemory addr data)
  | infoRegisters => exact keeps_handleInfoRegisters h ht
  | infoArgs => exact KeepsTo.bind keeps_invalidIf fun _ => KeepsTo.bind keeps_inferior fun _ => keeps_printf
  | infoAuxv => exact keeps_handleInfoAuxv
  | infoBreakpoints =>
    exact KeepsTo.bind keeps_invalidIf fun _ => KeepsTo.bind keeps_inferior fun _ => KeepsTo.bind (KeepsTo.when fun _ => KeepsTo.fault (V.of_formatted nofun)) fun _ =>
      keeps_printAllocated
  | infoInferiors =>
    exact KeepsTo.bind keeps_invalidIf fun _ => KeepsTo.bind keeps_inferior fun _ => KeepsTo.bind keeps_printf fun _ =>
      KeepsTo.bind keeps_printf fun _ => KeepsTo.bind keeps_printf fun _ => KeepsTo.bind keeps_printf fun _ => keeps_printf
  | infoAlias =>
    exact KeepsTo.bind keeps_invalidIf fun _ => KeepsTo.bind keeps_printf fun _ => KeepsTo.bind keeps_printf fun _ => KeepsTo.bind KeepsTo.get fun _ =>
      KeepsTo.each (fun _ => keeps_printf) _
  | setArgs => exact keeps_handleSetArgs h ht
  | setReg => exact keeps_handleSetReg h ht
  | setAlias => exact keeps_handleSetAlias

end Handlers

end

end Sylvan
