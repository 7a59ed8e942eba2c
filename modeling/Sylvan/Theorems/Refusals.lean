import Sylvan.Theorems.Commands
import Sylvan.Theorems.Patches

/-! Commands that refuse. An error is printed, and the breakpoint table and the memory of every process stay as they are. A
    command that prints no error does not refuse: on an inferior that does not run, the calls for a breakpoint that is in
    its table succeed. -/

namespace Sylvan
open Exec

def Output.IsError : Output → Prop
  | .error _ _ => True
  | .stderr _ _ => True
  | _ => False

theorem exists_error {format : String} {args : List Arg} {outputs : List Output} :
    ∃ o ∈ Output.error format args :: outputs, o.IsError := ⟨_, List.mem_cons_self .., trivial⟩

/-- Between `s` and `t` the breakpoint table and the memory of every process stayed the same. -/
structure Session.Unchanged (s t : Session) : Prop where
  printed : s.out <+: t.out
  breakpoints : t.state.inf.breakpoints = s.state.inf.breakpoints
  breakpointCount : t.state.inf.breakpointCount = s.state.inf.breakpointCount
  procs : t.state.procs = s.state.procs

/-- Besides, an error was reported. -/
structure Session.Refused (s t : Session) : Prop extends Session.Unchanged s t where
  said : ∃ outputs, t.out = s.out ++ outputs ∧ ∃ o ∈ outputs, o.IsError

/-- Run from `s`, a command refuses. -/
def Refuses (x : UiM Unit) (s : Session) : Prop := wp (fun _ _ => False) x (fun _ => s.Refused) (fun _ => s.Refused) s

/-- Nothing of what was printed is an error. -/
def Session.Clean (s : Session) : Prop := ∀ o ∈ s.out, ¬o.IsError

namespace Session
variable {s t u : Session} {outputs : List Output}

theorem Unchanged.trans (h : s.Unchanged t) (h' : t.Unchanged u) : s.Unchanged u :=
  ⟨h.printed.trans h'.printed, h'.breakpoints.trans h.breakpoints, h'.breakpointCount.trans h.breakpointCount,
    h'.procs.trans h.procs⟩

theorem Unchanged.refused (h : s.Unchanged t) (h' : t.Refused u) : s.Refused u := by
  obtain ⟨before, hbefore⟩ := h.printed
  obtain ⟨after, hafter, o, ho, herr⟩ := h'.said
  refine ⟨h.trans h'.toUnchanged, before ++ after, ?_, o, List.mem_append_right _ ho, herr⟩
  rw [hafter, ← hbefore, List.append_assoc]

theorem Clean.print {t : State} {o : Output} (h : s.Clean) (ho : ¬o.IsError) :
    Clean { s with state := t, out := s.out ++ [o] } := by
  intro p hp
  rcases List.mem_append.mp hp with hp | hp
  · exact h p hp
  · obtain rfl := List.mem_singleton.mp hp
    exact ho

end Session

section
variable {s : Session} {outputs : List Output}

end

theorem arg_of_tokens {command : Argv} {c : CStr} {k : Nat} (h : command.tokens[k]? = some c) : command.arg k = some c := by
  obtain ⟨hk, rfl⟩ := List.getElem?_eq_some_iff.mp h
  exact Argv.arg_of_lt hk

/-! ### Inferiors that do not run -/

/-- The inferior does not run, and entry `i` of its table is the one for `addr`. -/
structure State.Marked (i : Nat) (addr : Addr) (s : State) : Prop where
  find : breakpointFindByAddr s.inf addr = some i
  tableOk : s.inf.TableOk
  idle : ¬s.inf.IsActive

section
variable {env : Env} {F : Fault → State → Prop} {s : State} {i : Nat} {addr : Addr}

theorem State.Marked.withScratch (h : s.Marked i addr) (x : Scratch) : (s.withScratch x).Marked i addr :=
  ⟨h.find, h.tableOk, h.idle⟩

theorem State.Marked.lt (h : s.Marked i addr) : i < s.inf.count := (Inferior.find_some h.find).1

end

section
variable {env : UiEnv} {F : Fault → State → Prop} {s : State} {i : Nat} {addr : Addr}

end

section
variable {env : UiEnv} {F : Fault → Session → Prop} {s : Session} {i : Nat} {addr : Addr}

end

end Sylvan
