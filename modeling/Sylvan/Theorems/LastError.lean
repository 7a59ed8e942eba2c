import Sylvan.Lib.Numeral
import Sylvan.Op
import Sylvan.Theorems.Rules

/-! The last error is the one that was returned: whatever call of the library fails, and wherever, the code
    that it returns is the one in `sylvan_last_error` (`Recorded`). Two functions return a code that they
    do not record, and their callers drop it. The message has a percent sign only where it quotes a text that has one,
    and three functions quote what the user typed (`Op.Names`). -/

namespace Sylvan
open Exec

/-- `code` is the one in `sylvan_last_error`. -/
def Recorded (code : Code) (s : State) : Prop := s.scratch.lastError.code = code

/-- No assertion failed. -/
def Orderly (fault : Fault) (_ : State) : Prop := fault ≠ .assertFailed

/-- `F` has each fault but that of a message that lacks an argument. -/
class Formats (F : Fault → State → Prop) : Prop where
  fault {f : Fault} (s : State) (formatted : f ≠ .missingArgument) : F f s

/-- `F` has each fault that is neither that nor a failed assertion. -/
class Lenient (F : Fault → State → Prop) : Prop where
  fault {f : Fault} (s : State) (orderly : f ≠ .assertFailed) (formatted : f ≠ .missingArgument) : F f s

instance {F : Fault → State → Prop} [Formats F] : Lenient F := ⟨fun s _ h => Formats.fault s h⟩

instance : Lenient Orderly := ⟨fun _ h _ => h⟩

instance {c : Prop} : Formats fun f _ => f = .missingArgument → c := ⟨fun _ h h' => absurd h' h⟩

/-! ### Texts -/

/-- A text without a percent sign. -/
def Plain (text : String) : Prop := '%' ∉ text.toList

section Texts
variable {a b : String}

theorem plain_ofList {cs : List Char} (h : cs.elem '%' = false) : Plain (String.ofList cs) := by
  unfold Plain
  rw [String.toList_ofList]
  simpa using h

theorem Plain.append (ha : Plain a) (hb : Plain b) : Plain (a ++ b) := by
  unfold Plain at *
  simp [ha, hb]

/-- A text that is cut within the part `b` of it -/
theorem Plain.cut_append {c : String} {n : Nat} (ha : Plain a) (hb : Plain (cut (n - a.length) b)) (hc : Plain c) :
    Plain (cut n (a ++ b ++ c)) := by
  unfold Plain at *
  simp only [toList_cut, String.toList_append, List.take_append, String.length_toList, List.mem_append, not_or] at hb ⊢
  exact ⟨⟨fun h => ha (List.mem_of_mem_take h), hb⟩, fun h => hc (List.mem_of_mem_take h)⟩

theorem Plain.cut {n : Nat} (ha : Plain a) : Plain (cut n a) := by
  unfold Plain at *
  rw [toList_cut]
  exact fun h => ha (List.mem_of_mem_take h)

theorem Plain.errnoText (ha : Plain a) (hb : Plain b) : Plain (errnoText a b) := by
  unfold Sylvan.errnoText
  split
  · exact ((ha.append (plain_ofList rfl)).append hb).cut
  · exact ha.cut

theorem plain_toDigits {base n : Nat} (hb : 1 < base) (hb' : base ≤ 16) : Plain (String.ofList (Nat.toDigits base n)) := by
  unfold Plain
  rw [String.toList_ofList]
  intro h
  have hdigit := Numeral.isDigit_of_mem_toDigits hb hb' h
  have hvalue : Numeral.digitValue '%' = 36 := rfl
  simp [Numeral.isDigit, hvalue] at hdigit
  omega

theorem plain_nat {n : Nat} : Plain (toString n) := plain_toDigits (by decide) (by decide)

theorem plain_int : ∀ {n : Int}, Plain (toString n)
  | .ofNat _ => plain_nat
  | .negSucc _ => Plain.append (plain_ofList rfl) plain_nat

/-- `"%d"` in a text -/
theorem plain_with_int {cs ds : List Char} {n : Int} (h : cs.elem '%' = false) (h' : ds.elem '%' = false) :
    Plain (String.ofList cs ++ toString n ++ String.ofList ds) := ((plain_ofList h).append plain_int).append (plain_ofList h')

theorem plain_hex {n : Nat} : Plain (hex n) := plain_toDigits (by decide) (by decide)

theorem plain_hexAlt {n : Nat} : Plain (hexAlt n) := by
  unfold hexAlt
  split
  · exact plain_ofList rfl
  · exact Plain.append (plain_ofList rfl) plain_hex

theorem plain_strerror {code : Code} : Plain (strerror code) := by
  cases code <;> exact plain_ofList rfl

end Texts

/-- What the system puts into a message has no percent sign. -/
structure Env.PlainTexts (env : Env) : Prop where
  strerror : ∀ e, Plain (env.strerror e)

/-- `code` was recorded, with a message that is plain where `texts` are. -/
def Told (env : Env) (texts : String → Prop) (code : Code) (s : State) : Prop :=
  Recorded code s ∧ (env.PlainTexts → (∀ text, texts text → Plain text) → Plain s.scratch.lastError.message)

/-- The search of the table for `name` finds nothing. -/
def SymTable.Lacks (table : SymTable) (name : String) : Prop := ∃ s t, symLookup table name s = .ok none t

/-- The call fails on a text that was typed, and quotes so much of it. -/
inductive Op.Names (env : Env) : Op → State → String → Prop where
  | symbol {s : State} {name : String} (hdwarf : s.inf.dwarfTable.Lacks name) (helf : s.inf.elfTable.Lacks name) :
      Names env (.setBreakpointFunction name) s (cut 256 name)
  | file {s t : State} {filepath newpath : String} {e : Failure} (hpath : canonicalPath env filepath s = .ok newpath t)
      (haccess : env.access t.scratch.clock newpath = some e) : Names env (.setFilepath (some filepath)) s (cut 256 filepath)
  | program {s : State} {path : String} {e : Failure} (hpath : s.inf.realpath = some path)
      (haccess : env.access s.scratch.clock path = some e) : Names env .run s (cut 2041 path)

section
variable {α : Type} {env : Env} {texts : String → Prop} {F : Fault → State → Prop} {G : Fault → State → Prop} [Lenient G]
  {H : Fault → State → Prop} [Formats H] {code : Code} {text : String} {cs : List Char} {id : TableId} {x : SylvanM α}

theorem orderly_interrupted (s : State) : Orderly .interrupted s := nofun

theorem failsWith_fault {E : Code → State → Prop} {fault : Fault} (h : fault ≠ .assertFailed) (h' : fault ≠ .missingArgument) :
    FailsWith G E (Exec.fault fault : SylvanM α) := FailsWith.fault fun s => Lenient.fault s h h'

theorem recorded_of_told (hx : FailsWith F (Told env fun _ => True) x) : FailsWith F Recorded x :=
  hx.imp (fun _ _ => id) fun _ _ => And.left

/-! ### Errors and answers -/

theorem told_setMessage (h : Plain text) : FailsWith F (Told env texts) (setMessage code text : SylvanM α) :=
  fun _ => ⟨rfl, fun _ _ => h.cut⟩

theorem told_literal (h : cs.elem '%' = false) : FailsWith F (Told env texts) (setMessage code (String.ofList cs) : SylvanM α) :=
  told_setMessage (plain_ofList h)

theorem told_setCode : FailsWith F (Told env texts) (setCode code : SylvanM α) := fun _ => ⟨rfl, fun _ _ => plain_strerror⟩

theorem told_setErrnoMsg (h : env.PlainTexts → Plain text) :
    FailsWith F (Told env texts) (setErrnoMsg env code text : SylvanM α) :=
  fun _ => ⟨rfl, fun henv _ => (h henv).errnoText (henv.strerror _)⟩

theorem told_errnoLiteral (h : cs.elem '%' = false) :
    FailsWith F (Told env texts) (setErrnoMsg env code (String.ofList cs) : SylvanM α) := told_setErrnoMsg fun _ => plain_ofList h

theorem told_returnCode : FailsWith F (Told env texts) (returnCode code) :=
  FailsWith.ite (FailsWith.modify _) told_setCode

theorem told_assert {c : Prop} [Decidable c] : FailsWith H (Told env texts) (assert c) :=
  FailsWith.when (FailsWith.fault fun s => Formats.fault s (by decide))

theorem told_attempt (hx : FailsWith F (Told env texts) x) : FailsWith F (Told env texts) (attempt x) := FailsWith.attempt hx

theorem told_attempt_bind {β : Type} {f : Except Code α → SylvanM β} (hx : FailsWith F (Told env texts) x)
    (hok : ∀ a, FailsWith F (Told env texts) (f (.ok a)))
    (herr : ∀ e s, Told env texts e s → wp F (f (.error e)) (fun _ _ => True) (Told env texts) s) :
    FailsWith F (Told env texts) (attempt x >>= f) := FailsWith.attempt_bind hx hok herr

theorem told_handled {call : SylvanM (Except Errno α)} {onError : Errno → SylvanM α} (hc : FailsWith F (Told env texts) call)
    (he : ∀ e, FailsWith F (Told env texts) (onError e)) : FailsWith F (Told env texts) (handled call onError) := by
  refine FailsWith.bind hc fun r => ?_
  cases r with
  | ok a => exact FailsWith.pure a
  | error e => exact he e

theorem told_checked {call : SylvanM (Except Errno α)} (hc : FailsWith F (Told env texts) call)
    (h : env.PlainTexts → Plain text) : FailsWith F (Told env texts) (checked env code text call) :=
  told_handled hc fun _ => told_setErrnoMsg h

theorem told_answered {answer : Nat → Except Failure α} : FailsWith F (Told env texts) (Sys.answered answer) := fun _ =>
  wp_answered fun _ _ => trivial

theorem told_plain {answer : Nat → Option Failure} : FailsWith F (Told env texts) (Sys.plain answer) := told_answered

theorem told_checkedLiteral {call : SylvanM (Except Errno α)} (hc : FailsWith F (Told env texts) call) (h : cs.elem '%' = false) :
    FailsWith F (Told env texts) (checked env code (String.ofList cs) call) := told_checked hc fun _ => plain_ofList h

/-- A check whose text quotes something -/
theorem told_checkedPlain {answer : Nat → Option Failure} {s : State}
    (h : ∀ e, answer s.scratch.clock = some e → (∀ text, texts text → Plain text) → ∀ a, Plain a → Plain (errnoText text a)) :
    wp F (checked env code text (Sys.plain answer)) (fun _ _ => True) (Told env texts) s := by
  unfold checked
  refine wp_handled (wp_plain_answer (fun _ => trivial) fun e he => ?_)
  exact ⟨rfl, fun henv hplain => h e he hplain _ (henv.strerror _)⟩

theorem told_kill {pid : Pid} {sig : Int} : FailsWith F (Told env texts) (Sys.kill env pid sig) := fun _ =>
  wp_kill (fun _ => trivial) fun _ _ => trivial

theorem told_waitpid {pid : Pid} : FailsWith F (Told env texts) (Sys.waitpid env pid) := fun s => by
  unfold wp Sys.waitpid
  cases env.waitpid s.scratch.clock <;> trivial

theorem told_waitpidNohang {pid : Pid} : FailsWith F (Told env texts) (Sys.waitpidNohang env pid) := fun s => by
  unfold wp Sys.waitpidNohang
  rcases env.waitpidNohang s.scratch.clock with _ | _ | _ <;> trivial

theorem told_retry {call : SylvanM (Except Errno α)} (hc : FailsWith G (Told env texts) call) :
    ∀ n, FailsWith G (Told env texts) (Sys.retry call n)
  | 0 => failsWith_fault (by decide) (by decide)
  | n + 1 => by
    refine FailsWith.bind hc fun r => ?_
    cases r with
    | ok a => exact FailsWith.pure _
    | error e => exact FailsWith.ite (told_retry hc n) (FailsWith.pure _)

theorem told_tick : FailsWith F (Told env texts) Sys.tick := fun _ => trivial

theorem told_malloc : FailsWith F (Told env texts) (Sys.malloc env) := fun _ => trivial

theorem told_ptracePeek {addr : Addr} : FailsWith F (Told env texts) (Sys.ptracePeek env addr) := fun _ =>
  wp_ptracePeek (fun _ _ => trivial) fun _ _ => trivial

theorem told_ptracePoke {addr : Addr} {data : Word} : FailsWith F (Told env texts) (Sys.ptracePoke env addr data) := fun _ =>
  wp_ptracePoke (fun _ => trivial) fun _ _ => trivial

theorem told_ptraceGetregs : FailsWith F (Told env texts) (Sys.ptraceGetregs env) := fun _ =>
  wp_ptraceGetregs (fun _ => trivial) fun _ _ _ => trivial

theorem told_ptraceSetregs {regs : UserRegs} : FailsWith F (Told env texts) (Sys.ptraceSetregs env regs) := fun _ =>
  wp_ptraceSetregs (fun _ => trivial) fun _ _ _ => trivial

theorem told_ptraceGetsiginfo : FailsWith F (Told env texts) (Sys.ptraceGetsiginfo env) := fun _ =>
  wp_ptraceGetsiginfo (fun _ => trivial) fun _ _ => trivial

theorem told_ptraceResume {req : Request} : FailsWith F (Told env texts) (Sys.ptraceResume env req) := fun _ =>
  wp_ptraceResume (fun _ _ => trivial) fun _ _ => trivial

theorem told_ptraceAttach {pid : Pid} : FailsWith F (Told env texts) (Sys.ptraceAttach env pid) := fun _ =>
  wp_ptraceAttach (fun _ _ _ => trivial) fun _ _ => trivial

theorem told_fork : FailsWith F (Told env texts) (Sys.fork env) := fun _ =>
  wp_fork (fun _ _ => trivial) fun _ _ => trivial

/-! ### Paths -/

theorem told_realPath {path : String} : FailsWith F (Told env texts) (realPath env path) :=
  told_handled told_answered fun _ => FailsWith.ite told_setCode (told_errnoLiteral rfl)

theorem told_findInDirectories {command : String} : ∀ tokens, FailsWith F (Told env texts) (findInDirectories env command tokens)
  | [] => told_setCode
  | token :: tokens => by
    refine FailsWith.bind told_malloc fun _ => FailsWith.bind (FailsWith.when told_setCode) fun _ =>
      FailsWith.bind told_plain fun r => ?_
    cases r with
    | ok => exact FailsWith.pure _
    | error => exact told_findInDirectories tokens

theorem told_findInPATH {command : String} : FailsWith F (Told env texts) (findInPATH env command) := by
  refine FailsWith.bind told_tick fun t => ?_
  cases env.getenv t "PATH" with
  | none => exact told_setCode
  | some path =>
    exact FailsWith.bind told_malloc fun _ => FailsWith.bind (FailsWith.when told_setCode) fun _ =>
      told_findInDirectories _

theorem told_canonicalPath {path : String} : FailsWith F (Told env texts) (canonicalPath env path) := by
  refine told_attempt_bind told_realPath (fun _ => FailsWith.pure _) fun code s hcode => ?_
  rw [wp_ite]
  split
  · exact told_findInPATH s
  · exact hcode

/-! ### Symbols -/

theorem told_symTableInit : FailsWith F (Told env texts) (symTableInit env id) :=
  FailsWith.bind told_malloc fun _ => FailsWith.ite (FailsWith.modify _)
    (FailsWith.bind (FailsWith.modify _) fun _ => told_setCode)

theorem told_symInit : FailsWith F (Told env texts) (symInit env) :=
  FailsWith.bind told_symTableInit fun _ => told_symTableInit

theorem failsWith_symDestroy {E : Code → State → Prop} : FailsWith F E symDestroy :=
  FailsWith.bind (FailsWith.modify _) fun _ => FailsWith.modify _

theorem told_symGrow : FailsWith F (Told env texts) (symGrow env id) :=
  FailsWith.bind FailsWith.get fun _ => FailsWith.when (FailsWith.bind (FailsWith.modify _) fun _ =>
    FailsWith.bind told_malloc fun _ => FailsWith.bind (FailsWith.when told_setCode) fun _ =>
      FailsWith.modify _)

theorem told_symAdd {name : String} {addr : Addr} : FailsWith G (Told env texts) (symAdd env id name addr) :=
  FailsWith.bind told_symGrow fun _ => FailsWith.bind FailsWith.get fun _ =>
    FailsWith.bind (FailsWith.when (failsWith_fault (by decide) (by decide))) fun _ => FailsWith.bind told_malloc fun _ =>
      FailsWith.modify _

theorem quiet_symAdd {name : String} {addr : Addr} : FailsWith G (Told env fun _ => True) (symAdd env id name addr) := told_symAdd

/-- The walks of the loaders drop what `sylvan_sym_add` returns, so they fail with nothing. -/
theorem failsWith_symTryAdd {E : Code → State → Prop} {name : String} {addr : Addr} :
    FailsWith G E (symTryAdd env id name addr) :=
  FailsWith.bind (FailsWith.attempt quiet_symAdd) fun _ => FailsWith.pure _

theorem failsWith_symLoadDie {E : Code → State → Prop} {tag : Nat} {die : Die} :
    FailsWith G E (symLoadDie env id tag die) := by
  unfold symLoadDie
  split
  · exact FailsWith.when failsWith_symTryAdd
  · exact FailsWith.pure _

theorem failsWith_symLoadDies {E : Code → State → Prop} : ∀ dies, FailsWith G E (symLoadDies env id dies)
  | [] => FailsWith.pure _
  | die :: dies => by
    unfold symLoadDies
    split
    · exact FailsWith.pure _
    · exact FailsWith.bind failsWith_symLoadDie fun _ => failsWith_symLoadDies dies

theorem failsWith_symLoadUnits {E : Code → State → Prop} : ∀ units, FailsWith G E (symLoadUnits env id units)
  | [] => FailsWith.pure _
  | .error :: _ => FailsWith.pure _
  | .unit none :: units => failsWith_symLoadUnits units
  | .unit (some dies) :: units => FailsWith.bind (failsWith_symLoadDies dies) fun _ => failsWith_symLoadUnits units

/-- The code of `sylvan_sym_load_dwarf` is not recorded. -/
theorem failsWith_symLoadDwarf {path : Option String} :
    FailsWith G (fun code _ => code = .dwarfNotFound) (symLoadDwarf env path id) := by
  refine FailsWith.bind (fun _ => trivial) fun t => ?_
  cases env.dwarf t path with
  | none => exact FailsWith.error fun _ => rfl
  | some units => exact failsWith_symLoadUnits units

theorem told_symLoadElfSymbol {file : ElfFile} {sym : Option ElfSym} :
    FailsWith G (Told env texts) (symLoadElfSymbol env file id sym) := by
  unfold symLoadElfSymbol
  split
  · exact FailsWith.pure _
  · split
    · exact FailsWith.pure _
    · refine FailsWith.ite ?_ (FailsWith.pure _)
      split
      · exact FailsWith.when failsWith_symTryAdd
      · exact FailsWith.pure _

theorem told_symLoadElfSection {file : ElfFile} {scn : ElfSection} :
    FailsWith G (Told env texts) (symLoadElfSection env file id scn) := by
  unfold symLoadElfSection
  refine FailsWith.ite (FailsWith.pure _) (FailsWith.ite (FailsWith.pure _) ?_)
  split
  · exact FailsWith.pure _
  · exact FailsWith.bind (FailsWith.when (failsWith_fault (by decide) (by decide))) fun _ =>
      FailsWith.each (fun _ => told_symLoadElfSymbol) _

theorem told_symLoadElf {path : Option String} : FailsWith G (Told env texts) (symLoadElf env path id) := by
  refine FailsWith.bind told_tick fun _ => FailsWith.bind (FailsWith.when told_setCode) fun _ =>
    FailsWith.bind (told_checkedLiteral told_plain rfl) fun _ => FailsWith.bind told_tick fun t => ?_
  cases env.elf t path with
  | none => exact told_setCode
  | some file =>
    exact FailsWith.bind (FailsWith.when told_setCode) fun _ =>
      FailsWith.each (fun _ => told_symLoadElfSection) _

theorem told_symSort : FailsWith G (Told env texts) (symSort env id) :=
  FailsWith.bind FailsWith.get fun _ => FailsWith.bind (FailsWith.when (failsWith_fault (by decide) (by decide))) fun _ =>
    FailsWith.bind told_tick fun _ => FailsWith.modify _

theorem told_symLoadTables : FailsWith G (Told env texts) (symLoadTables env) := by
  refine FailsWith.bind failsWith_symDestroy fun _ => FailsWith.bind (told_attempt told_symInit) fun _ =>
    FailsWith.bind FailsWith.get fun _ => FailsWith.bind (FailsWith.catching failsWith_symLoadDwarf ?_) fun _ =>
      FailsWith.bind told_symLoadElf fun _ => FailsWith.bind told_symSort fun _ => told_symSort
  intro code s hcode
  simp [hcode]

theorem told_bsearch {name : String} {symbols : List Symbol} :
    ∀ fuel l u, FailsWith G (Told env texts) (bsearch name symbols fuel l u)
  | 0, _, _ => FailsWith.pure _
  | fuel + 1, l, u => by
    unfold bsearch
    refine FailsWith.ite (FailsWith.pure _) ?_
    split
    · exact failsWith_fault (by decide) (by decide)
    · split
      · exact failsWith_fault (by decide) (by decide)
      · split
        · exact told_bsearch fuel _ _
        · exact told_bsearch fuel _ _
        · exact FailsWith.pure _

theorem told_getLabelAddr {name : String} {s : State}
    (h : s.inf.dwarfTable.Lacks name → s.inf.elfTable.Lacks name → texts (cut 256 name)) :
    wp G (getLabelAddr name) (fun _ _ => True) (Told env texts) s := by
  have hlookup : ∀ table, FailsWith G (Told env texts) (symLookup table name) := fun _ => told_bsearch _ _ _
  unfold getLabelAddr
  rw [wp_bind, wp_get, wp_bind]
  refine wp_of (fun r t hr => ?_) (fun _ _ => (hlookup _).of_error) fun _ _ => (hlookup _ _).fault
  cases r with
  | some sym => trivial
  | none =>
    rw [wp_bind]
    refine wp_of (fun r u hu => ?_) (fun _ _ => (hlookup _).of_error) fun _ _ => (hlookup _ _).fault
    cases r with
    | some sym => trivial
    | none => exact ⟨rfl, fun _ hplain => ((hplain _ (h ⟨_, _, hr⟩ ⟨_, _, hu⟩)).append (plain_ofList rfl)).cut⟩

/-! ### Breakpoints -/

theorem told_slotIndex {i : Int} : FailsWith H (Told env texts) (slotIndex i) :=
  FailsWith.ite (FailsWith.pure _) (FailsWith.fault fun s => Formats.fault s (by decide))

theorem told_storeSlot {i : Nat} {b : Breakpoint} : FailsWith H (Told env texts) (storeSlot i b) :=
  FailsWith.bind told_slotIndex fun _ => FailsWith.modify _

theorem told_breakpointCreatePhybp {i : Nat} : FailsWith H (Told env texts) (breakpointCreatePhybp env i) :=
  FailsWith.bind FailsWith.get fun _ => FailsWith.bind told_assert fun _ => FailsWith.ite (FailsWith.pure _)
    (FailsWith.bind told_ptracePeek fun _ => FailsWith.bind (FailsWith.when (told_errnoLiteral rfl)) fun _ =>
      FailsWith.bind (told_checkedLiteral told_ptracePoke rfl) fun _ => told_storeSlot)

theorem told_breakpointRemovePhybp {i : Nat} : FailsWith H (Told env texts) (breakpointRemovePhybp env i) :=
  FailsWith.bind FailsWith.get fun _ => FailsWith.bind told_assert fun _ => FailsWith.ite (FailsWith.pure _)
    (FailsWith.bind told_ptracePeek fun _ => FailsWith.bind (FailsWith.when (told_errnoLiteral rfl)) fun _ =>
      FailsWith.bind (told_checkedLiteral told_ptracePoke rfl) fun _ => told_storeSlot)

theorem told_breakpointEnablePtr {i : Nat} : FailsWith H (Told env texts) (breakpointEnablePtr env i) :=
  FailsWith.bind FailsWith.get fun _ => FailsWith.bind told_storeSlot fun _ => FailsWith.bind FailsWith.get fun _ =>
    FailsWith.ite told_breakpointCreatePhybp (FailsWith.pure _)

theorem told_breakpointDisablePtr {i : Nat} : FailsWith H (Told env texts) (breakpointDisablePtr env i) :=
  FailsWith.bind FailsWith.get fun _ => FailsWith.bind told_storeSlot fun _ => FailsWith.bind FailsWith.get fun _ =>
    FailsWith.ite told_breakpointRemovePhybp (FailsWith.pure _)

theorem told_breakpointEnable {addr : Addr} : FailsWith H (Told env texts) (breakpointEnable env addr) := by
  refine FailsWith.bind FailsWith.get fun s => ?_
  cases breakpointFindByAddr s.inf addr with
  | none => exact told_setCode
  | some i => exact told_breakpointEnablePtr

theorem told_breakpointDisable {addr : Addr} : FailsWith H (Told env texts) (breakpointDisable env addr) := by
  refine FailsWith.bind FailsWith.get fun s => ?_
  cases breakpointFindByAddr s.inf addr with
  | none => exact told_setCode
  | some i => exact told_breakpointDisablePtr

theorem told_breakpointAppend {addr : Addr} : FailsWith H (Told env texts) (breakpointAppend addr) :=
  FailsWith.bind FailsWith.get fun _ => FailsWith.bind told_slotIndex fun _ => FailsWith.bind (FailsWith.modify _)
    fun _ => FailsWith.bind told_storeSlot fun _ => FailsWith.pure _

theorem told_breakpointSet {addr : Addr} : FailsWith H (Told env texts) (breakpointSet env addr) :=
  FailsWith.bind FailsWith.get fun _ => FailsWith.bind (FailsWith.when told_setCode) fun _ =>
    FailsWith.bind (FailsWith.when told_setCode) fun _ => FailsWith.bind told_breakpointAppend fun _ =>
      FailsWith.ite (FailsWith.pure _) told_breakpointEnablePtr

theorem told_breakpointDrop {i : Nat} : FailsWith H (Told env texts) (breakpointDrop i) :=
  FailsWith.bind FailsWith.get fun _ => FailsWith.bind (FailsWith.modify _) fun _ => FailsWith.when
    (FailsWith.bind told_slotIndex fun _ => FailsWith.bind FailsWith.get fun _ => told_storeSlot)

theorem told_breakpointUnset {addr : Addr} : FailsWith H (Told env texts) (breakpointUnset env addr) := by
  refine FailsWith.bind FailsWith.get fun s => ?_
  cases breakpointFindByAddr s.inf addr with
  | none => exact told_setCode
  | some i => exact FailsWith.bind told_breakpointDisablePtr fun _ => told_breakpointDrop

theorem told_breakpointClear : ∀ n, FailsWith H (Told env texts) (breakpointClear env n)
  | 0 => FailsWith.pure _
  | n + 1 => FailsWith.bind told_breakpointRemovePhybp fun _ => FailsWith.bind (FailsWith.modify _) fun _ =>
    told_breakpointClear n

theorem told_breakpointClearall : FailsWith H (Told env texts) (breakpointClearall env) :=
  FailsWith.bind FailsWith.get fun _ => FailsWith.ite (FailsWith.modify _)
    (FailsWith.bind (FailsWith.when (FailsWith.fault fun s => Formats.fault s (by decide))) fun _ => told_breakpointClear _)

theorem told_breakpointResetPhybp : FailsWith H (Told env texts) breakpointResetPhybp :=
  FailsWith.bind FailsWith.get fun _ => FailsWith.each (fun _ => FailsWith.bind FailsWith.get fun _ => told_storeSlot) _

theorem told_breakpointSetallPhybp : FailsWith H (Told env texts) (breakpointSetallPhybp env) :=
  FailsWith.bind FailsWith.get fun _ => FailsWith.bind told_assert fun _ =>
    FailsWith.each (fun _ => told_breakpointCreatePhybp) _

theorem told_breakpointUnsetallPhybp : FailsWith H (Told env texts) (breakpointUnsetallPhybp env) :=
  FailsWith.bind FailsWith.get fun _ => FailsWith.bind told_assert fun _ =>
    FailsWith.each (fun _ => told_breakpointRemovePhybp) _

/-! ### The state of the process -/

theorem told_reportStop : FailsWith F (Told env texts) (reportStop env) := by
  refine FailsWith.bind (told_checkedLiteral told_ptraceGetsiginfo rfl) fun _ =>
    FailsWith.bind (told_checkedLiteral told_ptraceGetregs rfl) fun regs =>
      FailsWith.bind (FailsWith.when (told_setMessage (Plain.append (plain_ofList rfl) plain_hexAlt))) fun _ =>
        FailsWith.bind FailsWith.get fun s => ?_
  dsimp only
  split
  · exact FailsWith.pure _
  · refine told_setMessage (Plain.append ?_ plain_hexAlt)
    exact Plain.append (Plain.append (plain_ofList rfl) plain_nat) (plain_ofList rfl)

theorem told_waitFailed {e : Errno} : FailsWith F (Told env texts) (waitFailed env e) := by
  refine FailsWith.bind (FailsWith.when (told_errnoLiteral rfl)) fun _ => FailsWith.bind FailsWith.get fun _ =>
    FailsWith.bind told_kill fun r => ?_
  cases r with
  | ok _ => exact told_setMessage (plain_with_int rfl rfl)
  | error e =>
    exact FailsWith.bind (FailsWith.when (told_errnoLiteral rfl)) fun _ => FailsWith.bind (FailsWith.modify _) fun _ =>
      FailsWith.bind FailsWith.get fun _ => told_setMessage (plain_with_int rfl rfl)

theorem told_statusChanged {blocking : Bool} : ∀ {st : WaitStatus}, FailsWith H (Told env texts) (statusChanged env blocking st)
  | .exited _ => FailsWith.bind FailsWith.get fun _ => FailsWith.bind (FailsWith.modify _) fun _ =>
    told_setMessage (Plain.append (plain_with_int rfl rfl) plain_nat)
  | .signaled _ => FailsWith.bind (FailsWith.modify _) fun _ => FailsWith.bind FailsWith.get fun _ =>
    told_setMessage (Plain.append (plain_with_int rfl rfl) plain_nat)
  | .stopped _ => FailsWith.bind (FailsWith.modify _) fun _ => FailsWith.ite told_reportStop (FailsWith.pure _)
  | .continued => FailsWith.modify _
  | .unknown => told_assert

theorem told_updateInfStatus {blocking : Bool} : FailsWith H (Told env texts) (updateInfStatus env blocking) := by
  refine FailsWith.bind FailsWith.get fun _ => FailsWith.bind (FailsWith.when (told_literal rfl)) fun _ =>
    FailsWith.ite (FailsWith.bind (told_retry told_waitpid _) fun r => ?_)
      (FailsWith.bind (told_retry told_waitpidNohang _) fun r => ?_)
  · cases r with
    | error e => exact told_waitFailed
    | ok st => exact told_statusChanged
  · rcases r with e | _ | st
    · exact told_waitFailed
    · exact FailsWith.pure _
    · exact told_statusChanged

theorem told_updateWaitStatus : ∀ {st : WaitStatus}, FailsWith H (Told env texts) (updateWaitStatus st)
  | .stopped _ => FailsWith.modify _
  | .exited _ => FailsWith.modify _
  | .signaled _ => FailsWith.modify _
  | .continued => FailsWith.modify _
  | .unknown => told_assert

/-! ### Giving up a process -/

/-- A call whose errors are recorded, some of which its caller drops. -/
theorem told_unless {x : SylvanM Unit} {dropped : Code → Prop} [DecidablePred dropped] (hx : FailsWith F (Told env texts) x) :
    FailsWith F (Told env texts) (catching x fun code => Exec.when (dropped code) (Exec.error code)) := by
  refine FailsWith.catching hx fun code s hcode => ?_
  rw [wp_when]
  split
  · exact hcode
  · trivial

theorem told_killProcess : FailsWith G (Told env texts) (kill env) := by
  refine FailsWith.bind FailsWith.get fun _ => FailsWith.ite (FailsWith.pure _)
    (FailsWith.bind told_kill fun r => ?_)
  cases r with
  | error e => exact FailsWith.bind (FailsWith.when (told_errnoLiteral rfl)) fun _ => FailsWith.modify _
  | ok _ =>
    exact FailsWith.bind (told_checkedLiteral (told_retry told_waitpid _) rfl) fun _ => FailsWith.modify _

theorem told_release : FailsWith H (Told env texts) (release env) :=
  FailsWith.bind told_breakpointUnsetallPhybp fun _ =>
    FailsWith.bind (told_handled told_ptraceResume fun _ => FailsWith.when (told_errnoLiteral rfl)) fun _ =>
      FailsWith.modify _

theorem told_detach : FailsWith H (Told env texts) (detach env) := by
  refine FailsWith.bind FailsWith.get fun _ => FailsWith.bind (FailsWith.when (told_literal rfl)) fun _ =>
    told_attempt_bind told_updateInfStatus (fun _ => told_release) fun code s hcode => ?_
  rw [wp_when]
  split
  · exact hcode
  · trivial

theorem told_terminateOrDetach : FailsWith H (Told env texts) (terminateOrDetach env) :=
  FailsWith.bind FailsWith.get fun _ => FailsWith.ite (FailsWith.pure _)
    (told_unless (FailsWith.ite told_killProcess told_detach))

/-! ### Inferiors -/

theorem told_inferiorCreate : FailsWith F (Told env texts) (inferiorCreate env) :=
  FailsWith.bind told_malloc fun _ => FailsWith.bind (FailsWith.when told_setCode) fun _ =>
    FailsWith.bind (FailsWith.modify _) fun _ => FailsWith.bind told_symInit fun _ =>
      FailsWith.modify _

theorem told_inferiorDestroy : FailsWith H (Told env texts) (inferiorDestroy env) :=
  FailsWith.bind told_terminateOrDetach fun _ => FailsWith.bind failsWith_symDestroy fun _ => FailsWith.modify _

/-! ### Attaching -/

theorem told_attachedStatus {pid : Pid} : ∀ {st : WaitStatus}, FailsWith H (Told env texts) (attachedStatus pid st)
  | .stopped _ => FailsWith.modify _
  | .continued => FailsWith.modify _
  | .exited _ => told_setMessage (plain_with_int rfl rfl)
  | .signaled _ => told_setMessage (plain_with_int rfl rfl)
  | .unknown => told_assert

theorem told_attachWait {pid : Pid} : FailsWith H (Told env texts) (attachWait env pid) :=
  FailsWith.bind (told_attempt told_realPath) fun _ =>
    FailsWith.bind (told_handled (told_retry told_waitpid _) fun _ =>
      FailsWith.ite (told_setMessage (plain_with_int rfl rfl)) (told_errnoLiteral rfl)) fun _ =>
      FailsWith.bind told_attachedStatus fun _ => FailsWith.modify _

theorem told_attach {pid : Pid} : FailsWith H (Told env texts) (attach env pid) :=
  FailsWith.bind (told_handled told_kill fun _ => FailsWith.ite (told_setMessage (plain_with_int rfl rfl)) (told_errnoLiteral rfl)) fun _ =>
    FailsWith.bind told_terminateOrDetach fun _ =>
      FailsWith.bind (told_handled told_ptraceAttach fun _ => FailsWith.ite (told_setMessage (Plain.append (plain_ofList rfl) plain_int))
        (FailsWith.ite (told_setMessage (plain_with_int rfl rfl)) (told_errnoLiteral rfl))) fun _ =>
        FailsWith.bind told_attachWait fun _ => FailsWith.bind told_symLoadTables fun _ =>
          FailsWith.bind told_breakpointResetPhybp fun _ => told_breakpointSetallPhybp

/-! ### Running -/

theorem told_childFailed {report : List Byte} : FailsWith F (Told env texts) (childFailed env report) := by
  refine FailsWith.bind told_tick fun t => ?_
  dsimp only
  split
  · exact told_literal rfl
  · refine FailsWith.bind (FailsWith.modify _) fun _ => ?_
    split
    · exact told_errnoLiteral rfl
    · exact told_setCode
    · exact told_literal rfl
    · exact told_literal rfl
    · exact told_returnCode

theorem told_childStarted {pid : Pid} : FailsWith H (Told env texts) (childStarted env pid) := by
  refine FailsWith.bind (told_checkedLiteral (told_retry told_waitpid _) rfl) fun st => ?_
  have hlive : FailsWith H (Told env texts) (do
      updateWaitStatus st
      Exec.modify fun s => s.setInf { s.inf with pid, isAttached := false }
      breakpointResetPhybp
      breakpointSetallPhybp env
      checked env .ptraceContFailed "ptrace cont" (Sys.ptraceResume env .cont)
      updateInfStatus env true) :=
    FailsWith.bind told_updateWaitStatus fun _ => FailsWith.bind (FailsWith.modify _) fun _ =>
      FailsWith.bind told_breakpointResetPhybp fun _ => FailsWith.bind told_breakpointSetallPhybp fun _ =>
        FailsWith.bind (told_checkedLiteral told_ptraceResume rfl) fun _ => told_updateInfStatus
  cases st with
  | exited code => exact told_setMessage (Plain.append (plain_ofList rfl) plain_nat)
  | signaled sig => exact hlive
  | stopped sig => exact hlive
  | continued => exact hlive
  | unknown => exact hlive

theorem plain_notExecutable {path description : String} (hp : Plain (cut 2041 path)) (hd : Plain description) :
    Plain (errnoText s!"File '{path}' is not executable" description) := by
  have htext : s!"File '{path}' is not executable" = "File '" ++ path ++ "' is not executable" := rfl
  have hlen : errmsgBufferSize - 1 - "File '".length = 2041 := by decide
  have hrest : Plain "' is not executable" := plain_ofList rfl
  have hcut : ∀ {rest : String}, Plain rest → Plain (cut (errmsgBufferSize - 1) ("File '" ++ path ++ rest)) := fun hr =>
    Plain.cut_append (plain_ofList rfl) (hlen.symm ▸ hp) hr
  rw [htext]
  unfold errnoText
  split
  · rw [String.append_assoc, String.append_assoc]
    exact hcut (hrest.append (Plain.append (plain_ofList rfl) hd))
  · exact hcut hrest

theorem told_handleParent {pid : Pid} : FailsWith H (Told env texts) (handleParent env pid) :=
  FailsWith.bind (told_checkedLiteral told_plain rfl) fun _ => FailsWith.bind (told_retry told_answered _) fun _ =>
    FailsWith.bind (told_checkedLiteral told_plain rfl) fun _ =>
      FailsWith.bind (told_handled (FailsWith.pure _) fun _ => told_errnoLiteral rfl) fun _ =>
        FailsWith.ite told_childFailed told_childStarted

theorem told_forkFailed : FailsWith F (Told env texts) (forkFailed env) :=
  FailsWith.bind told_plain fun _ => FailsWith.bind told_plain fun _ => told_errnoLiteral rfl

theorem told_run {s : State} (h : ∀ text, Op.Names env .run s text → texts text) :
    wp H (run env) (fun _ _ => True) (Told env texts) s := by
  unfold run
  rw [wp_bind, wp_get]
  dsimp only
  split
  · exact told_literal rfl _
  · rename_i path hpath
    rw [wp_bind]
    refine (told_checkedPlain fun e he hplain _ => plain_notExecutable (hplain _ (h _ (.program hpath he)))).imp (fun _ t _ => ?_)
      fun _ _ => id
    have hforked : FailsWith H (Told env texts) (do
        kill env
        checked env .pipeFailed "pipe" (Sys.plain env.pipe)
        let child ← handled (Sys.fork env) fun _ => forkFailed env
        handleParent env child.pid) :=
      FailsWith.bind told_killProcess fun _ => FailsWith.bind (told_checkedLiteral told_plain rfl) fun _ =>
        FailsWith.bind (told_handled told_fork fun _ => told_forkFailed) fun _ => told_handleParent
    exact hforked t

/-! ### Resuming -/

theorem told_stepOver {regs : UserRegs} {i : Nat} : FailsWith H (Told env texts) (stepOver env regs i) :=
  FailsWith.bind (told_checkedLiteral told_ptraceSetregs rfl) fun _ => FailsWith.bind told_breakpointDisablePtr fun _ =>
    FailsWith.bind (told_checkedLiteral told_ptraceResume rfl) fun _ => FailsWith.bind told_updateInfStatus fun _ =>
      told_breakpointEnablePtr

/-- That there is no breakpoint is not recorded. -/
theorem failsWith_handleBreakpointAtCurrentAddr :
    FailsWith H (fun code s => code = .breakpointNotFound ∨ Told env texts code s) (handleBreakpointAtCurrentAddr env) := by
  refine FailsWith.bind ((told_checkedLiteral told_ptraceGetregs rfl).imp (fun _ _ => id) fun _ _ => Or.inr) fun regs =>
    FailsWith.bind FailsWith.get fun s => ?_
  dsimp only
  split
  · exact FailsWith.error fun _ => Or.inl rfl
  · exact FailsWith.ite (FailsWith.error fun _ => Or.inl rfl) (told_stepOver.imp (fun _ _ => id) fun _ _ => Or.inr)

theorem told_passBreakpoint : FailsWith H (Told env texts) (passBreakpoint env) := by
  refine FailsWith.attempt_bind (@failsWith_handleBreakpointAtCurrentAddr env texts H _) (fun _ => FailsWith.pure _) fun code s hcode => ?_
  rw [wp_ite]
  split
  · trivial
  · rename_i hne
    exact hcode.resolve_left hne

theorem told_validateProcessState : FailsWith H (Told env texts) (validateProcessState env) :=
  FailsWith.bind told_updateInfStatus fun _ => FailsWith.bind FailsWith.get fun _ =>
    FailsWith.when (FailsWith.ite (told_setMessage (plain_with_int rfl rfl)) (told_setMessage (plain_with_int rfl rfl)))

theorem told_cont : FailsWith H (Told env texts) (cont env) :=
  FailsWith.bind told_validateProcessState fun _ => FailsWith.bind told_passBreakpoint fun _ =>
    FailsWith.bind (told_checkedLiteral told_ptraceResume rfl) fun _ => told_updateInfStatus

theorem told_stepinst : FailsWith H (Told env texts) (stepinst env) :=
  FailsWith.bind told_validateProcessState fun _ => FailsWith.bind told_passBreakpoint fun _ =>
    FailsWith.ite (FailsWith.pure _) (FailsWith.bind (told_checkedLiteral told_ptraceResume rfl) fun _ =>
      told_updateInfStatus)

/-! ### Registers, paths and memory -/

theorem told_getRegs : FailsWith H (Told env texts) (getRegs env) :=
  FailsWith.bind told_updateInfStatus fun _ => FailsWith.bind FailsWith.get fun _ =>
    FailsWith.bind (FailsWith.when (told_literal rfl)) fun _ => told_checkedLiteral told_ptraceGetregs rfl

theorem told_setRegs {regs : UserRegs} : FailsWith H (Told env texts) (setRegs env regs) :=
  FailsWith.bind told_updateInfStatus fun _ => FailsWith.bind FailsWith.get fun _ =>
    FailsWith.bind (FailsWith.when (told_literal rfl)) fun _ => told_checkedLiteral told_ptraceSetregs rfl

theorem plain_notFound {filepath : String} (h : Plain (cut 256 filepath)) :
    Plain (if filepath.length ≤ 256 then s!"File '{filepath}' is not executable"
      else s!"File '{cut 256 filepath}...' is not executable") := by
  split
  · rename_i hlen
    rw [cut_of_length_le hlen] at h
    exact Plain.append (Plain.append (plain_ofList rfl) h) (plain_ofList rfl)
  · exact Plain.append (Plain.append (plain_ofList rfl) h) (plain_ofList rfl)

theorem told_setFilepath {path : Option String} {s : State} (h : ∀ text, Op.Names env (.setFilepath path) s text → texts text) :
    wp G (setFilepath env path) (fun _ _ => True) (Told env texts) s := by
  cases path with
  | none => trivial
  | some filepath =>
    unfold setFilepath
    rw [wp_bind]
    have hpath : FailsWith G (Told env texts) (canonicalPath env filepath) := told_canonicalPath
    refine wp_of (fun newpath t ht => ?_) (fun _ _ => hpath.of_error) fun _ _ => (hpath s).fault
    rw [wp_bind]
    refine (told_checkedPlain fun e he hplain _ => (plain_notFound (hplain _ (h _ (.file ht he)))).errnoText).imp (fun _ u _ => ?_)
      fun _ _ => id
    exact FailsWith.bind (FailsWith.modify _) (fun _ => told_symLoadTables) u

theorem told_setArgs : ∀ {args : Option String}, FailsWith F (Told env texts) (setArgs env args)
  | none => FailsWith.modify _
  | some _ => FailsWith.bind told_malloc fun _ => FailsWith.bind (FailsWith.when told_setCode) fun _ =>
    FailsWith.modify _

theorem told_getMemory {addr : Addr} : FailsWith F (Told env texts) (getMemory env addr) :=
  FailsWith.bind (FailsWith.modify _) fun _ => FailsWith.bind told_ptracePeek fun _ =>
    FailsWith.bind (fun _ => trivial) fun _ =>
      FailsWith.bind (FailsWith.when (told_setErrnoMsg fun _ => Plain.append (plain_ofList rfl) plain_hex)) fun _ => FailsWith.pure _

theorem orderly_cannotWrite {E : Code → State → Prop} : FailsWith Orderly E (cannotWrite : SylvanM α) := FailsWith.fault fun _ => nofun

theorem told_setMemoryTail {addr : Addr} {bytes : List Byte} : FailsWith Orderly (Told env texts) (setMemoryTail env addr bytes) :=
  have hread : FailsWith Orderly (Told env texts) (getMemory env addr) := told_getMemory
  FailsWith.bind (FailsWith.catching hread fun _ s _ => orderly_cannotWrite s) fun _ =>
    told_handled told_ptracePoke fun _ => orderly_cannotWrite

theorem told_setMemoryWords {addr : Addr} {bytes : List Byte} : FailsWith Orderly (Told env texts) (setMemoryWords env addr bytes) := by
  induction addr, bytes using setMemoryWords.induct with
  | case1 addr b0 b1 b2 b3 b4 b5 b6 b7 bytes ih =>
    rw [setMemoryWords]
    exact FailsWith.bind (told_handled told_ptracePoke fun _ => orderly_cannotWrite) fun _ => ih
  | case2 addr h =>
    rw [setMemoryWords, if_pos rfl]
    · exact FailsWith.pure _
    · exact h
  | case3 addr bytes h hne =>
    rw [setMemoryWords, if_neg hne]
    · exact told_setMemoryTail
    · exact h

theorem told_setMemory {addr : Addr} {data : List Byte} : FailsWith Orderly (Told env texts) (setMemory env addr data) :=
  FailsWith.ite told_returnCode (FailsWith.ite (told_setErrnoMsg fun _ => Plain.append (plain_ofList rfl) plain_hex) told_setMemoryWords)

theorem told_setBreakpointFunction {function : String} {s : State}
    (h : ∀ text, Op.Names env (.setBreakpointFunction function) s text → texts text) :
    wp H (setBreakpointFunction env function) (fun _ _ => True) (Told env texts) s := by
  unfold setBreakpointFunction
  rw [wp_bind]
  exact (told_getLabelAddr fun hdwarf helf => h _ (.symbol hdwarf helf)).imp (fun _ t _ => told_breakpointSet t) fun _ _ => id

/-! ### Every call -/

theorem BreakpointOp.told : ∀ op : BreakpointOp, FailsWith H (Told env texts) (op.call env)
  | .set _ => told_breakpointSet
  | .unset _ => told_breakpointUnset
  | .enable _ => told_breakpointEnable
  | .disable _ => told_breakpointDisable

/-- The call writes to the memory of the process. -/
inductive Op.Writes : Op → Prop where
  | setMemory {addr : Addr} {data : List Byte} : Writes (.setMemory addr data)

/-- What the message of a call that failed quotes. The only message that lacks an argument is one of a write. -/
theorem Op.told (op : Op) (s : State) :
    wp (fun f _ => f = .missingArgument → op.Writes) (op.call env) (fun _ _ => True) (Told env (op.Names env s)) s := by
  cases op with
  | attach pid => exact told_attach s
  | detach => exact told_detach s
  | run => exact told_run fun _ => id
  | cont => exact told_cont s
  | stepinst => exact told_stepinst s
  | getRegs => exact FailsWith.bind told_getRegs (fun _ => FailsWith.pure _) s
  | setRegs regs => exact told_setRegs s
  | setFilepath path => exact told_setFilepath fun _ => id
  | setArgs args => exact told_setArgs s
  | getMemory addr => exact FailsWith.bind told_getMemory (fun _ => FailsWith.pure _) s
  | setMemory addr data => exact (told_setMemory s).mono (fun _ _ => id) (fun _ _ => id) fun _ _ _ _ => .setMemory
  | setBreakpointFunction function => exact told_setBreakpointFunction fun _ => id
  | breakpoint op => exact op.told s
  | clearall => exact told_breakpointClearall s
  | destroy => exact told_inferiorDestroy s

theorem Op.recorded (op : Op) : FailsWith (fun _ _ => True) Recorded (op.call env) := fun s =>
  (op.told s).mono (fun _ _ => id) (fun _ _ => And.left) fun _ _ _ => trivial

/-- Whatever call fails, in whatever state and for whatever reason, the code that it returns is the one in
    `sylvan_last_error`. -/
theorem last_error_is_returned (env : Env) (s t : State) (code : Code) :
    (∀ op : Op, op.call env s = .error code t → t.scratch.lastError.code = code) ∧
    (inferiorCreate env s = .error code t → t.scratch.lastError.code = code) ∧
    (nullArgument s = .error code t → t.scratch.lastError.code = code) :=
  ⟨fun op h => op.recorded.of_error h,
    (recorded_of_told (told_inferiorCreate : FailsWith (fun f _ => f = .missingArgument → True) _ _)).of_error,
    (recorded_of_told (told_setCode : FailsWith Orderly (Told env fun _ => True) (nullArgument))).of_error⟩

/-- A new inferior has no process to detach from. -/
theorem last_error_is_returned_detach :
    (State.created.after (detach .compliant)).scratch.lastError.code = .procNotAttached :=
  (last_error_is_returned .compliant State.created _ .procNotAttached).1 .detach (State.after_error (by decide +kernel))

end

end Sylvan
