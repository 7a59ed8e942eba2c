import Sylvan.Theorems.Refusals

/-! Whether `set_reg` takes back the values that `info_registers` shows, and refuses what is no such text. -/

namespace Sylvan
open Exec

/-- `text` is `0x` and one to sixteen hexadecimal digits. -/
def ValueText (text : String) : Prop :=
  ∃ digits, text.toList = '0' :: 'x' :: digits ∧ digits ≠ [] ∧ digits.length ≤ 16 ∧ ∀ c ∈ digits, Numeral.isDigit 16 c

/-- The registers as they are, with only `reg` changed, to `v`, are passed to `sylvan_set_regs`. -/
def writeReg (env : UiEnv) (name : String) (reg : Reg) (v : Word) : UiM Unit := do
  let regs ← orLastError (readRegs env)
  orLastError (Sylvan.setRegs env.toEnv (Function.update regs reg v))
  printOk "%s to %#lx\n" [.str name, .word v]

/-- From `s`, the command only prints an error, and may set `errno`. -/
def Rejects (x : UiM Unit) (s : Session) : Prop :=
  ∃ y outputs, x s = .error 0 { s with state := s.state.withScratch y, out := s.out ++ outputs } ∧ ∃ o ∈ outputs, o.IsError

/-- On the command line `command`, `set_reg` for the register `name` writes the value that `value` shows, and refuses a `value`
    that shows none. -/
structure WritesShown (command : Argv) (name value : CStr) : Prop where
  writes : ∀ reg v, (name.text, reg) ∈ registersInfo → value.text = hexLong v → ∀ env : UiEnv,
    handleSetReg env command = (do sys (setErrno 0); writeReg env name.text reg v)
  refuses : ¬ValueText value.text → ∀ (env : UiEnv) (s : Session), Rejects (handleSetReg env command) s

/-- `strtol` takes the string at `mem` for a number: it is empty, or a numeral of a `long`. -/
def LongString (mem : List Char) : Prop :=
  Numeral.string mem = [] ∨ ∃ n, Numeral.Denotes 16 (Numeral.string mem) n ∧ ¬Numeral.Overflows n

/-- The first two characters pass for `0x`. -/
def PassesPrefix (value : CStr) : Prop := value.char 1 = 'x' ∨ value.char 0 = '0'

/-- The command lines on which `set_reg` does so: what is shown is a `long`, with `NULL` in the slot behind the `NULL`, or the
    text is refused for its register, for that slot, for its first two characters or for what follows them. -/
def ShownWritable (command : Argv) (name value : CStr) : Prop :=
  (∀ v, (findRegisterByName name.text).isSome → value.text = hexLong v → v.toNat < 2 ^ 63 ∧ command.arg 4 = none) ∧
  (¬ValueText value.text → findRegisterByName name.text = none ∨ command.arg 4 ≠ none ∨ ¬PassesPrefix value ∨
    ¬LongString (value.from 2))

/-! ### Texts -/

section Texts
variable {v : Word} {value : CStr}

theorem toList_hexLong : (hexLong v).toList = '0' :: 'x' :: Nat.toDigits 16 v.toNat := by
  have hhex : (hex v.toNat).toList = Nat.toDigits 16 v.toNat := String.toList_ofList
  rw [hexLong, String.toList_append, hhex]
  rfl

/-- What is shown is a text of a value. -/
theorem valueText_hexLong : ValueText (hexLong v) :=
  ⟨_, toList_hexLong, Nat.toDigits_ne_nil, (Nat.length_toDigits_le_iff (by decide) (by decide)).mpr v.isLt,
    fun _ hc => Numeral.isDigit_of_mem_toDigits (by decide) (by decide) hc⟩

/-- What `strtol` makes of a value that is shown. -/
theorem strtol_hexLong (hv : value.text = hexLong v) :
    Numeral.strtol 16 (value.from 2) = Numeral.strtol 16 (Nat.toDigits 16 v.toNat) := by
  have hlen : 2 ≤ value.text.length := by
    rw [hv, ← String.length_toList, toList_hexLong, List.length_cons, List.length_cons]
    omega
  rw [CStr.strtol_from (by decide) hlen, hv, toList_hexLong]
  rfl

theorem passesPrefix_hexLong (hv : value.text = hexLong v) : PassesPrefix value := by
  refine Or.inr ?_
  rw [CStr.char_eq (Nat.zero_le _), hv, toList_hexLong]
  rfl

end Texts

/-! ### Registers -/

section Names
variable {name : String} {reg : Reg}

theorem findRegisterByName_of_mem (h : (name, reg) ∈ registersInfo) : findRegisterByName name = some (name, reg) := by
  have hall : registersInfo.all (fun r => findRegisterByName r.1 = some r) = true := by decide
  simpa using List.all_eq_true.mp hall _ h

theorem mem_of_findRegisterByName {r : String × Reg} (h : findRegisterByName name = some r) : (name, r.2) ∈ registersInfo := by
  have hname : r.1 = name := by simpa using List.find?_some h
  rw [← hname]
  exact List.mem_of_find?_eq_some h

end Names

/-! ### The command -/

section Command
variable {env : UiEnv} {command : Argv} {t name value : CStr} {s : Session} {reg : Reg} {v : Word}

theorem rejects_reject {outputs : List Output} (h : ∃ o ∈ outputs, o.IsError) : Rejects (reject outputs) s :=
  ⟨s.state.scratch, outputs, rfl, h⟩

theorem rejects_converted {outputs : List Output} {e : Errno} (h : ∃ o ∈ outputs, o.IsError) :
    Rejects (sys (setErrno e) >>= fun _ => reject outputs) s :=
  ⟨s.state.scratch.withErrno e, outputs, rfl, h⟩

/-- A command that comes to its end does not reject. -/
theorem not_rejects_of_ok {x : UiM Unit} {u : Session} (h : x s = .ok () u) : ¬Rejects x s := by
  rintro ⟨y, outputs, herror, -⟩
  cases h.symm.trans herror

theorem args_of_setReg (h : command.tokens = [t, name, value]) : command.arg 1 = some name ∧ command.arg 2 = some value :=
  ⟨arg_of_tokens (by rw [h]; rfl), arg_of_tokens (by rw [h]; rfl)⟩

theorem setReg_rejects (h : command.tokens = [t, name, value])
    (hbad : findRegisterByName name.text = none ∨ command.arg 4 ≠ none ∨ ¬PassesPrefix value ∨ ¬LongString (value.from 2)) :
    Rejects (handleSetReg env command) s := by
  obtain ⟨h1, h2⟩ := args_of_setReg h
  unfold handleSetReg
  simp only [h1, h2]
  by_cases h4 : command.arg 4 = none
  · rw [when_false (by simp [h4]), pure_bind]
    cases hfind : findRegisterByName name.text with
    | none => exact rejects_reject exists_error
    | some r =>
      obtain ⟨rname, reg⟩ := r
      dsimp only
      by_cases hlead : PassesPrefix value
      · have hlong : ¬LongString (value.from 2) := by
          rcases hbad with hbad | hbad | hbad | hbad
          · cases hbad.symm.trans hfind
          · exact absurd h4 hbad
          · exact absurd hlead hbad
          · exact hbad
        have hrefuse : (Numeral.strtol 16 (value.from 2)).range = true ∨ ¬(Numeral.strtol 16 (value.from 2)).atEnd = true := by
          by_contra hgood
          rw [not_or, Bool.not_eq_true, not_not] at hgood
          exact hlong ((Numeral.accepts_iff (by decide)).mp hgood)
        have hpass : ¬(value.char 1 ≠ 'x' ∧ value.char 0 ≠ '0') := fun hne => hlead.elim hne.1 hne.2
        rw [when_false hpass, pure_bind, converted_bind]
        simp only [when_reject_bind hrefuse]
        exact rejects_converted exists_error
      · have hfail : value.char 1 ≠ 'x' ∧ value.char 0 ≠ '0' := not_or.mp hlead
        rw [when_reject_bind hfail]
        exact rejects_reject exists_error
  · rw [invalidArguments, when_reject_bind (Option.isSome_iff_ne_none.mpr h4)]
    exact rejects_reject exists_error

theorem setReg_writes (h : command.tokens = [t, name, value]) (hreg : (name.text, reg) ∈ registersInfo)
    (h4 : command.arg 4 = none) (hlead : PassesPrefix value) {r : Numeral.Result}
    (hr : Numeral.strtol 16 (value.from 2) = r) (hrange : r.range = false) (hend : r.atEnd = true) :
    handleSetReg env command = (do sys (setErrno 0); writeReg env name.text reg (asAddr r.value)) := by
  obtain ⟨h1, h2⟩ := args_of_setReg h
  have hpass : ¬(value.char 1 ≠ 'x' ∧ value.char 0 ≠ '0') := fun hne => hlead.elim hne.1 hne.2
  have hgood : ¬(r.range = true ∨ ¬r.atEnd = true) := by simp [hrange, hend]
  have hslot : ¬(command.arg 4).isSome = true := by simp [h4]
  unfold handleSetReg
  simp only [h1, h2, when_false hslot, findRegisterByName_of_mem hreg, when_false hpass, when_false hgood, pure_bind, converted_bind,
    hr, hrange, Bool.false_eq_true, if_false, writeReg]

/-- It is possible to write any register. -/
theorem writeReg_attached (name : String) (reg : Reg) (v : Word) :
    ∃ u, (do sys (setErrno 0); writeReg (UiEnv.on .compliant) name reg v) (Session.on State.attached) = .ok () u :=
  ⟨_, rfl⟩

theorem shown_of_writable (h : command.tokens = [t, name, value]) (hw : ShownWritable command name value) :
    WritesShown command name value := by
  constructor
  · intro reg v hreg hv env
    obtain ⟨hlow, h4⟩ := hw.1 v (by rw [findRegisterByName_of_mem hreg]; rfl) hv
    have hn : ¬Numeral.Overflows v.toNat := by
      unfold Numeral.Overflows
      omega
    have hr : Numeral.strtol 16 (value.from 2) = ⟨v.toNat, false, true⟩ :=
      (strtol_hexLong hv).trans ((Numeral.denotes_toDigits (by decide) (by decide) _).strtol_eq (by decide) hn)
    rw [setReg_writes h hreg h4 (passesPrefix_hexLong hv) hr rfl rfl]
    have hvalue : asAddr (v.toNat : Int) = v := by
      rw [asAddr, BitVec.ofInt_natCast, BitVec.ofNat_toNat, BitVec.setWidth_eq]
    rw [hvalue]
  · intro hvalue env s
    exact setReg_rejects h (hw.2 hvalue)

theorem writable_of_shown (h : command.tokens = [t, name, value]) (hs : WritesShown command name value) :
    ShownWritable command name value := by
  constructor
  · intro v hfind hv
    obtain ⟨r, hr⟩ := Option.isSome_iff_exists.mp hfind
    -- it is possible to write what is shown
    obtain ⟨u, hu⟩ := writeReg_attached name.text r.2 v
    rw [← hs.writes r.2 v (mem_of_findRegisterByName hr) hv] at hu
    refine ⟨?_, ?_⟩
    · by_contra hhigh
      have hn : Numeral.Overflows v.toNat := by
        unfold Numeral.Overflows
        omega
      have hlong : ¬LongString (value.from 2) := fun hlong => by
        have hrange := ((Numeral.accepts_iff (by decide)).mpr hlong).1
        rw [strtol_hexLong hv, (Numeral.denotes_toDigits (by decide) (by decide) _).strtol_range (by decide) hn] at hrange
        cases hrange
      exact not_rejects_of_ok hu (setReg_rejects h (Or.inr (Or.inr (Or.inr hlong))))
    · by_contra h4
      exact not_rejects_of_ok hu (setReg_rejects h (Or.inr (Or.inl h4)))
  · intro hvalue
    by_contra hall
    rw [not_or, not_or, not_or, not_not, not_not, not_not] at hall
    obtain ⟨hfind, h4, hlead, hlong⟩ := hall
    obtain ⟨r, hr⟩ := Option.ne_none_iff_exists'.mp hfind
    obtain ⟨hrange, hend⟩ := (Numeral.accepts_iff (by decide)).mpr hlong
    obtain ⟨u, hu⟩ := writeReg_attached name.text r.2 (asAddr (Numeral.strtol 16 (value.from 2)).value)
    rw [← setReg_writes h (mem_of_findRegisterByName hr) h4 hlead rfl hrange hend] at hu
    exact not_rejects_of_ok hu (hs.refuses hvalue _ _)

end Command

/-- `set_reg` writes the value that a text shows and refuses a text that shows none, if and only if a value that is shown is in
    the lower half and the slot behind the `NULL` holds `NULL`, and a text that shows none is refused for another reason. -/
theorem shown_value_written_iff (command : Argv) (t name value : CStr) (h : command.tokens = [t, name, value]) :
    WritesShown command name value ↔ ShownWritable command name value :=
  ⟨writable_of_shown h, shown_of_writable h⟩

/-- A command line `set_reg rax value` -/
def setRax (value : CStr) : Argv := ⟨[.word "set_reg" (by decide), .word "rax" (by decide), value], []⟩

theorem shown_value_written_iff_rax : WritesShown (setRax (.word "0x10" (by decide))) (.word "rax" (by decide)) (.word "0x10" (by decide)) := by
  refine (shown_value_written_iff _ (.word "set_reg" (by decide)) _ _ rfl).mpr ⟨fun v _ hv => ⟨?_, rfl⟩, fun hno => ?_⟩
  · have hdigits : ['1', '0'] = Nat.toDigits 16 v.toNat := by
      have := congrArg String.toList (show "0x10" = hexLong v from hv)
      rw [toList_hexLong] at this
      exact (List.cons.inj (List.cons.inj this).2).2
    have := @Numeral.value_toDigits 16 (by decide) (by decide) v.toNat
    rw [← hdigits, show Numeral.value 16 ['1', '0'] = 16 by decide] at this
    omega
  · exact absurd ⟨['1', '0'], by decide, by decide, by decide, List.all_eq_true.mp (by decide)⟩ hno

/-- The value with all bits set is shown and not taken back, and the text `0910` is taken for 0x10. -/
theorem shown_value_refused :
    ¬WritesShown (setRax (.word "0xffffffffffffffff" (by decide))) (.word "rax" (by decide)) (.word "0xffffffffffffffff" (by decide)) ∧
    ¬WritesShown (setRax (.word "0910" (by decide))) (.word "rax" (by decide)) (.word "0910" (by decide)) := by
  constructor
  · intro h
    have hlow := ((writable_of_shown (t := .word "set_reg" (by decide)) rfl h).1 (BitVec.allOnes 64) (by decide) (by decide)).1
    exact absurd hlow (by decide)
  · intro h
    have hno : ¬ValueText "0910" := by
      rintro ⟨digits, htext, -⟩
      cases (show ['0', '9', '1', '0'] = '0' :: 'x' :: digits from htext)
    have hlong : LongString (CStr.from (.word "0910" (by decide)) 2) := (Numeral.accepts_iff (by decide)).mp (by decide)
    rcases (writable_of_shown (t := .word "set_reg" (by decide)) rfl h).2 hno with hbad | hbad | hbad | hbad
    · exact absurd hbad (by decide)
    · exact absurd rfl hbad
    · exact hbad (Or.inr rfl)
    · exact hbad hlong

end Sylvan
