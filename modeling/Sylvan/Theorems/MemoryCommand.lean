import Mathlib.Data.List.Basic
import Sylvan.Theorems.UserWrites
import Sylvan.Theorems.ValueTokens

/-! What `memory_write` writes. The test of the size counts on a closing quote, so a string without one may go a byte too
    far; and tokens that mean nothing may be taken for bytes, while tokens behind a full buffer are not looked at. -/

namespace Sylvan
open Exec

/-- `handle_write_memory`, with `write` in the place of the call that writes and of what is printed then. -/
def handleWriteMemoryWith (write : Addr → List Byte → UiM Unit) (command : Argv) : UiM Unit := do
  match command.arg 1 with
  | none => reject writeUsage
  | some text =>
    match command.arg 2 with
    | none => reject writeUsage
    | some value => do
      Exec.when (text.text = "0x") (reject writeUsage)
      let addr ← parseAddr (text.from 2) [.error "Invalid address: %s" [.str value.text]]
      let bytes ← collectBytes (command.tokens.drop 2) []
      write addr bytes

/-- The call that `handle_write_memory` makes -/
def writeBytes (env : UiEnv) (addr : Addr) (bytes : List Byte) : UiM Unit := do
  orLastError (Sylvan.setMemory env.toEnv addr bytes)
  printOk "Wrote at address %#lx" [.word addr]

/-- What the command writes, and where -/
def writeTarget (command : Argv) : UiM (Addr × List Byte) := do
  match command.arg 1 with
  | none => reject writeUsage
  | some text =>
    match command.arg 2 with
    | none => reject writeUsage
    | some value => do
      Exec.when (text.text = "0x") (reject writeUsage)
      let addr ← parseAddr (text.from 2) [.error "Invalid address: %s" [.str value.text]]
      let bytes ← collectBytes (command.tokens.drop 2) []
      pure (addr, bytes)

theorem handleWriteMemoryWith_eq (write : Addr → List Byte → UiM Unit) (command : Argv) :
    handleWriteMemoryWith write command = writeTarget command >>= fun p => write p.1 p.2 := by
  unfold handleWriteMemoryWith writeTarget
  cases command.arg 1 with
  | none => rfl
  | some text =>
    cases command.arg 2 with
    | none => rfl
    | some value => simp only [bind_assoc, pure_bind]

theorem handleWriteMemory_eq (env : UiEnv) : handleWriteMemory env = handleWriteMemoryWith (writeBytes env) := rfl

/-- The text is accepted as the address `addr`. -/
structure AddressText (text : CStr) (addr : Addr) : Prop where
  given : text.text ≠ "0x"
  value : asAddr (Numeral.strtol 16 (text.from 2)).value = addr
  range : (Numeral.strtol 16 (text.from 2)).range = false
  atEnd : (Numeral.strtol 16 (text.from 2)).atEnd = true
  ne_zero : addr ≠ 0

/-- The command line `memory_write text values...` -/
def writeCommand (name text : CStr) (values : List CStr) (slots : List (Option CStr)) : Argv := ⟨name :: text :: values, slots⟩

section Command
variable {write : Addr → List Byte → UiM Unit} {name text : CStr} {values : List CStr} {slots : List (Option CStr)} {addr : Addr} {s : Session}

theorem writes_nothing : ReportsError (handleWriteMemoryWith write (writeCommand name text [] slots) s) s :=
  ⟨_, _, _, s.state.scratch, rfl⟩

/-- With an address, the command reads the values and writes them. -/
theorem writes_values (h : AddressText text addr) (hne : values ≠ []) :
    handleWriteMemoryWith write (writeCommand name text values slots) s =
      (collectBytes values [] >>= write addr) (s.withScratch (s.state.scratch.withErrno 0)) := by
  obtain ⟨value, rest, rfl⟩ := List.exists_cons_of_ne_nil hne
  have hparse := @parseAddr_accept (text.from 2) [.error "Invalid address: %s" [.str value.text]] _ rfl h.range
    (by rw [h.value]; exact h.ne_zero) h.atEnd
  rw [h.value] at hparse
  show (Exec.when (text.text = "0x") (reject writeUsage) >>= fun _ => parseAddr (text.from 2) [.error "Invalid address: %s" [.str value.text]] >>=
    fun addr => collectBytes (value :: rest) [] >>= write addr) s = _
  rw [when_false h.given, pure_bind, hparse]
  rfl

theorem writes_overrun (h : AddressText text addr) {tok : CStr} {bytes : List Byte} (hreaches : Reaches values tok bytes)
    (hoverruns : Overruns bytes.length tok) : ∃ t, handleWriteMemoryWith write (writeCommand name text values slots) s = .fault .outOfBounds t := by
  have hne : values ≠ [] := by
    obtain ⟨before, after, rfl, -⟩ := hreaches.path
    simp
  obtain ⟨t, ht⟩ := hreaches.overruns (s := s.withScratch (s.state.scratch.withErrno 0)) hoverruns
  refine ⟨t, ?_⟩
  rw [writes_values h hne]
  exact bind_of_fault ht

theorem writes_refused (h : AddressText text addr) {tok : CStr} {bytes : List Byte} (hreaches : Reaches values tok bytes)
    (hrefused : Refused bytes.length tok) : ReportsError (handleWriteMemoryWith write (writeCommand name text values slots) s) s := by
  have hne : values ≠ [] := by
    obtain ⟨before, after, rfl, -⟩ := hreaches.path
    simp
  rw [writes_values h hne]
  obtain ⟨format, args, outs, x, hx⟩ := hreaches.refused (s := s.withScratch (s.state.scratch.withErrno 0)) hrefused
  exact ⟨format, args, outs, x, bind_of_error hx⟩

/-- Where the loop ends with `bytes`, these are written. -/
theorem writes_accepted (h : AddressText text addr) {before after : List CStr} {bytes : List Byte} (hne : before ++ after ≠ [])
    (haccepts : Accepts [] before bytes) (hend : after = [] ∨ bytesSize ≤ bytes.length) :
    ∃ x, ∀ write, handleWriteMemoryWith write (writeCommand name text (before ++ after) slots) s = write addr bytes (s.withScratch x) := by
  obtain ⟨x, hx⟩ := haccepts.ends (s := s.withScratch (s.state.scratch.withErrno 0)) hend
  refine ⟨x, fun write => ?_⟩
  rw [writes_values h hne]
  exact bind_of_ok hx

/-- What the loop ends with is what the command ends with, or what is written. -/
theorem writes_cases (h : AddressText text addr) (values : List CStr) :
    (∃ tok bytes, Reaches values tok bytes ∧ Overruns bytes.length tok) ∨
    ((values = [] ∨ ∃ tok bytes, Reaches values tok bytes ∧ Refused bytes.length tok) ∧
      ∀ write s, ReportsError (handleWriteMemoryWith write (writeCommand name text values slots) s) s) ∨
    ∃ before after bytes, values = before ++ after ∧ Accepts [] before bytes ∧ (after = [] ∨ bytesSize ≤ bytes.length) ∧
      ∀ s, ∃ x, ∀ write, handleWriteMemoryWith write (writeCommand name text values slots) s = write addr bytes (s.withScratch x) := by
  by_cases hne : values = []
  · subst hne
    exact Or.inr (Or.inl ⟨Or.inl rfl, fun _ _ => writes_nothing⟩)
  rcases values_cases values with ⟨tok, bytes, hreaches, hrefused | hoverruns⟩ | ⟨before, after, bytes, hvalues, haccepts, hend⟩
  · exact Or.inr (Or.inl ⟨Or.inr ⟨tok, bytes, hreaches, hrefused⟩, fun _ _ => writes_refused h hreaches hrefused⟩)
  · exact Or.inl ⟨tok, bytes, hreaches, hoverruns⟩
  · subst hvalues
    exact Or.inr (Or.inr ⟨before, after, bytes, rfl, haccepts, hend, fun _ => writes_accepted h hne haccepts hend⟩)

end Command

/-! ### The buffer -/

/-- Nothing is stored behind the buffer, and no more is written than it holds. -/
structure StaysInside (command : Argv) : Prop where
  stores : ∀ env s t, handleWriteMemory env command s ≠ .fault .outOfBounds t
  size : ∀ s addr bytes t, (∀ write, handleWriteMemoryWith write command s = write addr bytes t) → bytes.length ≤ bytesSize

section Buffer
variable {name text tok : CStr} {values : List CStr} {slots : List (Option CStr)} {addr : Addr} {bytes : List Byte} {k : Nat}

theorem writeBytes_inside {env : UiEnv} {s t : Session} (hle : bytes.length ≤ bytesSize) :
    writeBytes env addr bytes s ≠ .fault .outOfBounds t := by
  intro hfault
  have hlen : bytes.length ≤ 2 ^ 64 := Nat.le_trans hle (by decide)
  have hwp : wp (fun f _ => f = .missingArgument) (writeBytes env addr bytes) (fun _ _ => True) (fun _ _ => True) s := by
    unfold writeBytes
    rw [wp_bind, wp_orLastError]
    exact wp_setMemory hlen (fun _ => trivial) (fun _ _ => trivial) fun _ _ => rfl
  exact Fault.noConfusion (hwp.fault hfault)

theorem stays_inside (h : AddressText text addr) (hsafe : ¬∃ tok bytes, Reaches values tok bytes ∧ Overruns bytes.length tok) :
    StaysInside (writeCommand name text values slots) := by
  rcases @writes_cases name text slots addr h values with hoverruns | ⟨-, hreports⟩ | ⟨before, after, bytes, -, haccepts, -, hwrites⟩
  · exact absurd hoverruns hsafe
  · refine ⟨fun env s t hfault => ?_, fun s addr bytes t hall => ?_⟩
    · obtain ⟨format, args, outs, x, hx⟩ := hreports (writeBytes env) s
      rw [handleWriteMemory_eq] at hfault
      cases hx.symm.trans hfault
    · obtain ⟨format, args, outs, x, hx⟩ := hreports (fun _ _ => pure ()) s
      cases hx.symm.trans (hall fun _ _ => pure ())
  · have hle := haccepts.length_le (Nat.zero_le _)
    refine ⟨fun env s t hfault => ?_, fun s addr' bytes' t hall => ?_⟩
    · obtain ⟨x, hx⟩ := hwrites s
      rw [handleWriteMemory_eq, hx] at hfault
      exact writeBytes_inside hle hfault
    · obtain ⟨x, hx⟩ := hwrites s
      -- a call that takes no more than the buffer holds
      have hrun := (hx fun _ bytes => if bytes.length ≤ bytesSize then pure () else Exec.error 0).symm.trans (hall _)
      rw [if_pos hle] at hrun
      by_contra hbig
      rw [if_neg hbig] at hrun
      cases hrun

/-- A token that runs over the end is one without its second quote, and goes one byte too far. -/
theorem overruns_iff (hlen : tok.text.length < 2 ^ 63) (hk : k < bytesSize) :
    Overruns k tok ↔ Quoted tok ∧ ¬Closed tok ∧ k + tok.text.length = bytesSize + 2 := by
  have hfits : 2 ≤ tok.text.length → (Fits k tok ↔ k + (tok.text.length - 2) ≤ bytesSize) := fun h2 => by
    unfold Fits bytesSize at *
    bv_omega
  have hunclosed : ¬Closed tok → (inside tok).length = tok.text.length - 1 := fun hclosed => by
    have hall : ∀ c ∈ tok.text.toList.tail, decide (c ≠ '"') = true := fun c hc => decide_eq_true fun h => hclosed (show '"' ∈ tok.text.toList.tail from h ▸ hc)
    rw [inside, List.takeWhile_eq_self_iff.mpr hall, List.length_tail, String.length_toList]
  have hclosed : Closed tok → (inside tok).length + 2 ≤ tok.text.length := fun hclosed => by
    have hfront : inside tok <+: tok.text.toList.tail := List.takeWhile_prefix _
    have hshort : (inside tok).length ≠ tok.text.toList.tail.length := fun heq => by
      have hall := List.takeWhile_eq_self_iff.mp (hfront.eq_of_length heq) _ hclosed
      exact absurd hall (by decide)
    have hle := hfront.length_le
    rw [List.length_tail, String.length_toList] at hle hshort
    omega
  constructor
  · rintro ⟨hquoted, hfit, hfull⟩
    by_cases hc : Closed tok
    · have hinside := hclosed hc
      have hroom := (hfits (by omega)).mp hfit
      omega
    · have hinside := hunclosed hc
      have hroom := (hfits (by omega)).mp hfit
      exact ⟨hquoted, hc, by omega⟩
  · rintro ⟨hquoted, hopen, hlong⟩
    refine ⟨hquoted, (hfits ?_).mpr ?_, ?_⟩
    · omega
    · omega
    · rw [hunclosed hopen]
      omega

end Buffer

/-- The buffer is left just if the loop comes to a token that runs over its end: a string without its second quote that
    has one character too many. -/
theorem stays_inside_iff (name text : CStr) (values : List CStr) (slots : List (Option CStr)) (addr : Addr) (h : AddressText text addr) :
    (StaysInside (writeCommand name text values slots) ↔ ¬∃ tok bytes, Reaches values tok bytes ∧ Overruns bytes.length tok) ∧
    ∀ tok bytes, Reaches values tok bytes → tok.text.length < 2 ^ 63 →
      (Overruns bytes.length tok ↔ Quoted tok ∧ ¬Closed tok ∧ bytes.length + tok.text.length = bytesSize + 2) := by
  refine ⟨⟨fun hinside => ?_, stays_inside h⟩, fun tok bytes hreaches hlen => overruns_iff hlen hreaches.room⟩
  rintro ⟨tok, bytes, hreaches, hoverruns⟩
  obtain ⟨t, ht⟩ := @writes_overrun (writeBytes (UiEnv.on .compliant)) name text values slots addr (Session.on State.blank) h tok bytes hreaches
    hoverruns
  exact hinside.stores (UiEnv.on .compliant) (Session.on State.blank) t ht

theorem address_0x1000 : AddressText (.word "0x1000" (by decide)) 0x1000 where
  given := by decide
  value := by decide +kernel
  range := by decide +kernel
  atEnd := by decide +kernel
  ne_zero := by decide

theorem stays_inside_iff_one :
    StaysInside (writeCommand (.word "memory_write" (by decide)) (.word "0x1000" (by decide)) [.word "1" (by decide)] []) := by
  refine (stays_inside_iff (.word "memory_write" (by decide)) (.word "0x1000" (by decide)) [.word "1" (by decide)] [] 0x1000
    address_0x1000).1.mpr ?_
  rintro ⟨tok, bytes, hreaches, hquoted, -⟩
  obtain ⟨before, after, hvalues, -⟩ := hreaches.path
  have hmem : tok ∈ [CStr.word "1" (by decide)] := by
    rw [hvalues]
    exact List.mem_append_right _ (List.mem_cons_self ..)
  rw [List.mem_singleton.mp hmem, Quoted] at hquoted
  exact absurd hquoted (by decide)

/-- A quote and 257 letters, and no second quote -/
def unclosedToken : CStr := .word (String.ofList ('"' :: List.replicate 257 'a')) (by rw [String.toList_ofList]; decide +kernel)

/-- The last letter is stored behind the buffer. -/
theorem buffer_left : ¬StaysInside (writeCommand (.word "memory_write" (by decide)) (.word "0x1000" (by decide)) [unclosedToken] []) := by
  intro hinside
  have hreaches : Reaches [unclosedToken] unclosedToken [] := ⟨by decide, [], [], rfl, .nil []⟩
  have htext : unclosedToken.text.toList = '"' :: List.replicate 257 'a' := String.toList_ofList
  have hlength : unclosedToken.text.length = 258 := by rw [← String.length_toList, htext, List.length_cons, List.length_replicate]
  have hoverruns : Overruns 0 unclosedToken := by
    refine ⟨quoted_iff.mpr ⟨_, htext⟩, ?_, ?_⟩
    · unfold Fits
      rw [hlength]
      decide
    · rw [inside, htext]
      decide +kernel
  obtain ⟨t, ht⟩ := @writes_overrun (writeBytes (UiEnv.on .compliant)) (.word "memory_write" (by decide)) _ _ [] _ (Session.on State.blank)
    address_0x1000 _ _ hreaches hoverruns
  exact hinside.stores (UiEnv.on .compliant) (Session.on State.blank) t ht

/-! ### What the tokens mean -/

/-- The byte that digits denote -/
def numeralByte (base : Nat) (ds : List Char) : Option (List Byte) :=
  if ds ≠ [] ∧ ds.all (Numeral.isDigit base) ∧ Numeral.value base ds ≤ 0xFF then some [BitVec.ofNat 8 (Numeral.value base ds)]
  else none

/-- The bytes that a value stands for: the characters between two quotes, or the byte that a number denotes. -/
def encodeToken (text : String) : Option (List Byte) :=
  match text.toList with
  | '"' :: cs => if cs.getLast? = some '"' ∧ '"' ∉ cs.dropLast then some (cs.dropLast.map byteOf) else none
  | '0' :: 'x' :: ds => numeralByte 16 ds
  | ds => numeralByte 10 ds

/-- The bytes of all values, in order -/
def encodeAll : List String → Option (List Byte)
  | [] => some []
  | text :: texts => do return (← encodeToken text) ++ (← encodeAll texts)

section Encode
variable {tok : CStr} {toks values : List CStr} {bytes bytes' b enc : List Byte} {k base : Nat} {ds : List Char} {texts texts' : List String}

/-- Digits are read as the byte that they denote. -/
theorem strtoul_numeralByte (hb : base ≤ 36) (h : numeralByte base ds = some b) :
    ∃ n : Nat, Numeral.strtoul base ds = ⟨n, false, true⟩ ∧ n ≤ 0xFF ∧ b = [BitVec.ofInt 8 n] := by
  unfold numeralByte at h
  split at h
  · rename_i hds
    obtain ⟨hne, hdigits, hsmall⟩ := hds
    cases h
    have hdenotes : Numeral.Denotes base ds (Numeral.value base ds) :=
      .mk [] [] [] ds (fun _ h => by cases h) (Or.inl rfl) (Or.inl rfl) hne (List.all_eq_true.mp hdigits)
    refine ⟨_, hdenotes.strtoul_eq hb (Int.natCast_nonneg _) ?_, hsmall, ?_⟩
    · omega
    · rw [BitVec.ofInt_natCast]
  · cases h

theorem isByte_of_numeral {n : Nat} (hn : numeral tok = ⟨n, false, true⟩) (hsmall : n ≤ 0xFF) : IsByte tok := by
  unfold IsByte
  rw [hn]
  simp
  omega

theorem encode_string {cs : List Char} (htext : tok.text.toList = '"' :: cs) (hlast : cs.getLast? = some '"') (hquote : '"' ∉ cs.dropLast) :
    Closed tok ∧ tok.text.length = (inside tok).length + 2 ∧ inside tok = cs.dropLast := by
  obtain ⟨body, rfl⟩ : ∃ body, cs = body ++ ['"'] := ⟨_, (List.dropLast_append_getLast? '"' hlast).symm⟩
  rw [List.dropLast_concat] at hquote ⊢
  have hinside : inside tok = body := by
    have hall : ∀ c ∈ body, decide (c ≠ '"') = true := fun c hc => decide_eq_true fun h => hquote (h ▸ hc)
    rw [inside, htext, List.tail_cons, List.takeWhile_append_of_pos hall, List.takeWhile_cons_of_neg (by decide), List.append_nil]
  have hlength := String.length_toList (s := tok.text)
  rw [htext, List.length_cons, List.length_append, List.length_singleton] at hlength
  refine ⟨?_, ?_, hinside⟩
  · unfold Closed
    rw [htext, List.tail_cons]
    exact List.mem_append_right _ (List.mem_singleton_self _)
  · rw [hinside]
    omega

theorem numeral_hex (htext : tok.text.toList = '0' :: 'x' :: ds) : numeral tok = Numeral.strtoul 16 ds := by
  have hlength := String.length_toList (s := tok.text)
  rw [htext, List.length_cons, List.length_cons] at hlength
  rw [numeral, if_pos (isHex_iff.mpr ⟨ds, htext⟩), if_pos (isHex_iff.mpr ⟨ds, htext⟩), CStr.strtoul_from (by decide) (by omega), htext]
  rfl

theorem numeral_decimal (hhex : ¬IsHex tok) : numeral tok = Numeral.strtoul 10 tok.text.toList := by
  rw [numeral, if_neg hhex, if_neg hhex, CStr.strtoul_from (by decide) (Nat.zero_le _), List.drop_zero]

/-- A string in quotes stands for its characters. -/
theorem encode_quoted {text : String} {body : List Char} (htext : text.toList = '"' :: (body ++ ['"'])) (hbody : '"' ∉ body) :
    encodeToken text = some (body.map byteOf) := by
  unfold encodeToken
  rw [htext]
  show (if (body ++ ['"']).getLast? = some '"' ∧ '"' ∉ (body ++ ['"']).dropLast then some ((body ++ ['"']).dropLast.map byteOf)
    else none) = _
  rw [if_pos ⟨List.getLast?_concat, by rwa [List.dropLast_concat]⟩, List.dropLast_concat]

/-- A token that stands for bytes is a string in quotes, or a number that is read as a byte. -/
theorem encode_cases (h : encodeToken tok.text = some b) :
    (Quoted tok ∧ Closed tok ∧ tok.text.length = (inside tok).length + 2 ∧ b = (inside tok).map byteOf) ∨
    (¬Quoted tok ∧ IsByte tok ∧ b = [BitVec.ofInt 8 (numeral tok).value]) := by
  unfold encodeToken at h
  split at h
  · rename_i cs htext
    split at h
    · rename_i hcs
      obtain ⟨hclosed, hlength, hinside⟩ := encode_string htext hcs.1 hcs.2
      cases h
      exact Or.inl ⟨quoted_iff.mpr ⟨cs, htext⟩, hclosed, hlength, by rw [hinside]⟩
    · cases h
  · rename_i ds htext
    obtain ⟨n, hn, hsmall, rfl⟩ := strtoul_numeralByte (by decide) h
    rw [← numeral_hex htext] at hn
    refine Or.inr ⟨fun hquoted => ?_, isByte_of_numeral hn hsmall, by rw [hn]⟩
    obtain ⟨cs, hcs⟩ := quoted_iff.mp hquoted
    cases htext.symm.trans hcs
  · rename_i hquote hhex
    obtain ⟨n, hn, hsmall, rfl⟩ := strtoul_numeralByte (by decide) h
    have hno : ¬IsHex tok := fun hex => by
      obtain ⟨cs, hcs⟩ := isHex_iff.mp hex
      exact hhex cs hcs
    rw [← numeral_decimal hno] at hn
    refine Or.inr ⟨fun hquoted => ?_, isByte_of_numeral hn hsmall, by rw [hn]⟩
    obtain ⟨cs, hcs⟩ := quoted_iff.mp hquoted
    exact hquote cs hcs

theorem takes_of_encode (h : encodeToken tok.text = some b) (hroom : k + b.length ≤ bytesSize) : Takes k tok b := by
  rcases encode_cases h with ⟨hquoted, hclosed, hlength, rfl⟩ | ⟨hquoted, hbyte, rfl⟩
  · rw [List.length_map] at hroom
    refine .string hquoted ?_ hroom hclosed
    unfold Fits bytesSize at *
    rw [hlength]
    bv_omega
  · exact .number hquoted hbyte

theorem Takes.encode (h : Takes k tok b) (hencode : encodeToken tok.text = some enc) : b = enc := by
  cases h with
  | string quoted fits room closed =>
    rcases encode_cases hencode with ⟨-, -, -, rfl⟩ | ⟨hquoted, -⟩
    · rfl
    · exact absurd quoted hquoted
  | number quoted byte =>
    rcases encode_cases hencode with ⟨hquoted, -⟩ | ⟨-, -, rfl⟩
    · exact absurd hquoted quoted
    · rfl

theorem encodeAll_cons {text : String} (h : encodeAll (text :: texts) = some enc) :
    ∃ b rest, encodeToken text = some b ∧ encodeAll texts = some rest ∧ enc = b ++ rest := by
  unfold encodeAll at h
  cases hb : encodeToken text with
  | none =>
    rw [hb] at h
    cases h
  | some b =>
    cases hrest : encodeAll texts with
    | none =>
      rw [hb, hrest] at h
      cases h
    | some rest =>
      rw [hb, hrest] at h
      cases h
      exact ⟨b, rest, rfl, rfl, rfl⟩

theorem encodeAll_append (h : encodeAll (texts ++ texts') = some enc) :
    ∃ front rest, encodeAll texts = some front ∧ encodeAll texts' = some rest ∧ enc = front ++ rest := by
  induction texts generalizing enc with
  | nil => exact ⟨[], enc, rfl, h, rfl⟩
  | cons text texts ih =>
    obtain ⟨b, rest, hb, hrest, rfl⟩ := encodeAll_cons h
    obtain ⟨front, back, hfront, hback, rfl⟩ := ih hrest
    refine ⟨b ++ front, back, ?_, hback, (List.append_assoc ..).symm⟩
    rw [encodeAll, hb, hfront]
    rfl

/-- Tokens that stand for bytes are taken for these bytes. -/
theorem Accepts.encode (h : Accepts bytes toks bytes') (hencode : encodeAll (toks.map CStr.text) = some enc) : bytes' = bytes ++ enc := by
  induction h generalizing enc with
  | nil =>
    cases hencode
    exact (List.append_nil _).symm
  | cons hroom htakes _ ih =>
    obtain ⟨b, rest, hb, hrest, rfl⟩ := encodeAll_cons hencode
    rw [ih hrest, htakes.encode hb, List.append_assoc]

/-- Where all tokens stand for bytes, and all bytes fit, none is too long. -/
theorem Reaches.not_overruns (h : Reaches values tok bytes) (hencode : encodeAll (values.map CStr.text) = some enc) (hle : enc.length ≤ bytesSize) :
    ¬Overruns bytes.length tok := by
  obtain ⟨before, after, rfl, haccepts⟩ := h.path
  rw [List.map_append, List.map_cons] at hencode
  obtain ⟨front, back, hfront, hback, rfl⟩ := encodeAll_append hencode
  obtain ⟨b, rest, hb, -, rfl⟩ := encodeAll_cons hback
  obtain rfl : bytes = front := haccepts.encode hfront
  rw [List.length_append, List.length_append] at hle
  rintro ⟨hquoted, -, hfull⟩
  cases takes_of_encode hb (k := bytes.length) (by omega) with
  | string _ _ room _ => exact absurd hfull (Nat.not_lt.mpr room)
  | number quoted _ => exact quoted hquoted

theorem Accepts.all {before after : List CStr} (h : Accepts [] before bytes) (hend : after = [] ∨ bytesSize ≤ bytes.length)
    (hencode : encodeAll ((before ++ after).map CStr.text) = some enc) (hle : enc.length ≤ bytesSize) : bytes = enc := by
  rw [List.map_append] at hencode
  obtain ⟨front, back, hfront, hback, rfl⟩ := encodeAll_append hencode
  obtain rfl : bytes = front := h.encode hfront
  rcases hend with rfl | hfull
  · cases hback
    exact (List.append_nil _).symm
  · rw [List.length_append] at hle
    obtain rfl : back = [] := List.length_eq_zero_iff.mp (by omega)
    exact (List.append_nil _).symm

end Encode

/-- Whatever it writes with, the command reports an error and does not write, or it writes the bytes of all values, once. -/
def WritesAllOrNothing (command : Argv) (addr : Addr) (texts : List String) : Prop :=
  ∀ write s, ReportsError (handleWriteMemoryWith write command s) s ∨
    ∃ bytes x, encodeAll texts = some bytes ∧ handleWriteMemoryWith write command s = write addr bytes (s.withScratch x)

/-- All values are written, or nothing, just if a value is refused or all of them stand for bytes that fit the buffer
    together. -/
theorem writes_all_or_nothing_iff (name text : CStr) (values : List CStr) (slots : List (Option CStr)) (addr : Addr)
    (h : AddressText text addr) :
    WritesAllOrNothing (writeCommand name text values slots) addr (values.map CStr.text) ↔
      (∃ tok bytes, Reaches values tok bytes ∧ Refused bytes.length tok) ∨
        ∃ enc, encodeAll (values.map CStr.text) = some enc ∧ enc.length ≤ bytesSize := by
  constructor
  · intro hwrites
    rcases @writes_cases name text slots addr h values with ⟨tok, bytes, hreaches, hoverruns⟩ | ⟨hrefused, -⟩ |
      ⟨before, after, bytes, rfl, haccepts, -, hcalls⟩
    · obtain ⟨t, ht⟩ := @writes_overrun (fun _ _ => pure ()) name text values slots addr (Session.on State.blank) h tok bytes hreaches hoverruns
      rcases hwrites (fun _ _ => pure ()) (Session.on State.blank) with ⟨format, args, outs, x, hx⟩ | ⟨enc, x, -, hx⟩
      · cases ht.symm.trans hx
      · cases ht.symm.trans hx
    · rcases hrefused with rfl | hrefused
      · exact Or.inr ⟨[], rfl, Nat.zero_le _⟩
      · exact Or.inl hrefused
    · -- a call that accepts the bytes that are written only
      obtain ⟨y, hy⟩ := hcalls (Session.on State.blank)
      have hrun := hy fun _ b => if b = bytes then pure () else Exec.error 1
      rw [if_pos rfl] at hrun
      rcases hwrites (fun _ b => if b = bytes then pure () else Exec.error 1) (Session.on State.blank) with
        ⟨format, args, outs, x, hx⟩ | ⟨enc, x, hencode, hx⟩
      · cases hrun.symm.trans hx
      · have hcall := hrun.symm.trans hx
        obtain rfl : enc = bytes := by
          by_contra hne
          rw [if_neg hne] at hcall
          cases hcall
        exact Or.inr ⟨enc, hencode, haccepts.length_le (Nat.zero_le _)⟩
  · rintro (⟨tok, bytes, hreaches, hrefused⟩ | ⟨enc, hencode, hle⟩) write s
    · exact Or.inl (writes_refused h hreaches hrefused)
    · rcases @writes_cases name text slots addr h values with ⟨tok, bytes, hreaches, hoverruns⟩ | ⟨-, hreports⟩ |
        ⟨before, after, bytes, rfl, haccepts, hend, hcalls⟩
      · exact absurd hoverruns (hreaches.not_overruns hencode hle)
      · exact Or.inl (hreports write s)
      · obtain ⟨x, hx⟩ := hcalls s
        obtain rfl : bytes = enc := haccepts.all hend hencode hle
        exact Or.inr ⟨bytes, x, hencode, hx write⟩

theorem writes_all_or_nothing_iff_one :
    WritesAllOrNothing (writeCommand (.word "memory_write" (by decide)) (.word "0x1000" (by decide)) [.word "1" (by decide)] []) 0x1000
      ([.word "1" (by decide)].map CStr.text) :=
  (writes_all_or_nothing_iff (.word "memory_write" (by decide)) (.word "0x1000" (by decide)) [.word "1" (by decide)] [] 0x1000
    address_0x1000).mpr (Or.inr ⟨[1], by decide +kernel, by decide⟩)

/-- 256 letters in quotes -/
def fullToken : CStr := .word (String.ofList ('"' :: List.replicate 256 'a' ++ ['"'])) (by rw [String.toList_ofList]; decide +kernel)

theorem fullToken_text : fullToken.text.toList = '"' :: List.replicate 256 'a' ++ ['"'] := String.toList_ofList

theorem fullToken_encode : encodeToken fullToken.text = some (List.replicate 256 (byteOf 'a')) :=
  (encode_quoted fullToken_text fun h => absurd (List.eq_of_mem_replicate h) (by decide)).trans (by rw [List.map_replicate])

/-- The token fills the buffer. -/
theorem fullToken_takes : Takes 0 fullToken (List.replicate 256 (byteOf 'a')) := takes_of_encode fullToken_encode (by rw [List.length_replicate]; decide)

theorem nonul_memory_write : '\x00' ∉ "memory_write".toList := by decide

theorem nonul_0x1000 : '\x00' ∉ "0x1000".toList := by decide

/-- The command that writes `values` at address 4096. -/
def writeAt4096 (values : List CStr) : Argv :=
  writeCommand (.word "memory_write" nonul_memory_write) (.word "0x1000" nonul_0x1000) values []

/-- A run that ends well has written the bytes of all values. -/
theorem WritesAllOrNothing.written {command : Argv} (h : WritesAllOrNothing command addr texts) (write : Addr → List Byte → UiM Unit) (s : Session)
    (hok : (handleWriteMemoryWith write command s).isOk = true) :
    ∃ bytes x, encodeAll texts = some bytes ∧ handleWriteMemoryWith write command s = write addr bytes (s.withScratch x) := by
  rcases h write s with ⟨format, args, outs, x, hx⟩ | hwritten
  · rw [hx] at hok
    cases hok
  · exact hwritten

/-- What follows a closing quote is dropped, `0x` is taken for a zero, and a value behind 256 bytes is dropped. -/
theorem values_lost :
    ¬WritesAllOrNothing (writeAt4096 [.word "\"a\"b" (by decide)]) 0x1000 ["\"a\"b"] ∧
    ¬WritesAllOrNothing (writeAt4096 [.word "0x" (by decide)]) 0x1000 ["0x"] ∧
    ¬WritesAllOrNothing (writeAt4096 [fullToken, .word "1" (by decide)]) 0x1000 [fullToken.text, "1"] := by
  refine ⟨fun h => ?_, fun h => ?_, fun h => ?_⟩
  · have hno : encodeAll ["\"a\"b"] = none := by decide +kernel
    obtain ⟨bytes, -, hencode, -⟩ := h.written (fun _ _ => pure ()) (Session.on State.blank) (by decide +kernel)
    cases hno.symm.trans hencode
  · have hno : encodeAll ["0x"] = none := by decide +kernel
    obtain ⟨bytes, -, hencode, -⟩ := h.written (fun _ _ => pure ()) (Session.on State.blank) (by decide +kernel)
    cases hno.symm.trans hencode
  · -- a call that tells how many bytes it is given
    have haccepts : Accepts [] [fullToken] (List.replicate 256 (byteOf 'a')) := .cons (by decide) fullToken_takes (.nil _)
    obtain ⟨x, hx⟩ := @writes_accepted (.word "memory_write" (by decide)) (.word "0x1000" (by decide)) [] 0x1000 (Session.on State.blank)
      address_0x1000 _ [.word "1" (by decide)] _ (List.cons_ne_nil _ _) haccepts (Or.inr (Nat.le_of_eq List.length_replicate.symm))
    have hrun := hx fun _ b => Exec.error b.length
    rcases h (fun _ b => Exec.error b.length) (Session.on State.blank) with ⟨format, args, outs, y, hy⟩ | ⟨enc, y, hencode, hy⟩
    · have hlength := (Outcome.error.inj (hrun.symm.trans hy)).1
      rw [List.length_replicate] at hlength
      cases hlength
    · have hlength := (Outcome.error.inj (hrun.symm.trans hy)).1
      obtain ⟨b, rest, hb, hrest, rfl⟩ := encodeAll_cons hencode
      obtain rfl := Option.some.inj (fullToken_encode.symm.trans hb)
      have hone : encodeAll ["1"] = some [1] := by decide +kernel
      obtain rfl := Option.some.inj (hone.symm.trans hrest)
      rw [List.length_append, List.length_replicate] at hlength
      cases hlength

end Sylvan
