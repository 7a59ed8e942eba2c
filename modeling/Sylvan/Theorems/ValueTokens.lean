import Sylvan.Theorems.Commands

/-! What `memory_write` makes of its value tokens. A token is taken for some bytes, or refused, or it runs over the end
    of the buffer, each as its text and the number of bytes before it have it. The loop takes tokens up to the first one
    that it does not take, or up to a full buffer. -/

namespace Sylvan
open Exec

/-- Only the scratch part of the state changes. -/
def Session.withScratch (s : Session) (x : Scratch) : Session := { s with state := s.state.withScratch x }

/-- A character of a C string as a byte -/
def byteOf (c : Char) : Byte := BitVec.ofNat 8 c.toNat

/-! ### Tokens -/

section Tokens
variable (k : Nat) (tok : CStr)

def Quoted : Prop := tok.char 0 = '"'

/-- The characters up to the next quote, or up to the end. -/
def inside : List Char := tok.text.toList.tail.takeWhile (· ≠ '"')

def Closed : Prop := '"' ∈ tok.text.toList.tail

/-- The test of the size, with `strlen(arg) - 2` in 64 bits. -/
def Fits : Prop := ¬256 < BitVec.ofNat 64 k + (BitVec.ofNat 64 tok.text.length - 2)

def IsHex : Prop := tok.char 0 = '0' ∧ tok.char 1 = 'x'

instance : Decidable (IsHex tok) := inferInstanceAs (Decidable (_ ∧ _))

/-- What `strtoul` reads. -/
def numeral : Numeral.Result := Numeral.strtoul (if IsHex tok then 16 else 10) (tok.from (if IsHex tok then 2 else 0))

def IsByte : Prop := ¬((numeral tok).range ∨ 0xFF < (numeral tok).value ∨ ¬(numeral tok).atEnd)

/-- After `k` bytes the token is taken for these bytes. -/
inductive Takes : List Byte → Prop where
  | string (quoted : Quoted tok) (fits : Fits k tok) (room : k + (inside tok).length ≤ bytesSize) (closed : Closed tok) :
    Takes ((inside tok).map byteOf)
  | number (quoted : ¬Quoted tok) (byte : IsByte tok) : Takes [BitVec.ofInt 8 (numeral tok).value]

/-- After `k` bytes the token is reported as an error. -/
inductive Refused : Prop where
  | long (quoted : Quoted tok) (fits : ¬Fits k tok)
  | unclosed (quoted : Quoted tok) (fits : Fits k tok) (room : k + (inside tok).length ≤ bytesSize) (closed : ¬Closed tok)
  | number (quoted : ¬Quoted tok) (byte : ¬IsByte tok)

/-- After `k` bytes the token has more characters than there is room for. -/
structure Overruns : Prop where
  quoted : Quoted tok
  fits : Fits k tok
  full : bytesSize < k + (inside tok).length

theorem token_cases : (∃ b, Takes k tok b) ∨ Refused k tok ∨ Overruns k tok := by
  by_cases hquoted : Quoted tok
  · by_cases hfits : Fits k tok
    · by_cases hroom : k + (inside tok).length ≤ bytesSize
      · by_cases hclosed : Closed tok
        · exact Or.inl ⟨_, .string hquoted hfits hroom hclosed⟩
        · exact Or.inr (Or.inl (.unclosed hquoted hfits hroom hclosed))
      · exact Or.inr (Or.inr ⟨hquoted, hfits, Nat.lt_of_not_le hroom⟩)
    · exact Or.inr (Or.inl (.long hquoted hfits))
  · by_cases hbyte : IsByte tok
    · exact Or.inl ⟨_, .number hquoted hbyte⟩
    · exact Or.inr (Or.inl (.number hquoted hbyte))

end Tokens

section Begins
variable {tok : CStr}

theorem char_zero : tok.char 0 = tok.text.toList.headD '\x00' := CStr.char_eq (Nat.zero_le _)

theorem char_one {c : Char} {cs : List Char} (h : tok.text.toList = c :: cs) : tok.char 1 = cs.headD '\x00' := by
  have hlength := String.length_toList (s := tok.text)
  rw [h, List.length_cons] at hlength
  rw [CStr.char_eq (by omega), h]
  rfl

/-- The token begins with a quote just if its text does. -/
theorem quoted_iff : Quoted tok ↔ ∃ cs, tok.text.toList = '"' :: cs := by
  unfold Quoted
  rw [char_zero]
  cases htext : tok.text.toList with
  | nil => exact ⟨fun h => absurd h (by decide), fun ⟨_, h⟩ => (nomatch h)⟩
  | cons c cs => exact ⟨fun h => ⟨cs, by rw [show c = '"' from h]⟩, fun ⟨_, h⟩ => (List.cons.inj h).1⟩

theorem isHex_iff : IsHex tok ↔ ∃ cs, tok.text.toList = '0' :: 'x' :: cs := by
  unfold IsHex
  rw [char_zero]
  cases htext : tok.text.toList with
  | nil => exact ⟨fun h => absurd h.1 (by decide), fun ⟨_, h⟩ => (nomatch h)⟩
  | cons c cs =>
    rw [char_one htext]
    cases cs with
    | nil => exact ⟨fun h => absurd h.2 (by decide), fun ⟨_, h⟩ => (nomatch h)⟩
    | cons d ds =>
      refine ⟨fun ⟨hc, hd⟩ => ⟨ds, by rw [show c = '0' from hc, show d = 'x' from hd]⟩, fun ⟨es, h⟩ => ?_⟩
      cases h
      exact ⟨rfl, rfl⟩

end Begins

/-! ### The loop -/

section Loop
variable {cs : List Char} {bytes b : List Byte} {k : Nat} {tok : CStr} {toks : List CStr} {s : Session}

theorem quotedBytes_overruns (hle : bytes.length ≤ bytesSize) (hfull : bytesSize < bytes.length + (cs.takeWhile (· ≠ '"')).length) :
    ∃ t, quotedBytes cs bytes s = .fault .outOfBounds t := by
  induction cs generalizing bytes with
  | nil => exact absurd hfull (Nat.not_lt.mpr hle)
  | cons c cs ih =>
    unfold quotedBytes
    by_cases hc : c = '"'
    · rw [List.takeWhile_cons_of_neg (by simpa using hc)] at hfull
      exact absurd hfull (Nat.not_lt.mpr hle)
    · rw [if_neg hc]
      rw [List.takeWhile_cons_of_pos (by simpa using hc), List.length_cons] at hfull
      by_cases hend : bytesSize ≤ bytes.length
      · rw [when_true hend]
        exact ⟨s, rfl⟩
      · rw [when_false hend, pure_bind]
        refine ih ?_ ?_
        · rw [List.length_append, List.length_singleton]
          omega
        · rw [List.length_append, List.length_singleton]
          omega

theorem quotedBytes_closed (hroom : bytes.length + (cs.takeWhile (· ≠ '"')).length ≤ bytesSize) (hclosed : '"' ∈ cs) :
    quotedBytes cs bytes s = .ok (bytes ++ (cs.takeWhile (· ≠ '"')).map byteOf) s := by
  induction cs generalizing bytes with
  | nil => cases hclosed
  | cons c cs ih =>
    unfold quotedBytes
    by_cases hc : c = '"'
    · rw [if_pos hc, List.takeWhile_cons_of_neg (by simpa using hc), List.map_nil, List.append_nil]
      rfl
    · rw [List.takeWhile_cons_of_pos (by simpa using hc), List.length_cons] at hroom
      rw [if_neg hc, when_false (by omega), pure_bind, List.takeWhile_cons_of_pos (by simpa using hc)]
      have hrest := @ih (bytes ++ [byteOf c]) (by rw [List.length_append, List.length_singleton]; omega)
        ((List.mem_cons.mp hclosed).resolve_left (Ne.symm hc))
      rw [List.append_assoc] at hrest
      exact hrest

theorem quotedBytes_unclosed (hroom : bytes.length + (cs.takeWhile (· ≠ '"')).length ≤ bytesSize) (hclosed : '"' ∉ cs) :
    quotedBytes cs bytes s = reject [.error "Enter valid values" [], valueHint] s := by
  induction cs generalizing bytes with
  | nil => rfl
  | cons c cs ih =>
    unfold quotedBytes
    have hc : c ≠ '"' := fun h => hclosed (h ▸ List.mem_cons_self)
    rw [List.takeWhile_cons_of_pos (by simpa using hc), List.length_cons] at hroom
    rw [if_neg hc, when_false (by omega), pure_bind]
    exact ih (by rw [List.length_append, List.length_singleton]; omega) fun h => hclosed (List.mem_cons_of_mem _ h)

/-- An error is reported, and only the scratch part of the state changes besides. -/
def ReportsError {α : Type} (o : Outcome Session Int Fault α) (s : Session) : Prop :=
  ∃ format args outs x, o = .error 0 { s.withScratch x with out := s.out ++ .error format args :: outs }

theorem collect_full (hfull : bytesSize ≤ bytes.length) : collectBytes toks bytes s = .ok bytes s := by
  cases toks with
  | nil => rfl
  | cons tok toks =>
    rw [collectBytes, if_pos hfull]
    rfl

/-- A number is read with `errno` set before. -/
theorem collect_number (hroom : bytes.length < bytesSize) (hquoted : ¬Quoted tok) : ∃ x, collectBytes (tok :: toks) bytes s =
    (Exec.when ((numeral tok).range ∨ 0xFF < (numeral tok).value ∨ ¬(numeral tok).atEnd)
      (reject [.error "Invalid value: %s" [.str (String.ofList (tok.text.toList.drop (if IsHex tok then 2 else 0)))]]) >>= fun _ =>
        collectBytes toks (bytes ++ [BitVec.ofInt 8 (numeral tok).value])) (s.withScratch x) := by
  refine ⟨s.state.scratch.withErrno (if (numeral tok).range then ERANGE else 0), ?_⟩
  rw [collectBytes, if_neg (Nat.not_le.mpr hroom), if_neg (show ¬tok.char 0 = '"' from hquoted), converted_bind]
  exact sys_setErrno_bind

theorem collect_string (hroom : bytes.length < bytesSize) (hquoted : Quoted tok) : collectBytes (tok :: toks) bytes =
    (Exec.when (256 < BitVec.ofNat 64 bytes.length + (BitVec.ofNat 64 tok.text.length - 2)) (reject [.error "Too many bytes (max 256)" []]) >>=
      fun _ => quotedBytes tok.text.toList.tail bytes >>= collectBytes toks) := by
  rw [collectBytes, if_neg (Nat.not_le.mpr hroom), if_pos (show tok.char 0 = '"' from hquoted)]

theorem collect_takes (hroom : bytes.length < bytesSize) (h : Takes bytes.length tok b) :
    ∃ x, collectBytes (tok :: toks) bytes s = collectBytes toks (bytes ++ b) (s.withScratch x) := by
  cases h with
  | string quoted fits room closed =>
    refine ⟨s.state.scratch, ?_⟩
    rw [collect_string hroom quoted, when_false fits, pure_bind, bind_of_ok (quotedBytes_closed room closed)]
    rfl
  | number quoted byte =>
    obtain ⟨x, hx⟩ := @collect_number bytes tok toks s hroom quoted
    refine ⟨x, ?_⟩
    rw [hx, when_false byte, pure_bind]

theorem collect_refused (hroom : bytes.length < bytesSize) (h : Refused bytes.length tok) :
    ReportsError (collectBytes (tok :: toks) bytes s) s := by
  cases h with
  | long quoted fits =>
    rw [collect_string hroom quoted, when_reject_bind (not_not.mp fits)]
    exact ⟨_, _, [], s.state.scratch, rfl⟩
  | unclosed quoted fits room closed =>
    rw [collect_string hroom quoted, when_false fits, pure_bind]
    rw [bind_of_error (quotedBytes_unclosed room closed)]
    exact ⟨_, _, _, s.state.scratch, rfl⟩
  | number quoted byte =>
    obtain ⟨x, hx⟩ := @collect_number bytes tok toks s hroom quoted
    rw [hx, when_reject_bind (not_not.mp byte)]
    exact ⟨_, _, [], x, rfl⟩

theorem collect_overruns (hroom : bytes.length < bytesSize) (h : Overruns bytes.length tok) :
    ∃ t, collectBytes (tok :: toks) bytes s = .fault .outOfBounds t := by
  obtain ⟨t, ht⟩ := @quotedBytes_overruns tok.text.toList.tail bytes s (Nat.le_of_lt hroom) h.full
  refine ⟨t, ?_⟩
  rw [collect_string hroom h.quoted, when_false h.fits, pure_bind]
  exact bind_of_fault ht

/-- With the first bytes in the buffer, the tokens are taken one after the other, and the last bytes are there then. -/
inductive Accepts : List Byte → List CStr → List Byte → Prop where
  | nil (bytes : List Byte) : Accepts bytes [] bytes
  | cons {bytes b bytes' : List Byte} {tok : CStr} {toks : List CStr} : bytes.length < bytesSize → Takes bytes.length tok b →
    Accepts (bytes ++ b) toks bytes' → Accepts bytes (tok :: toks) bytes'

variable {bytes' : List Byte} {before after : List CStr}

theorem Takes.length_le (h : Takes k tok b) (hk : k < bytesSize) : k + b.length ≤ bytesSize := by
  cases h with
  | string quoted fits room closed => rwa [List.length_map]
  | number quoted byte => exact hk

theorem Accepts.length_le (h : Accepts bytes toks bytes') (hle : bytes.length ≤ bytesSize) : bytes'.length ≤ bytesSize := by
  induction h with
  | nil => exact hle
  | cons hroom htakes _ ih =>
    refine ih ?_
    rw [List.length_append]
    exact htakes.length_le hroom

/-- The loop goes on behind the tokens that were taken. -/
theorem Accepts.run (h : Accepts bytes before bytes') :
    ∃ x, collectBytes (before ++ after) bytes s = collectBytes after bytes' (s.withScratch x) := by
  induction h generalizing s with
  | nil => exact ⟨s.state.scratch, rfl⟩
  | cons hroom htakes _ ih =>
    obtain ⟨x, hx⟩ := @collect_takes _ _ _ _ s hroom htakes
    obtain ⟨y, hy⟩ := @ih (s.withScratch x)
    exact ⟨y, hx.trans hy⟩

/-- The loop ends at a token that it does not take, or at a full buffer, or at the end. -/
theorem loop_ends (toks : List CStr) (bytes : List Byte) :
    (∃ before tok after bytes', toks = before ++ tok :: after ∧ Accepts bytes before bytes' ∧ bytes'.length < bytesSize ∧
      (Refused bytes'.length tok ∨ Overruns bytes'.length tok)) ∨
    ∃ before after bytes', toks = before ++ after ∧ Accepts bytes before bytes' ∧ (after = [] ∨ bytesSize ≤ bytes'.length) := by
  induction toks generalizing bytes with
  | nil => exact Or.inr ⟨[], [], bytes, rfl, .nil bytes, Or.inl rfl⟩
  | cons tok toks ih =>
    by_cases hroom : bytes.length < bytesSize
    · rcases token_cases bytes.length tok with ⟨b, htakes⟩ | hstops
      · rcases ih (bytes ++ b) with ⟨before, tok', after, bytes', rfl, haccepts, hstops⟩ | ⟨before, after, bytes', rfl, haccepts, hends⟩
        · exact Or.inl ⟨tok :: before, tok', after, bytes', rfl, .cons hroom htakes haccepts, hstops⟩
        · exact Or.inr ⟨tok :: before, after, bytes', rfl, .cons hroom htakes haccepts, hends⟩
      · exact Or.inl ⟨[], tok, toks, bytes, rfl, .nil bytes, hroom, hstops⟩
    · exact Or.inr ⟨[], tok :: toks, bytes, rfl, .nil bytes, Or.inr (Nat.le_of_not_lt hroom)⟩

/-- The loop over `values` comes to the token `tok` with `bytes` in the buffer. -/
structure Reaches (values : List CStr) (tok : CStr) (bytes : List Byte) : Prop where
  room : bytes.length < bytesSize
  path : ∃ before after, values = before ++ tok :: after ∧ Accepts [] before bytes

theorem values_cases (values : List CStr) : (∃ tok bytes, Reaches values tok bytes ∧ (Refused bytes.length tok ∨ Overruns bytes.length tok)) ∨
    ∃ before after bytes, values = before ++ after ∧ Accepts [] before bytes ∧ (after = [] ∨ bytesSize ≤ bytes.length) := by
  rcases loop_ends values [] with ⟨before, tok, after, bytes, hvalues, haccepts, hroom, hstops⟩ | hends
  · exact Or.inl ⟨tok, bytes, ⟨hroom, before, after, hvalues, haccepts⟩, hstops⟩
  · exact Or.inr hends

theorem Reaches.refused (h : Reaches toks tok bytes) (hrefused : Refused bytes.length tok) : ReportsError (collectBytes toks [] s) s := by
  obtain ⟨before, after, rfl, haccepts⟩ := h.path
  obtain ⟨x, hx⟩ := @Accepts.run [] s bytes before (tok :: after) haccepts
  rw [hx]
  obtain ⟨format, args, outs, y, hy⟩ := collect_refused (s := s.withScratch x) h.room hrefused
  exact ⟨format, args, outs, y, hy⟩

theorem Reaches.overruns (h : Reaches toks tok bytes) (hoverruns : Overruns bytes.length tok) :
    ∃ t, collectBytes toks [] s = .fault .outOfBounds t := by
  obtain ⟨before, after, rfl, haccepts⟩ := h.path
  obtain ⟨x, hx⟩ := @Accepts.run [] s bytes before (tok :: after) haccepts
  rw [hx]
  exact collect_overruns h.room hoverruns

/-- The tokens in front are taken, and the loop is over. -/
theorem Accepts.ends (h : Accepts [] before bytes) (hend : after = [] ∨ bytesSize ≤ bytes.length) :
    ∃ x, collectBytes (before ++ after) [] s = .ok bytes (s.withScratch x) := by
  obtain ⟨x, hx⟩ := @Accepts.run [] s bytes before after h
  refine ⟨x, ?_⟩
  rcases hend with rfl | hfull
  · rw [hx]
    rfl
  · rw [hx, collect_full hfull]

end Loop

end Sylvan
