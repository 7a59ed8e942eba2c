import Mathlib.Data.List.Basic
import Sylvan.Op
import Sylvan.Child
import Sylvan.Theorems.Rules

/-! What becomes of the report of a child that fails. The parent reads two numbers from a buffer that it does not end,
    so digits that the buffer held before count as digits of the second one, and it tells the cases by the second number
    where the first was meant. -/

namespace Sylvan
open Exec

/-! ### Numbers in decimal -/

section Decimal
variable {n : Nat} {z : Int} {b : Byte} {bs rest : List Byte}

/-- The number that the digits `ds` denote, after those that denote `n`. -/
def digitsValue (n : Nat) (ds : List Byte) : Nat := ds.foldl (fun n b => 10 * n + (b.toNat - 48)) n

theorem scanDigits_eq : scanDigits n bs = (digitsValue n (bs.takeWhile isDigit), bs.dropWhile isDigit) := by
  induction bs generalizing n with
  | nil => rfl
  | cons b bs ih =>
    rw [scanDigits, List.takeWhile_cons, List.dropWhile_cons]
    split
    · rw [ih]
      rfl
    · rfl

/-- A digit as a byte -/
theorem toNat_digit {c : Char} (h : c.isDigit = true) : (BitVec.ofNat 8 c.toNat).toNat = c.toNat := by
  have := (Char.isDigit_iff_toNat.mp h).2
  simp only [Char.reduceToNat] at this
  rw [BitVec.toNat_ofNat]
  omega

theorem isDigit_of_mem_digits (hb : b ∈ digits n) : isDigit b = true := by
  obtain ⟨c, hc, rfl⟩ := List.mem_map.mp hb
  have hdigit := Nat.isDigit_of_mem_toDigits (by decide) (by decide) hc
  have hrange := Char.isDigit_iff_toNat.mp hdigit
  rw [← toNat_digit hdigit] at hrange
  rw [isDigit, Bool.and_eq_true, decide_eq_true_iff, decide_eq_true_iff, BitVec.le_def, BitVec.le_def]
  exact hrange

theorem digitsValue_digits : digitsValue 0 (digits n) = n := by
  refine Eq.trans ?_ (Nat.ofDigitChars_toDigits (n := n) (by decide : 1 < 10) (by decide))
  rw [digitsValue, digits, List.foldl_map, Nat.ofDigitChars_eq_foldl]
  refine List.foldl_ext _ _ 0 fun k c hc => ?_
  rw [toNat_digit (Nat.isDigit_of_mem_toDigits (by decide) (by decide) hc)]
  rfl

theorem digits_ne_nil : digits n ≠ [] := by
  unfold digits
  simp [Nat.toDigits_ne_nil]

/-- The digits of a number, and whatever digits come after them, are read as one number. -/
theorem scanDigits_digits : scanDigits 0 (digits n ++ rest) = (digitsValue n (rest.takeWhile isDigit), rest.dropWhile isDigit) := by
  rw [scanDigits_eq, List.takeWhile_append_of_pos fun b hb => isDigit_of_mem_digits hb,
    List.dropWhile_append_of_pos fun b hb => isDigit_of_mem_digits hb, digitsValue, List.foldl_append]
  exact congrArg (fun k => (digitsValue k (rest.takeWhile isDigit), rest.dropWhile isDigit)) digitsValue_digits

/-- The sign that `%d` prints -/
def minus (z : Int) : Int := if z < 0 then -1 else 1

theorem not_isSpace_of_isDigit (h : isDigit b = true) : isSpace b = false := by
  rw [isDigit, Bool.and_eq_true, decide_eq_true_iff, decide_eq_true_iff] at h
  rw [isSpace, Bool.or_eq_false_iff, decide_eq_false_iff_not, Bool.and_eq_false_iff, decide_eq_false_iff_not, decide_eq_false_iff_not]
  bv_omega

/-- A number starts with a digit, which neither is skipped nor is a sign. -/
theorem digits_cons : ∃ b bs, digits n = b :: bs ∧ isDigit b = true ∧ isSpace b = false ∧ b ≠ 45#8 ∧ b ≠ 43#8 := by
  obtain ⟨b, bs, hb⟩ := List.exists_cons_of_ne_nil (@digits_ne_nil n)
  have hdigit : isDigit b = true := isDigit_of_mem_digits (hb ▸ List.mem_cons_self)
  refine ⟨b, bs, hb, hdigit, not_isSpace_of_isDigit hdigit, fun h => ?_, fun h => ?_⟩
  · subst h
    cases hdigit
  · subst h
    cases hdigit

theorem scanInt_digits : scanInt (digits n ++ rest) = some (toInt (digitsValue n (rest.takeWhile isDigit)), rest.dropWhile isDigit) := by
  obtain ⟨b, bs, hb, hdigit, hspace, hminus, hplus⟩ := @digits_cons n
  have hscan := @scanDigits_digits n rest
  rw [hb, List.cons_append] at hscan ⊢
  simp [scanInt, hspace, hminus, hplus, hdigit, hscan]

theorem scanInt_minus : scanInt (45 :: (digits n ++ rest)) =
    some (toInt (-1 * digitsValue n (rest.takeWhile isDigit)), rest.dropWhile isDigit) := by
  obtain ⟨b, bs, hb, hdigit, -⟩ := @digits_cons n
  have hscan := @scanDigits_digits n rest
  have hspace : isSpace 45#8 = false := rfl
  rw [hb, List.cons_append] at hscan ⊢
  simp [scanInt, hspace, hdigit, hscan]

theorem scanInt_decimal : scanInt (decimal z ++ rest) =
    some (toInt (minus z * digitsValue z.natAbs (rest.takeWhile isDigit)), rest.dropWhile isDigit) := by
  by_cases hz : z < 0
  · rw [decimal, minus, if_pos hz, if_pos hz]
    exact scanInt_minus
  · rw [decimal, minus, if_neg hz, if_neg hz, List.nil_append, scanInt_digits, Int.one_mul]

/-- The blank between the numbers is skipped. -/
theorem scanInt_blank : scanInt (32 :: bs) = scanInt bs := by
  rw [scanInt, List.dropWhile_cons_of_pos (by decide), scanInt]

theorem minus_natAbs : minus z * z.natAbs = z := by
  unfold minus
  split <;> omega

/-- Both numbers are read, the second one with the digits that come after it. -/
theorem scanReport_reportBytes {code : Code} : scanReport (reportBytes code z ++ rest) =
    some (toInt code.value, toInt (minus z * digitsValue z.natAbs (rest.takeWhile isDigit))) := by
  have hfirst : scanInt (reportBytes code z ++ rest) = some (toInt code.value, 32 :: (decimal z ++ rest)) := by
    rw [reportBytes, List.append_assoc, List.cons_append, scanInt_decimal, List.takeWhile_cons_of_neg (by decide),
      List.dropWhile_cons_of_neg (by decide), digitsValue, List.foldl_nil, minus_natAbs]
  unfold scanReport
  rw [hfirst]
  show (scanInt (32 :: (decimal z ++ rest)) >>= _) = _
  rw [scanInt_blank, scanInt_decimal]
  rfl

end Decimal

/-! ### What the child sends -/

/-- `handle_child` may report `code`. -/
def Sends (code : Code) : Prop := ∃ a path args status errno, handleChild a path args = .exit status (some (code, errno))

/-- The codes that a number is told apart by. -/
def dispatched : List Code := [.ptraceError, .outOfMemory, .invalidArgument, .fileNotFound]

section Sends
variable {a : ChildAnswers} {code c : Code} {errno e : Errno} {status : Nat} {path : String} {args : Option String} {argv : List String}
  {n : Int}

theorem exitChild_sends (h : exitChild a c e = .exit status (some (code, errno))) : code = c := by
  unfold exitChild at h
  split at h
  · cases h
  · cases h
    rfl

theorem startProgram_silent : startProgram a path argv ≠ .exit status (some (code, errno)) := by
  unfold startProgram
  split <;> exact fun h => (nomatch h)

theorem Sends.cases (h : Sends code) : code = .ptraceError ∨ code = .outOfMemory ∨ code = .invalidArgument := by
  obtain ⟨a, path, args, status, errno, h⟩ := h
  unfold handleChild at h
  split at h
  · cases h
  split at h
  · exact Or.inl (exitChild_sends h)
  split at h
  · exact Or.inr (Or.inl (exitChild_sends h))
  split at h
  · exact absurd h startProgram_silent
  split at h
  · have hcode := exitChild_sends h
    split at hcode
    · exact Or.inr (Or.inl hcode)
    · exact Or.inr (Or.inr hcode)
  · exact absurd h startProgram_silent

theorem Sends.dispatched (h : Sends code) : code ∈ dispatched := by
  rcases h.cases with rfl | rfl | rfl <;> decide

theorem Sends.ne_ok (h : Sends code) : code ≠ .ok := by
  rcases h.cases with rfl | rfl | rfl <;> decide

/-- The parent reads the code that the child sent. -/
theorem Sends.read (h : Sends code) : Code.ofInt (toInt code.value) = code := by
  rcases h.cases with rfl | rfl | rfl <;> decide

theorem ofInt_eq_iff (hc : c ∈ dispatched) : Code.ofInt n = c ↔ n = c.value := by
  constructor
  · intro h
    unfold Code.ofInt at h
    cases hfind : Code.named.find? fun c => c.value = n with
    | none =>
      rw [hfind, Option.getD_none] at h
      subst h
      simp [Sylvan.dispatched] at hc
    | some c' =>
      rw [hfind, Option.getD_some] at h
      subst h
      have hvalue : c'.value = n := by simpa using List.find?_some hfind
      exact hvalue.symm
  · rintro rfl
    have hall : ∀ c ∈ Sylvan.dispatched, Code.ofInt c.value = c := by decide
    exact hall c hc

end Sends

/-! ### What the parent makes of it -/

section Parent
variable {env : Env} {s u : State} {code : Code} {report : List Byte} {c n : Int}

/-- The parent's buffer after `report` was read into it. -/
def buffer (report stale : List Byte) : List Byte := (report ++ stale.drop report.length).take reportBufferSize

/-- The outcome `o` is the error `c`, recorded with the `errno` `n`. -/
def Reports (o : Outcome State Code Fault Unit) (c : Code) (n : Errno) : Prop :=
  ∃ t, o = .error c t ∧ t.scratch.lastError.code = c ∧ t.scratch.lastError.osErrno = n

/-- The parent takes the second number for the code, and the first one where that is none of four. -/
theorem childFailed_reads (hscan : scanReport (buffer report (env.stale u.scratch.clock)) = some (c, n)) (hc : Code.ofInt c ≠ .ok) :
    Reports (childFailed env report u) (if Code.ofInt n ∈ dispatched then Code.ofInt n else Code.ofInt c) n := by
  unfold childFailed
  rw [bind_of_ok (show Sys.tick u = .ok u.scratch.clock _ from rfl)]
  rw [show (report ++ (env.stale u.scratch.clock).drop report.length).take reportBufferSize = buffer report (env.stale u.scratch.clock) from rfl,
    hscan]
  dsimp only
  rw [bind_of_ok (show setErrno n _ = .ok () _ from rfl)]
  by_cases hd : Code.ofInt n ∈ dispatched
  · rw [if_pos hd]
    have hcase : Code.ofInt n = .ptraceError ∨ Code.ofInt n = .outOfMemory ∨ Code.ofInt n = .invalidArgument ∨
        Code.ofInt n = .fileNotFound := by simpa [dispatched] using hd
    rcases hcase with h | h | h | h
    all_goals
      rw [h]
      exact ⟨_, rfl, rfl, rfl⟩
  · rw [if_neg hd]
    generalize Code.ofInt n = k at hd ⊢
    cases k with
    | ptraceError => exact absurd (by decide) hd
    | outOfMemory => exact absurd (by decide) hd
    | invalidArgument => exact absurd (by decide) hd
    | fileNotFound => exact absurd (by decide) hd
    | _ =>
      show Reports (returnCode (Code.ofInt c) _) _ _
      rw [returnCode, if_neg hc]
      exact ⟨_, rfl, rfl, rfl⟩

theorem Reports.unique {o : Outcome State Code Fault Unit} {c c' : Code} {n n' : Errno} (h : Reports o c n) (h' : Reports o c' n') :
    c = c' ∧ n = n' := by
  obtain ⟨t, ht, -, hn⟩ := h
  obtain ⟨t', ht', -, hn'⟩ := h'
  cases ht.symm.trans ht'
  exact ⟨rfl, hn.symm.trans hn'⟩

/-! ### The run -/

theorem plain_granted {answer : Nat → Option Failure} {text : String} (h : answer s.scratch.clock = none) :
    checked env code text (Sys.plain answer) s = .ok () (s.withScratch s.scratch.tick) := by
  refine checked_ok ?_
  rw [Sys.plain, Sys.answered, h]

end Parent

/-- A call of `sylvan_run` from `s` that gets to read `bytes` from its child: what its calls are answered, and the states
    after the last program was killed and after the bytes were read. -/
structure ReportRead (env : Env) (s : State) (bytes : List Byte) where
  path : String
  realpath : s.inf.realpath = some path
  executable : env.access s.scratch.clock path = none
  killed : State
  kill : Sylvan.kill env (s.withScratch s.scratch.tick) = .ok () killed
  pipe : env.pipe killed.scratch.clock = none
  child : Child
  forked : State
  fork : Sys.fork env (killed.withScratch killed.scratch.tick) = .ok (.ok child) forked
  closeWrite : env.close forked.scratch.clock = none
  after : State
  read : Sys.retry (Sys.answered env.read) env.retries (forked.withScratch forked.scratch.tick) = .ok (.ok bytes) after
  closeRead : env.close after.scratch.clock = none

section Run
variable {env : Env} {s : State} {code : Code} {bytes stale : List Byte} {e : BitVec 32}

theorem ReportRead.run (h : ReportRead env s bytes) (hne : bytes ≠ []) (hfits : bytes.length ≤ reportBufferSize) :
    run env s = childFailed env bytes (h.after.withScratch h.after.scratch.tick) := by
  unfold Sylvan.run
  rw [bind_of_ok (show Exec.get s = .ok s s from rfl), h.realpath]
  dsimp only
  rw [bind_of_ok (plain_granted h.executable), bind_of_ok h.kill, bind_of_ok (plain_granted h.pipe)]
  have hfork : handled (Sys.fork env) (fun _ => forkFailed env) (h.killed.withScratch h.killed.scratch.tick) = .ok h.child h.forked := by
    unfold handled
    rw [bind_of_ok h.fork]
    rfl
  rw [bind_of_ok hfork]
  unfold handleParent
  rw [bind_of_ok (plain_granted h.closeWrite), bind_of_ok h.read, bind_of_ok (plain_granted h.closeRead)]
  have hbytes : handled (pure (.ok bytes)) (fun _ => setErrnoMsg env .systemError "read from pipe")
      (h.after.withScratch h.after.scratch.tick) = .ok bytes (h.after.withScratch h.after.scratch.tick) := rfl
  rw [bind_of_ok hbytes, List.take_of_length_le hfits, if_pos hne]

/-- The digits that the buffer held right after the place of the message. -/
def residue (code : Code) (errno : Errno) (stale : List Byte) : List Byte :=
  ((stale.take reportBufferSize).drop (reportBytes code errno).length).takeWhile isDigit

theorem length_decimal (e : BitVec 32) : (decimal e.toInt).length ≤ 11 := by
  have hrange : e.toInt.natAbs < 10 ^ 10 := by
    have := e.toInt_lt
    have := e.le_toInt
    omega
  have hdigits : (digits e.toInt.natAbs).length ≤ 10 := by
    rw [digits, List.length_map]
    exact (Nat.length_toDigits_le_iff (by decide) (by decide)).mpr hrange
  rw [decimal, List.length_append]
  split
  · rw [List.length_singleton]
    omega
  · rw [List.length_nil]
    omega

theorem length_reportBytes (hsent : Sends code) (e : BitVec 32) : (reportBytes code e.toInt).length ≤ reportBufferSize := by
  have herrno := length_decimal e
  have hcode : (decimal code.value).length ≤ 4 := by rcases hsent.cases with rfl | rfl | rfl <;> decide
  rw [reportBytes, List.length_append, List.length_cons, reportBufferSize]
  omega

theorem buffer_eq (hfits : bytes.length ≤ reportBufferSize) : buffer bytes stale = bytes ++ (stale.take reportBufferSize).drop bytes.length := by
  rw [buffer, List.take_append, List.take_of_length_le hfits, List.drop_take]

/-- The parent finds the number `e` again, and does not take it for a code that was not sent. The number is read with the
    digits after it, and kept in the range of a `long` and then in that of an `int`. -/
structure Legible (code : Code) (e : BitVec 32) (stale : List Byte) : Prop where
  number : BitVec.ofInt 32 (max (-2 ^ 63) (min (minus e.toInt * digitsValue e.toInt.natAbs (residue code e.toInt stale)) (2 ^ 63 - 1))) = e
  dispatch : ∀ c ∈ dispatched, e.toInt = c.value → c = code

/-- A report survives the pipe if no digits are left in the buffer behind it that make its number another one, and if that
    number is not one of the other codes. -/
theorem report_survives_iff (env : Env) (s : State) (code : Code) (e : BitVec 32) (hsent : Sends code)
    (h : ReportRead env s (reportBytes code e.toInt)) :
    Reports (run env s) code e.toInt ↔ Legible code e (env.stale (h.after.scratch.clock + 1)) := by
  have hfits := length_reportBytes hsent e
  have hne : reportBytes code e.toInt ≠ [] := by
    unfold reportBytes
    simp
  generalize hn : toInt (minus e.toInt * digitsValue e.toInt.natAbs (residue code e.toInt (env.stale (h.after.scratch.clock + 1)))) = n
  have hscan : scanReport (buffer (reportBytes code e.toInt) (env.stale (h.after.scratch.clock + 1))) = some (toInt code.value, n) := by
    rw [buffer_eq hfits, scanReport_reportBytes, ← hn]
    rfl
  have hreads := childFailed_reads (u := h.after.withScratch h.after.scratch.tick) hscan (by rw [hsent.read]; exact hsent.ne_ok)
  rw [← h.run hne hfits, hsent.read] at hreads
  have hnumber : n = e.toInt ↔ BitVec.ofInt 32 (max (-2 ^ 63)
      (min (minus e.toInt * digitsValue e.toInt.natAbs (residue code e.toInt (env.stale (h.after.scratch.clock + 1)))) (2 ^ 63 - 1))) = e := by
    rw [← hn]
    exact BitVec.toInt_inj
  constructor
  · intro hreported
    obtain ⟨hcode, herrno⟩ := hreads.unique hreported
    refine ⟨hnumber.mp herrno, fun c hc hvalue => ?_⟩
    have hread : Code.ofInt n = c := (ofInt_eq_iff hc).mpr (herrno.trans hvalue)
    rw [hread, if_pos hc] at hcode
    exact hcode
  · intro hlegible
    have herrno := hnumber.mpr hlegible.number
    have hcode : (if Code.ofInt n ∈ dispatched then Code.ofInt n else code) = code := by
      split
      · rename_i hd
        exact hlegible.dispatch _ hd (herrno.symm.trans ((ofInt_eq_iff hd).mp rfl))
      · rfl
    rw [hcode, herrno] at hreads
    exact hreads

end Run

/-- The child reports `report`, and the buffer held `stale`. -/
def Env.reporting (report stale : List Byte) : Env := { Env.compliant with read := fun _ => .ok report, stale := fun _ => stale }

/-- An inferior with a path, and no process -/
def State.withPath : State := State.blank.setInf { State.blank.inf with realpath := some "/bin/true" }

/-- A run that reads the report -/
def reportRead (report stale : List Byte) : ReportRead (Env.reporting report stale) State.withPath report where
  path := "/bin/true"
  realpath := rfl
  executable := rfl
  killed := _
  kill := rfl
  pipe := rfl
  child := _
  forked := _
  fork := rfl
  closeWrite := rfl
  after := _
  read := rfl
  closeRead := rfl

/-- `PTRACE_TRACEME` is refused with `EPERM`. -/
theorem sends_ptraceError : Sends .ptraceError :=
  ⟨⟨none, none, none, some ⟨EPERM, by decide⟩, true, "", fun _ => .ok [], fun _ _ => none⟩, "/bin/true", none, 0, EPERM, rfl⟩

theorem report_survives_iff_eperm : Reports (run (Env.reporting (reportBytes .ptraceError 1) []) State.withPath) .ptraceError 1 :=
  (report_survives_iff (Env.reporting (reportBytes .ptraceError 1) []) State.withPath .ptraceError 1 sends_ptraceError
    (reportRead (reportBytes .ptraceError 1) [])).mpr ⟨by decide +kernel, by decide⟩

/-- With a `2` behind it in the buffer, `EPERM` is read as 12; and a number that is the one of another code stands for
    that code. -/
theorem reports_garbled :
    ¬Reports (run (Env.reporting (reportBytes .ptraceError 1) (List.replicate 6 0 ++ 50 :: List.replicate 121 0)) State.withPath) .ptraceError 1 ∧
    ¬Reports (run (Env.reporting (reportBytes .ptraceError 257) (List.replicate 128 0)) State.withPath) .ptraceError 257 := by
  constructor
  · rintro ⟨t, ht, -, hn⟩
    have hrun : run (Env.reporting (reportBytes .ptraceError 1) (List.replicate 6 0 ++ 50 :: List.replicate 121 0)) State.withPath = .error .ptraceError _ :=
      State.after_error (by decide +kernel)
    rw [(Outcome.error.inj (ht.symm.trans hrun)).2] at hn
    exact absurd hn (by decide +kernel)
  · rintro ⟨t, ht, -⟩
    have hrun : run (Env.reporting (reportBytes .ptraceError 257) (List.replicate 128 0)) State.withPath = .error .outOfMemory _ :=
      State.after_error (by decide +kernel)
    cases ht.symm.trans hrun

end Sylvan
