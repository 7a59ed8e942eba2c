import Mathlib.Algebra.Group.Int.Defs
import Mathlib.Algebra.Group.Nat.Defs
import Mathlib.Data.List.TakeDrop
import Mathlib.Data.List.TakeWhile

/-! # Numerals of the C library

`scan base mem` reads a numeral as `strtol` and `strtoul` do: blanks, a sign, for base 16 a prefix `0x`, and digits.
`mem` is the memory from the pointer on; behind its end there is nothing but zeros. `Denotes` says which texts are
numerals, and of what numbers. -/

namespace Numeral

/-- `isspace`, in the C locale -/
def isSpace (c : Char) : Bool := c = ' ' || ('\t' ≤ c && c ≤ '\r')

def digitValue (c : Char) : Nat :=
  if '0' ≤ c ∧ c ≤ '9' then c.toNat - '0'.toNat
  else if 'a' ≤ c ∧ c ≤ 'z' then c.toNat - 'a'.toNat + 10
  else if 'A' ≤ c ∧ c ≤ 'Z' then c.toNat - 'A'.toNat + 10
  else 36

def isDigit (base : Nat) (c : Char) : Bool := digitValue c < base

/-- What the digits `ds` denote. -/
def value (base : Nat) (ds : List Char) : Nat := ds.foldl (fun n c => base * n + digitValue c) 0

/-- A numeral: whether it is negative, its digits and what follows them. -/
structure Scan where
  neg : Bool
  digits : List Char
  rest : List Char
  deriving DecidableEq, Repr

/-- Whether there is a `-`, and what follows the sign. -/
def sign : List Char → Bool × List Char
  | '-' :: mem => (true, mem)
  | '+' :: mem => (false, mem)
  | mem => (false, mem)

/-- A prefix is one only before a digit. -/
def skipPrefix (base : Nat) : List Char → List Char
  | '0' :: x :: c :: mem => if base = 16 ∧ (x = 'x' ∨ x = 'X') ∧ isDigit 16 c then c :: mem else '0' :: x :: c :: mem
  | mem => mem

/-- Where there is no digit, nothing is read. -/
def scan (base : Nat) (mem : List Char) : Scan :=
  let signed := sign (mem.dropWhile isSpace)
  let body := skipPrefix base signed.2
  if body.takeWhile (isDigit base) = [] then ⟨false, [], mem⟩
  else ⟨signed.1, body.takeWhile (isDigit base), body.dropWhile (isDigit base)⟩

/-- `*endptr == '\0'` -/
def Scan.atEnd (s : Scan) : Bool := s.rest.headD '\x00' = '\x00'

def Scan.value (s : Scan) (base : Nat) : Int :=
  if s.neg then -(Numeral.value base s.digits : Int) else Numeral.value base s.digits

/-- What `strtol` and `strtoul` return: the number, whether `errno` becomes `ERANGE`, and whether `endptr` is at the end
    of the string. -/
structure Result where
  value : Int
  range : Bool
  atEnd : Bool
  deriving DecidableEq, Repr

/-- `n` is not a `long`. -/
def Overflows (n : Int) : Prop := n < -2 ^ 63 ∨ 2 ^ 63 ≤ n

instance (n : Int) : Decidable (Overflows n) := inferInstanceAs (Decidable (_ ∨ _))

/-- `strtol` keeps to the range of a `long`. -/
def strtol (base : Nat) (mem : List Char) : Result :=
  let n := (scan base mem).value base
  ⟨max (-2 ^ 63) (min n (2 ^ 63 - 1)), Overflows n, (scan base mem).atEnd⟩

/-- `strtoul` negates in `unsigned long`. -/
def strtoul (base : Nat) (mem : List Char) : Result :=
  let s := scan base mem
  if 2 ^ 64 ≤ Numeral.value base s.digits then ⟨2 ^ 64 - 1, true, s.atEnd⟩ else ⟨s.value base % 2 ^ 64, false, s.atEnd⟩

/-- `text` is a numeral for `n`. -/
inductive Denotes (base : Nat) : (text : List Char) → (n : Int) → Prop where
  | mk (blanks sign lead digits : List Char) (blank : ∀ c ∈ blanks, isSpace c)
    (signed : sign = [] ∨ sign = ['+'] ∨ sign = ['-'])
    (led : lead = [] ∨ base = 16 ∧ (lead = ['0', 'x'] ∨ lead = ['0', 'X'])) (nonempty : digits ≠ [])
    (digit : ∀ c ∈ digits, isDigit base c) :
    Denotes base (blanks ++ (sign ++ (lead ++ digits)))
      (if sign = ['-'] then -(value base digits : Int) else value base digits)

/-! ### Characters -/

section
variable {base : Nat} {c : Char}

theorem digitValue_cases (c : Char) :
    '0' ≤ c ∧ c ≤ '9' ∨ 'a' ≤ c ∧ c ≤ 'z' ∨ 'A' ≤ c ∧ c ≤ 'Z' ∨ digitValue c = 36 := by
  unfold digitValue
  split
  · exact Or.inl ‹_›
  · split
    · exact Or.inr (Or.inl ‹_›)
    · split
      · exact Or.inr (Or.inr (Or.inl ‹_›))
      · exact Or.inr (Or.inr (Or.inr rfl))

theorem isDigit_nul (hb : base ≤ 36) : isDigit base '\x00' = false := by
  have : digitValue '\x00' = 36 := by decide
  simp [isDigit, this, hb]

/-- A blank comes before every letter and every digit. -/
theorem isSpace_of_le {lo : Char} (hlo : ¬lo ≤ ' ') (h : lo ≤ c) : isSpace c = false := by
  unfold isSpace
  rw [Bool.or_eq_false_iff, Bool.and_eq_false_iff]
  refine ⟨decide_eq_false ?_, Or.inr (decide_eq_false ?_)⟩
  · rintro rfl
    exact hlo h
  · intro hr
    exact hlo (Char.le_trans h (Char.le_trans hr (by decide)))

theorem isSpace_of_isDigit (hb : base ≤ 36) (h : isDigit base c) : isSpace c = false := by
  have hlt : digitValue c < 36 := Nat.lt_of_lt_of_le (by simpa [isDigit] using h) hb
  rcases digitValue_cases c with ⟨hl, -⟩ | ⟨hl, -⟩ | ⟨hl, -⟩ | h36
  · exact isSpace_of_le (by decide) hl
  · exact isSpace_of_le (by decide) hl
  · exact isSpace_of_le (by decide) hl
  · omega

end

/-! ### The end of a string

What is behind the end of a string has no part in its numeral. -/

section
variable {base : Nat} {text rest : List Char}

theorem takeWhile_nul {p : Char → Bool} (hp : p '\x00' = false) :
    (text ++ '\x00' :: rest).takeWhile p = text.takeWhile p := by
  induction text with
  | nil => simp [hp]
  | cons c text ih =>
    rw [List.cons_append, List.takeWhile_cons, List.takeWhile_cons, ih]

theorem dropWhile_nul {p : Char → Bool} (hp : p '\x00' = false) :
    (text ++ '\x00' :: rest).dropWhile p = text.dropWhile p ++ '\x00' :: rest := by
  induction text with
  | nil => simp [hp]
  | cons c text ih =>
    rw [List.cons_append, List.dropWhile_cons, List.dropWhile_cons, ih]
    split <;> rfl

theorem sign_cons {c : Char} (hneg : c ≠ '-') (hpos : c ≠ '+') : sign (c :: text) = (false, c :: text) := by
  unfold sign
  split
  · rename_i heq
    exact absurd (List.cons.inj heq).1 hneg
  · rename_i heq
    exact absurd (List.cons.inj heq).1 hpos
  · rfl

theorem sign_nul : sign (text ++ '\x00' :: rest) = ((sign text).1, (sign text).2 ++ '\x00' :: rest) := by
  cases text with
  | nil => exact sign_cons (by decide) (by decide)
  | cons c text =>
    by_cases hneg : c = '-'
    · subst hneg
      rfl
    · by_cases hpos : c = '+'
      · subst hpos
        rfl
      · rw [sign_cons hneg hpos, List.cons_append, sign_cons hneg hpos]

theorem skipPrefix_cons {c : Char} (h : c ≠ '0') : skipPrefix base (c :: text) = c :: text := by
  unfold skipPrefix
  split
  · rename_i heq
    exact absurd (List.cons.inj heq).1 h
  · rfl

theorem skipPrefix_nul : skipPrefix base (text ++ '\x00' :: rest) = skipPrefix base text ++ '\x00' :: rest := by
  cases text with
  | nil => exact skipPrefix_cons (by decide)
  | cons c text =>
    by_cases hc : c = '0'
    · subst hc
      rcases text with _ | ⟨x, _ | ⟨d, text⟩⟩
      · cases rest with
        | nil => rfl
        | cons d rest => simp [skipPrefix]
      · simp [skipPrefix, isDigit_nul (show 16 ≤ 36 by decide)]
      · simp only [List.cons_append, skipPrefix]
        split <;> rfl
    · rw [skipPrefix_cons hc, List.cons_append, skipPrefix_cons hc]

theorem headD_nul : (text ++ '\x00' :: rest).headD '\x00' = text.headD '\x00' := by
  cases text <;> rfl

theorem scan_nul (hb : base ≤ 36) :
    (scan base (text ++ '\x00' :: rest)).neg = (scan base text).neg ∧
    (scan base (text ++ '\x00' :: rest)).digits = (scan base text).digits ∧
    (scan base (text ++ '\x00' :: rest)).atEnd = (scan base text).atEnd := by
  have hdigit : isDigit base '\x00' = false := isDigit_nul hb
  unfold scan
  simp only [dropWhile_nul (show isSpace '\x00' = false by decide), sign_nul, skipPrefix_nul, takeWhile_nul hdigit,
    dropWhile_nul hdigit]
  split
  · exact ⟨rfl, rfl, by rw [Scan.atEnd, headD_nul, Scan.atEnd]⟩
  · exact ⟨rfl, rfl, by rw [Scan.atEnd, headD_nul, Scan.atEnd]⟩

theorem scan_value_nul (hb : base ≤ 36) : (scan base (text ++ '\x00' :: rest)).value base = (scan base text).value base := by
  obtain ⟨hneg, hdigits, -⟩ := @scan_nul base text rest hb
  rw [Scan.value, hneg, hdigits, Scan.value]

theorem strtol_nul (hb : base ≤ 36) : strtol base (text ++ '\x00' :: rest) = strtol base text := by
  obtain ⟨-, -, hend⟩ := @scan_nul base text rest hb
  rw [strtol, scan_value_nul hb, hend, strtol]

theorem strtoul_nul (hb : base ≤ 36) : strtoul base (text ++ '\x00' :: rest) = strtoul base text := by
  obtain ⟨-, hdigits, hend⟩ := @scan_nul base text rest hb
  rw [strtoul, hdigits, scan_value_nul hb, hend, strtoul]

end

/-! ### Which texts are numerals -/

section
variable {base : Nat} {text : List Char} {n : Int}

theorem sign_eq (mem : List Char) :
    ∃ s, mem = s ++ (sign mem).2 ∧ (s = [] ∨ s = ['+'] ∨ s = ['-']) ∧ ((sign mem).1 = true ↔ s = ['-']) := by
  cases mem with
  | nil => exact ⟨[], by simp [sign]⟩
  | cons c mem =>
    by_cases hneg : c = '-'
    · subst hneg
      exact ⟨['-'], by simp [sign]⟩
    · by_cases hpos : c = '+'
      · subst hpos
        exact ⟨['+'], by simp [sign]⟩
      · exact ⟨[], by simp [sign_cons hneg hpos]⟩

theorem skipPrefix_eq (mem : List Char) :
    ∃ lead, mem = lead ++ skipPrefix base mem ∧
      (lead = [] ∨ base = 16 ∧ (lead = ['0', 'x'] ∨ lead = ['0', 'X'])) := by
  unfold skipPrefix
  split
  · rename_i x c mem
    split
    · rename_i h
      obtain ⟨hbase, hx, -⟩ := h
      refine ⟨['0', x], rfl, Or.inr ⟨hbase, ?_⟩⟩
      rcases hx with rfl | rfl
      · exact Or.inl rfl
      · exact Or.inr rfl
    · exact ⟨[], rfl, Or.inl rfl⟩
  · exact ⟨[], rfl, Or.inl rfl⟩

/-- Digits are not taken for a prefix. -/
theorem skipPrefix_digits {digits : List Char} (h : ∀ c ∈ digits, isDigit base c) : skipPrefix base digits = digits := by
  unfold skipPrefix
  split
  · rename_i x c mem
    split
    · rename_i hx
      obtain ⟨rfl, hx, -⟩ := hx
      have hdigit := h x (List.mem_cons_of_mem _ (List.mem_cons_self ..))
      rcases hx with rfl | rfl <;> exact absurd hdigit (by decide)
    · rfl
  · rfl

theorem skipPrefix_lead {lead digits : List Char} (hlead : lead = [] ∨ base = 16 ∧ (lead = ['0', 'x'] ∨ lead = ['0', 'X']))
    (hne : digits ≠ []) (h : ∀ c ∈ digits, isDigit base c) : skipPrefix base (lead ++ digits) = digits := by
  rcases hlead with rfl | ⟨rfl, hlead⟩
  · exact skipPrefix_digits h
  · obtain ⟨d, ds, rfl⟩ := List.exists_cons_of_ne_nil hne
    have hd : isDigit 16 d = true := h d (List.mem_cons_self ..)
    rcases hlead with rfl | rfl <;> simp [skipPrefix, hd]

/-- What follows the sign begins with a digit. -/
theorem lead_head {lead digits : List Char} (hlead : lead = [] ∨ base = 16 ∧ (lead = ['0', 'x'] ∨ lead = ['0', 'X']))
    (hne : digits ≠ []) (h : ∀ c ∈ digits, isDigit base c) : ∃ d ds, lead ++ digits = d :: ds ∧ isDigit base d := by
  rcases hlead with rfl | ⟨rfl, rfl | rfl⟩
  · obtain ⟨d, ds, rfl⟩ := List.exists_cons_of_ne_nil hne
    exact ⟨d, ds, rfl, h d (List.mem_cons_self ..)⟩
  · exact ⟨'0', _, rfl, by decide⟩
  · exact ⟨'0', _, rfl, by decide⟩

/-- A numeral is read to its end. -/
theorem Denotes.scan_eq (hb : base ≤ 36) (h : Denotes base text n) :
    ((scan base text).value base = n ∧ (scan base text).atEnd = true) ∧ (scan base text).digits ≠ [] := by
  cases h with
  | mk blanks s lead digits blank signed led nonempty digit =>
    obtain ⟨d, ds, hbody, hd⟩ := lead_head led nonempty digit
    have hne : ∀ c, isDigit base c = false → d ≠ c := fun c hc h => by simp [← h, hd] at hc
    have hdash : isDigit base '-' = false := by
      have : digitValue '-' = 36 := by decide
      simp [isDigit, this, hb]
    have hplus : isDigit base '+' = false := by
      have : digitValue '+' = 36 := by decide
      simp [isDigit, this, hb]
    have hsign : sign (s ++ (lead ++ digits)) = (decide (s = ['-']), lead ++ digits) := by
      rcases signed with rfl | rfl | rfl
      · rw [hbody]
        exact sign_cons (hne _ hdash) (hne _ hplus)
      · rfl
      · rfl
    have hspace : (blanks ++ (s ++ (lead ++ digits))).dropWhile isSpace = s ++ (lead ++ digits) := by
      rw [List.dropWhile_append_of_pos blank]
      rcases signed with rfl | rfl | rfl
      · rw [hbody, List.nil_append, List.dropWhile_cons_of_neg (by simp [isSpace_of_isDigit hb hd])]
      · rfl
      · rfl
    have hscan : scan base (blanks ++ (s ++ (lead ++ digits))) = ⟨decide (s = ['-']), digits, []⟩ := by
      simp only [scan, hspace, hsign, skipPrefix_lead led nonempty digit, List.takeWhile_eq_self_iff.mpr digit,
        List.dropWhile_eq_nil_iff.mpr digit, if_neg nonempty]
    rw [hscan]
    refine ⟨⟨?_, rfl⟩, nonempty⟩
    simp only [Scan.value, decide_eq_true_eq]

/-- A text that is read to its end is a numeral, or there is nothing to read in it. -/
theorem denotes_of_atEnd (hnul : '\x00' ∉ text) (h : (scan base text).atEnd = true) :
    text = [] ∨ Denotes base text ((scan base text).value base) := by
  have hempty : ∀ l : List Char, '\x00' ∉ l → l.headD '\x00' = '\x00' → l = [] := by
    intro l hl hhead
    cases l with
    | nil => rfl
    | cons c l => exact absurd (List.mem_cons.mpr (Or.inl hhead.symm)) hl
  obtain ⟨s, hs, signed, hneg⟩ := sign_eq (text.dropWhile isSpace)
  obtain ⟨lead, hlead, led⟩ := @skipPrefix_eq base (sign (text.dropWhile isSpace)).2
  have htext : text = text.takeWhile isSpace ++ (s ++ (lead ++ skipPrefix base (sign (text.dropWhile isSpace)).2)) := by
    rw [← hlead, ← hs, List.takeWhile_append_dropWhile]
  unfold scan at h ⊢
  dsimp only at h ⊢
  generalize skipPrefix base (sign (text.dropWhile isSpace)).2 = body at h htext ⊢
  split at h
  · exact Or.inl (hempty text hnul (of_decide_eq_true h))
  · rename_i hdigits
    rw [if_neg hdigits]
    right
    have hbody : body.dropWhile (isDigit base) = [] := by
      refine hempty _ (fun hmem => hnul ?_) (of_decide_eq_true h)
      rw [htext]
      simp [List.dropWhile_subset _ hmem]
    have hall : body.takeWhile (isDigit base) = body := by
      simpa [hbody] using List.takeWhile_append_dropWhile (p := isDigit base) (l := body)
    rw [hall] at hdigits ⊢
    have : Denotes base _ _ := .mk (text.takeWhile isSpace) s lead body (fun c => List.mem_takeWhile_imp) signed led hdigits
      (List.takeWhile_eq_self_iff.mp hall)
    rw [← htext] at this
    simpa only [Scan.value, hneg] using this

/-- `strtol` reads a numeral whose number is a `long` as that number. -/
theorem Denotes.strtol_eq (hb : base ≤ 36) (h : Denotes base text n) (hn : ¬Overflows n) :
    strtol base text = ⟨n, false, true⟩ := by
  obtain ⟨⟨hvalue, hend⟩, -⟩ := h.scan_eq hb
  rw [strtol, hvalue, hend, decide_eq_false hn]
  unfold Overflows at hn
  congr 1
  omega

theorem Denotes.strtol_range (hb : base ≤ 36) (h : Denotes base text n) (hn : Overflows n) : (strtol base text).range = true := by
  obtain ⟨⟨hvalue, -⟩, -⟩ := h.scan_eq hb
  rw [strtol, hvalue]
  exact decide_eq_true hn

/-- `strtoul` reads a numeral whose number is an `unsigned long` as that number. -/
theorem Denotes.strtoul_eq (hb : base ≤ 36) (h : Denotes base text n) (h0 : 0 ≤ n) (hn : n < 2 ^ 64) :
    strtoul base text = ⟨n, false, true⟩ := by
  obtain ⟨⟨hvalue, hend⟩, -⟩ := h.scan_eq hb
  have hsmall : ¬2 ^ 64 ≤ value base (scan base text).digits := by
    unfold Scan.value at hvalue
    split at hvalue <;> omega
  rw [strtoul, if_neg hsmall, hvalue, hend, Int.emod_eq_of_lt h0 hn]

theorem Denotes.unique (hb : base ≤ 36) {m : Int} (h : Denotes base text n) (h' : Denotes base text m) : n = m :=
  (h.scan_eq hb).1.1.symm.trans (h'.scan_eq hb).1.1

/-- What `strtol` reads to the end, without an overflow, is a numeral of the number that it returns. -/
theorem denotes_of_strtol (hnul : '\x00' ∉ text) (hrange : (strtol base text).range = false)
    (hend : (strtol base text).atEnd = true) :
    text = [] ∨ Denotes base text (strtol base text).value ∧ ¬Overflows (strtol base text).value := by
  have hn := of_decide_eq_false hrange
  have hvalue : (strtol base text).value = (scan base text).value base := by
    unfold Overflows at hn
    unfold strtol
    dsimp only
    omega
  rw [hvalue]
  exact (denotes_of_atEnd hnul hend).imp_right fun h => ⟨h, hn⟩

end

/-! ### Digits that were printed -/

section
variable {base d n : Nat} {c : Char}

theorem digitValue_digitChar (hd : d < 16) : digitValue (Nat.digitChar d) = d := by
  have h : ∀ d : Fin 16, digitValue (Nat.digitChar d) = d := by decide
  exact h ⟨d, hd⟩

theorem value_concat (ds : List Char) : value base (ds ++ [c]) = base * value base ds + digitValue c := by
  rw [value, List.foldl_append]
  rfl

/-- `Nat.toDigits` writes a number as `%x` and `%d` do. -/
theorem value_toDigits (hb : 1 < base) (hb' : base ≤ 16) (n : Nat) : value base (Nat.toDigits base n) = n := by
  induction n using Nat.strongRecOn with
  | ind n ih =>
    rw [Nat.toDigits_eq_if hb]
    split
    · rename_i hn
      show base * 0 + digitValue (Nat.digitChar n) = n
      rw [digitValue_digitChar (by omega)]
      omega
    · rename_i hn
      have hmod : n % base < 16 := Nat.lt_of_lt_of_le (Nat.mod_lt n (by omega)) hb'
      rw [value_concat, ih (n / base) (Nat.div_lt_self (by omega) hb), digitValue_digitChar hmod, Nat.div_add_mod]

theorem isDigit_of_mem_toDigits (hb : 1 < base) (hb' : base ≤ 16) (hc : c ∈ Nat.toDigits base n) : isDigit base c = true := by
  have hdigit : ∀ {d}, d < base → isDigit base (Nat.digitChar d) = true := fun {d} hd => by
    rw [isDigit, digitValue_digitChar (Nat.lt_of_lt_of_le hd hb')]
    exact decide_eq_true hd
  induction n using Nat.strongRecOn with
  | ind n ih =>
    rw [Nat.toDigits_eq_if hb] at hc
    split at hc
    · rename_i hn
      obtain rfl := List.mem_singleton.mp hc
      exact hdigit hn
    · rename_i hn
      rcases List.mem_append.mp hc with hc | hc
      · exact ih _ (Nat.div_lt_self (by omega) hb) hc
      · obtain rfl := List.mem_singleton.mp hc
        exact hdigit (Nat.mod_lt n (by omega))

theorem denotes_toDigits (hb : 1 < base) (hb' : base ≤ 16) (n : Nat) : Denotes base (Nat.toDigits base n) n := by
  have h : Denotes base _ _ := .mk [] [] [] (Nat.toDigits base n) (fun _ hc => by cases hc) (Or.inl rfl) (Or.inl rfl)
    Nat.toDigits_ne_nil fun c hc => isDigit_of_mem_toDigits hb hb' hc
  rw [value_toDigits hb hb'] at h
  exact h

end

/-! ### What `strtol` accepts -/

section
variable {base : Nat} {mem : List Char}

/-- The string at the start of `mem` -/
def string (mem : List Char) : List Char := mem.takeWhile fun c => c ≠ '\x00'

theorem strtol_string (hb : base ≤ 36) : strtol base (string mem) = strtol base mem := by
  have hmem : mem = string mem ++ mem.dropWhile (fun c => c ≠ '\x00') := List.takeWhile_append_dropWhile.symm
  cases hrest : mem.dropWhile (fun c => c ≠ '\x00') with
  | nil => rw [hrest, List.append_nil] at hmem; rw [← hmem]
  | cons c rest =>
    have hc : c = '\x00' := by
      have := List.head?_dropWhile_not (fun c => c ≠ '\x00') mem
      rw [hrest] at this
      simpa using this
    conv => rhs; rw [hmem, hrest, hc, strtol_nul hb]

/-- `strtol` comes to the end of the string without an overflow: there is nothing to read, or a numeral of a `long`. -/
theorem accepts_iff (hb : base ≤ 36) : (strtol base mem).range = false ∧ (strtol base mem).atEnd = true ↔
    string mem = [] ∨ ∃ n, Denotes base (string mem) n ∧ ¬Overflows n := by
  rw [← strtol_string hb]
  constructor
  · rintro ⟨hrange, hend⟩
    have hnul : '\x00' ∉ string mem := fun h => by simpa using List.mem_takeWhile_imp h
    exact (denotes_of_strtol hnul hrange hend).imp_right fun h => ⟨_, h⟩
  · rintro (hnil | ⟨n, hden, hn⟩)
    · rw [hnil]
      unfold strtol scan
      simp [sign, skipPrefix, Scan.value, Scan.atEnd, value, Overflows]
    · rw [hden.strtol_eq hb hn]
      exact ⟨rfl, rfl⟩

end

end Numeral
