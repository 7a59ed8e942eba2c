import Mathlib.Data.List.Basic

/-! # The words of a command line

A command line is cut into words at the blanks that nothing quotes (`words`). What a word expands to depends on the variables,
the home directories and the files that there are, and may set variables: that is the parameter of `Shell`. A line that starts
as a complete one does expands to the fields of the two parts (`Shell.expand_append`). -/

namespace ShellWords

/-! ## Quoting -/

/-- What characters stand in: `'…'`, `"…"`, `${…}`, `$((…))`, and `(…)` inside of the last -/
inductive Context where
  | single
  | double
  | brace
  | arith
  | group
  deriving DecidableEq, Repr

/-- What the last character says about the next: it was `\`, `$`, `$(` or the first `)` that ends `$((…))`. -/
inductive Pending where
  | none
  | escape
  | dollar
  | dollarParen
  | arithClose
  deriving DecidableEq, Repr

/-- Where in a line a character is; the innermost context comes first. -/
structure Mode where
  contexts : List Context
  pending : Pending
  deriving DecidableEq, Repr

namespace Mode

def start : Mode := ⟨[], .none⟩

/-- Nothing is open. A `$` with nothing behind it is a character. -/
def Closed (m : Mode) : Prop := m.contexts = [] ∧ (m.pending = .none ∨ m.pending = .dollar)

instance (m : Mode) : Decidable m.Closed := inferInstanceAs (Decidable (_ ∧ _))

/-- The characters that must be quoted -/
def reserved : List Char := ['\n', '|', '&', ';', '<', '>', '(', ')', '{', '}']

/-- A character that the last one says nothing about. Command substitution is refused. -/
def plain (contexts : List Context) (c : Char) : Option Mode :=
  match contexts with
  | .single :: outer => some ⟨if c = '\'' then outer else contexts, .none⟩
  | contexts =>
    if c = '\\' then some ⟨contexts, .escape⟩
    else if c = '$' then some ⟨contexts, .dollar⟩
    else if c = '`' then none
    else
      match contexts with
      | [] =>
        if c = '\'' then some ⟨[.single], .none⟩
        else if c = '"' then some ⟨[.double], .none⟩
        else if c ∈ reserved then none
        else some ⟨[], .none⟩
      | .brace :: outer =>
        if c = '}' then some ⟨outer, .none⟩
        else if c = '"' then some ⟨.double :: contexts, .none⟩
        else if c = '\'' ∧ .double ∉ outer then some ⟨.single :: contexts, .none⟩
        else some ⟨contexts, .none⟩
      | .arith :: _ =>
        if c = '(' then some ⟨.group :: contexts, .none⟩ else some ⟨contexts, if c = ')' then .arithClose else .none⟩
      | .group :: outer => if c = '(' then some ⟨.group :: contexts, .none⟩ else some ⟨if c = ')' then outer else contexts, .none⟩
      | _ :: outer => some ⟨if c = '"' then outer else contexts, .none⟩

def step (m : Mode) (c : Char) : Option Mode :=
  match m.pending with
  | .escape => some ⟨m.contexts, .none⟩
  | .dollar =>
    if c = '{' then some ⟨.brace :: m.contexts, .none⟩
    else if c = '(' then some ⟨m.contexts, .dollarParen⟩
    else if c = '$' then some ⟨m.contexts, .none⟩
    else plain m.contexts c
  | .dollarParen => if c = '(' then some ⟨.arith :: m.contexts, .none⟩ else none
  | .arithClose => if c = ')' then some ⟨m.contexts.tail, .none⟩ else none
  | .none => plain m.contexts c

end Mode

/-! ## Words -/

def blanks : List Char := [' ', '\t']

/-- The words of a line, from where `word` was read of the next one; `none` where something stays open, or is refused -/
def words (m : Mode) (word : Option (List Char)) : List Char → Option (List (List Char))
  | [] => if m.Closed then some word.toList else none
  | c :: l =>
    if m.Closed ∧ c ∈ blanks then (words .start none l).map (word.toList ++ ·)
    else (m.step c).bind fun m => words m (some (word.getD [] ++ [c])) l

/-- The words of a complete line stay what they are in front of another one. -/
theorem words_append {v : List Char} : ∀ {u : List Char} {m : Mode} {word : Option (List Char)} {ws : List (List Char)},
    words m word u = some ws → words m word (u ++ ' ' :: v) = (words .start none v).map (ws ++ ·)
  | [], m, word, ws, h => by
    simp only [words, Option.ite_none_right_eq_some, Option.some.injEq] at h
    obtain ⟨hclosed, rfl⟩ := h
    rw [List.nil_append, words, if_pos ⟨hclosed, by simp [blanks]⟩]
  | c :: u, m, word, ws, h => by
    rw [List.cons_append]
    by_cases hblank : m.Closed ∧ c ∈ blanks
    · rw [words, if_pos hblank, Option.map_eq_some_iff] at h
      obtain ⟨ws, hu, rfl⟩ := h
      rw [words, if_pos hblank, words_append hu, Option.map_map]
      congr 1
      funext vs
      exact (List.append_assoc _ _ _).symm
    · rw [words, if_neg hblank, Option.bind_eq_some_iff] at h
      obtain ⟨m', hm, hu⟩ := h
      rw [words, if_neg hblank, hm, Option.bind_some, words_append hu]

/-- The characters that an expansion may do something with -/
def special : List Char := Mode.reserved ++ blanks ++ ['\'', '"', '\\', '$', '`', '*', '?', '[', '~', '#']

theorem step_ordinary {c : Char} (h : c ∉ special) : Mode.start.step c = some .start := by
  simp only [special, Mode.reserved, blanks, List.cons_append, List.nil_append, List.mem_cons, not_or] at h
  simp [Mode.step, Mode.start, Mode.plain, Mode.reserved, h]

/-- Ordinary characters are one word. -/
theorem words_ordinary {l : List Char} {word : Option (List Char)} (h : ∀ c ∈ l, c ∉ special) (hword : word = none → l ≠ []) :
    words .start word l = some [word.getD [] ++ l] := by
  induction l generalizing word with
  | nil =>
    obtain ⟨w, rfl⟩ := Option.ne_none_iff_exists'.mp fun hnone => hword hnone rfl
    simp [words, Mode.Closed, Mode.start]
  | cons c l ih =>
    have hc := h c (by simp)
    rw [words, if_neg fun hblank => hc (by simp [special, hblank.2]), step_ordinary hc, Option.bind_some,
      @ih (some _) (fun d hd => h d (by simp [hd])) fun hnone => absurd hnone (Option.some_ne_none _)]
    simp

example : words .start none "/bin/ls  'a b' \"$((2 * (3)))\" c\\ d".toList =
    some ["/bin/ls".toList, "'a b'".toList, "\"$((2 * (3)))\"".toList, "c\\ d".toList] := by decide

/-! ## Expansion -/

/-- How words are expanded, over what variables and files hold -/
structure Shell (Env : Type) where
  /-- The fields that a word expands to, and what holds afterwards; `none` where the word cannot be expanded -/
  fields : Env → List Char → Option (List String × Env)
  /-- A word of ordinary characters is its own field. -/
  ordinary : ∀ env w, (∀ c ∈ w, c ∉ special) → fields env w = some ([String.ofList w], env)

namespace Shell
variable {Env : Type} (sh : Shell Env)

def expandWords (env : Env) : List (List Char) → Option (List String × Env)
  | [] => some ([], env)
  | w :: ws => do
    let (fields, env) ← sh.fields env w
    let (rest, env) ← expandWords env ws
    some (fields ++ rest, env)

/-- The fields of a line -/
def expand (env : Env) (line : String) : Option (List String × Env) :=
  (words .start none line.toList).bind (sh.expandWords env)

variable {sh} {env env' : Env} {us vs : List (List Char)} {u v : String} {fields : List String}

theorem expandWords_append (h : sh.expandWords env us = some (fields, env')) :
    sh.expandWords env (us ++ vs) = (sh.expandWords env' vs).map fun r => (fields ++ r.1, r.2) := by
  induction us generalizing env fields with
  | nil =>
    cases h
    simp
  | cons w us ih =>
    simp only [expandWords, Option.bind_eq_bind, Option.bind_eq_some_iff, Option.some.injEq, Prod.mk.injEq, Prod.exists] at h
    obtain ⟨first, env₁, hw, rest, env₂, hus, rfl, rfl⟩ := h
    rw [List.cons_append, expandWords]
    simp only [Option.bind_eq_bind, hw, Option.bind_some, ih hus]
    cases sh.expandWords env₂ vs <;> simp

/-- A complete line is expanded in front of another one as it is alone. -/
theorem expand_append (h : sh.expand env u = some (fields, env')) :
    sh.expand env (u ++ " " ++ v) = (sh.expand env' v).map fun r => (fields ++ r.1, r.2) := by
  obtain ⟨us, hus, hfields⟩ := Option.bind_eq_some_iff.mp h
  have hline : (u ++ " " ++ v).toList = u.toList ++ ' ' :: v.toList := by simp
  unfold expand
  rw [hline, words_append hus]
  cases words .start none v.toList with
  | none => rfl
  | some vs => exact expandWords_append hfields

theorem expand_ordinary (hne : u ≠ "") (h : ∀ c ∈ u.toList, c ∉ special) : sh.expand env u = some ([u], env) := by
  unfold expand
  rw [words_ordinary h fun _ hnil => hne (String.toList_eq_nil_iff.mp hnil), Option.bind_some, expandWords, Option.getD_none,
    List.nil_append, sh.ordinary env _ h]
  simp [expandWords]

end Shell

end ShellWords
