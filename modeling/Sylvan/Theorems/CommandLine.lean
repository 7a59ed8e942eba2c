import Sylvan.Child
import Sylvan.Lib.ShellWords
import Sylvan.Stores

/-! The command line that `handle_child` puts together in the block `args`: it is well formed if and only if there are
    arguments, and they are not empty. All of it is expanded, with the path in front: the program is called as it should be if
    and only if its path expands to itself. -/

namespace Sylvan
open Block ShellWords

/-! ### The block -/

/-- What the block should hold -/
def childLine (path : CStr) : Option CStr → List Char
  | none => path.text.toList
  | some args => path.text.toList ++ ' ' :: args.text.toList

/-- Each store is inside the block, and the string in the block is the command line. -/
def WellFormed (stale : Nat → Char) (path : CStr) (args : Option CStr) : Prop :=
  ∃ block, commandLineStores stale path args = some block ∧ string '\x00' block 0 = some (childLine path args)

section
variable {stale : Nat → Char} {path args : CStr}

/-- Without arguments nothing ends the path. -/
theorem commandLineStores_none : commandLineStores stale path none = some (path.text.toList ++ [stale path.text.length]) := by
  have hblock : alloc stale (path.text.length + 1) = alloc stale path.text.length ++ [stale path.text.length] := by
    simp [alloc, List.range_succ]
  unfold commandLineStores
  simp only [Option.map_none, Option.getD_none, ne_eq, not_true_eq_false, if_false, Nat.add_zero, Option.bind_eq_bind]
  rw [store_start (by simp [String.length_toList]), Option.bind_some, hblock]
  simp [String.length_toList]

/-- There is no room for the end of empty arguments. -/
theorem commandLineStores_empty (h : args.text = "") : commandLineStores stale path (some args) = none := by
  unfold commandLineStores
  simp only [Option.map_some, Option.getD_some, h, Option.bind_eq_bind]
  rw [store_start (by simp [String.length_toList]), Option.bind_some]
  have hlen : path.text.length = path.text.toList.length := String.length_toList.symm
  rw [hlen, store_fill (by simp [String.length_toList]), Option.bind_some, store_eq_none]
  simp

/-- Arguments that are not empty fill the block up. -/
theorem commandLineStores_some (h : args.text ≠ "") :
    commandLineStores stale path (some args) = some (childLine path (some args) ++ ['\x00']) := by
  have hlen : path.text.length = path.text.toList.length := String.length_toList.symm
  have hpos : args.text.length ≠ 0 := fun hzero => h (String.length_eq_zero_iff.mp hzero)
  unfold commandLineStores
  simp only [Option.map_some, Option.getD_some, ne_eq, hpos, not_false_eq_true, if_true, Option.bind_eq_bind]
  rw [store_start (by simp [String.length_toList]; omega), Option.bind_some, hlen, store_behind (by simp [String.length_toList]; omega),
    Option.bind_some, show path.text.toList.length + 1 = (path.text.toList ++ [' ']).length by simp, store_fill]
  · simp [childLine]
  · simp [String.length_toList]

/-- Where the block did not happen to hold it, no string ends in the block. -/
theorem string_none (h : stale path.text.length ≠ '\x00') :
    string '\x00' (path.text.toList ++ [stale path.text.length]) 0 = none := by
  refine string_eq_none.mpr fun hmem => ?_
  rw [List.drop_zero, List.mem_append, List.mem_singleton] at hmem
  exact hmem.elim path.nonul fun hnul => h hnul.symm

theorem nonul_childLine : '\x00' ∉ childLine path (some args) := by
  simp [childLine, path.nonul, args.nonul]

theorem not_wellFormed_none (h : stale path.text.length ≠ '\x00') : ¬WellFormed stale path none := by
  rintro ⟨block, hblock, hstring⟩
  rw [commandLineStores_none, Option.some.injEq] at hblock
  rw [← hblock, string_none h] at hstring
  cases hstring

theorem not_wellFormed_empty (h : args.text = "") : ¬WellFormed stale path (some args) := by
  rintro ⟨block, hblock, -⟩
  rw [commandLineStores_empty h] at hblock
  cases hblock

end

/-- For every path and any arguments, each store is inside the block and leaves the command line there, if and only if there are
    arguments and they are not empty, or there are none and the block happened to hold the end of a string. -/
theorem command_line_well_formed_iff (stale : Nat → Char) (path : CStr) (args : Option CStr) :
    WellFormed stale path args ↔ (∃ a, args = some a ∧ a.text ≠ "") ∨ (args = none ∧ stale path.text.length = '\x00') := by
  rcases args with _ | args
  · simp only [reduceCtorEq, false_and, exists_false, false_or, true_and]
    constructor
    · intro hformed
      by_contra hstale
      exact not_wellFormed_none hstale hformed
    · intro hstale
      refine ⟨_, commandLineStores_none, ?_⟩
      rw [hstale]
      exact string_start path.nonul
  · simp only [Option.some.injEq, exists_eq_left', reduceCtorEq, false_and, or_false]
    constructor
    · intro hformed hempty
      exact not_wellFormed_empty hempty hformed
    · intro hne
      exact ⟨_, commandLineStores_some hne, string_start nonul_childLine⟩

/-- Empty arguments, and none in a block that held something else -/
theorem command_line_malformed : ¬WellFormed (fun _ => 'x') ⟨"/bin/ls", by decide, []⟩ (some ⟨"", by decide, []⟩) ∧
    ¬WellFormed (fun _ => 'x') ⟨"/bin/ls", by decide, []⟩ none := by
  exact ⟨not_wellFormed_empty rfl, not_wellFormed_none (by decide)⟩

/-! ### The arguments of the program -/

section Argv
variable {Env : Type}

/-- What `wordexp` returns are the fields of what it is given. -/
def ChildAnswers.Expands (a : ChildAnswers) (sh : Shell Env) (env : Env) : Prop :=
  ∀ line argv, a.wordexp line = .ok argv → ∃ env', sh.expand env line = some (argv, env')

/-- The child gets as far as `execvp(path, argv)`. -/
def ReachesExec (a : ChildAnswers) (path : String) (args : Option String) (argv : List String) : Prop :=
  handleChild { a with execvp := fun _ _ => none } path args = .exec path argv

/-- The path, and the fields of the arguments -/
def ArgvRight (sh : Shell Env) (env : Env) (path args : String) (argv : List String) : Prop :=
  ∃ fields env', sh.expand env args = some (fields, env') ∧ argv = path :: fields

variable {sh : Shell Env} {env env' : Env} {a : ChildAnswers} {path args : String} {argv fields : List String}

theorem startProgram_exec (h : startProgram a path argv = .exec path fields) : argv = fields := by
  unfold startProgram at h
  split at h
  · cases h
  · cases h
    rfl

theorem exitChild_ne_exec {code : Code} {errno : Errno} : exitChild a code errno ≠ .exec path argv := by
  unfold exitChild
  split <;> exact fun h => (nomatch h)

/-- What is executed is what `wordexp` made of the path and the arguments. -/
theorem ReachesExec.wordexp (h : ReachesExec a path (some args) argv) : a.wordexp (path ++ " " ++ args) = .ok argv := by
  unfold ReachesExec handleChild at h
  simp only at h
  split at h
  · cases h
  split at h
  · exact absurd h exitChild_ne_exec
  split at h
  · exact absurd h exitChild_ne_exec
  split at h
  · exact absurd h exitChild_ne_exec
  · rename_i hwordexp
    rw [hwordexp, startProgram_exec h]

/-- The fields of the path, and behind them those of the arguments -/
theorem ReachesExec.argv_eq (hexp : a.Expands sh env) (h : ReachesExec a path (some args) argv)
    (hpath : sh.expand env path = some (fields, env')) :
    ∃ rest env'', sh.expand env' args = some (rest, env'') ∧ argv = fields ++ rest := by
  obtain ⟨env'', hline⟩ := hexp _ _ h.wordexp
  rw [Shell.expand_append hpath, Option.map_eq_some_iff] at hline
  obtain ⟨⟨rest, env''⟩, hargs, heq⟩ := hline
  cases heq
  exact ⟨rest, env'', hargs, rfl⟩

/-- A path of ordinary characters does no harm. -/
theorem argv_right_of_ordinary (hexp : a.Expands sh env) (h : ReachesExec a path (some args) argv) (hne : path ≠ "")
    (hpath : ∀ c ∈ path.toList, c ∉ special) : ArgvRight sh env path args argv := by
  obtain ⟨rest, env', hargs, rfl⟩ := h.argv_eq hexp (Shell.expand_ordinary hne hpath)
  exact ⟨rest, env', hargs, rfl⟩

end Argv

/-- A shell that knows no variables and no files -/
def bareShell : Shell Unit where
  fields _ w := some ([String.ofList w], ())
  ordinary _ _ _ := rfl

/-- The answers of calls that succeed, where `wordexp` is that of the shell -/
def bareAnswers : ChildAnswers where
  closeRead := none
  closeWrite := none
  write := none
  traceme := none
  malloc := true
  behind := ""
  wordexp line := match bareShell.expand () line with
    | some (argv, _) => .ok argv
    | none => .error (5, 0)
  execvp _ _ := none

theorem bareAnswers_expands : bareAnswers.Expands bareShell () := by
  intro line argv h
  simp only [bareAnswers] at h
  split at h
  · rename_i hexpand
    cases h
    exact ⟨(), hexpand⟩
  · cases h

/-- A path that is a complete line and sets no variables gets the program called with the path and the fields of the arguments,
    if and only if the path expands to itself. -/
theorem argv_right_iff {Env : Type} (sh : Shell Env) (env : Env) (a : ChildAnswers) (hexp : a.Expands sh env) (path args : String)
    (argv : List String) (hreach : ReachesExec a path (some args) argv) (fields : List String)
    (hpath : sh.expand env path = some (fields, env)) : ArgvRight sh env path args argv ↔ fields = [path] := by
  obtain ⟨rest, env', hargs, rfl⟩ := hreach.argv_eq hexp hpath
  simp only [ArgvRight, hargs, Option.some.injEq, Prod.mk.injEq]
  constructor
  · rintro ⟨_, _, ⟨rfl, rfl⟩, hargv⟩
    exact List.append_cancel_right hargv
  · rintro rfl
    exact ⟨rest, env', ⟨rfl, rfl⟩, rfl⟩

theorem argv_right_iff_ls : ArgvRight bareShell () "/bin/ls" "-l /tmp" ["/bin/ls", "-l", "/tmp"] :=
  (argv_right_iff bareShell () bareAnswers bareAnswers_expands "/bin/ls" "-l /tmp" _ rfl ["/bin/ls"] (by decide)).mpr rfl

/-- A blank in the path -/
theorem argv_wrong : ReachesExec bareAnswers "/tmp/my prog" (some "x") ["/tmp/my", "prog", "x"] ∧
    ¬ArgvRight bareShell () "/tmp/my prog" "x" ["/tmp/my", "prog", "x"] := by
  refine ⟨rfl, ?_⟩
  rintro ⟨fields, env', -, hargv⟩
  exact absurd (List.cons.inj hargv).1 (by decide)

end Sylvan
