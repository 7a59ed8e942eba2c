import Sylvan.Stores
import Sylvan.Ui.Startup
import Sylvan.Theorems.Aliases
import Sylvan.Theorems.Decimals

/-! The arguments of the inferior: `--args` sets those that it is given, and `set_args` joins the words that were typed, with its
    own name in front. The joined words fill the block that is allocated for them. -/

namespace Sylvan
open Exec Block

/-- The words, with single blanks between them -/
def joinWords (words : List CStr) : String := String.intercalate " " (words.map CStr.text)

section Join
variable {word : CStr} {words : List CStr} {acc q : List Char} {i : Nat} {stale : Nat → Char}

theorem toList_joinWords : (joinWords (word :: words)).toList = word.text.toList ++ words.flatMap fun w => ' ' :: w.text.toList := by
  unfold joinWords
  rw [String.toList_intercalate]
  induction words generalizing word with
  | nil => simp
  | cons w words ih =>
    rw [List.map_cons, List.map_cons, List.map_cons, List.map_cons, List.intercalate_cons_cons, ← List.map_cons, ← List.map_cons, ih]
    simp

/-- A word in front makes it longer. -/
theorem joinWords_cons_ne (hne : words ≠ []) : joinWords (word :: words) ≠ joinWords words := by
  obtain ⟨w, words, rfl⟩ := List.exists_cons_of_ne_nil hne
  intro heq
  have hlen := congrArg (fun s => s.toList.length) heq
  simp only [toList_joinWords, List.flatMap_cons, List.length_append, List.length_cons] at hlen
  omega

/-- The words that are left take up all the room there is behind `acc`. -/
theorem joinStores_succ (hacc : '\x00' ∉ acc) (hroom : q.length = (words.map fun w => w.text.length + 1).sum) :
    joinStores (acc ++ '\x00' :: q) (i + 1) words = some (acc ++ (words.flatMap fun w => ' ' :: w.text.toList) ++ ['\x00']) := by
  induction words generalizing acc q i with
  | nil =>
    obtain rfl := List.length_eq_zero_iff.mp hroom
    simp [joinStores]
  | cons w words ih =>
    rw [List.map_cons, List.sum_cons] at hroom
    have hnul : '\x00' ∉ acc ++ [' '] := by simp [hacc]
    have hblank := cat_eq (m := [' ']) hacc (show 1 ≤ q.length by omega)
    have hword := cat_eq (m := w.text.toList) (q := q.drop 1) hnul (by simp [String.length_toList]; omega)
    rw [joinStores, if_pos (Nat.succ_pos i), hblank]
    simp only [Option.bind_eq_bind, Option.bind_some, List.length_singleton]
    rw [hword, Option.bind_some, ih (by simp [hacc, w.nonul])]
    · simp
    · simp only [List.length_drop, String.length_toList]
      omega

/-- The stores of `handle_set_args` fill the block up, with the joined words. -/
theorem setArgsStores_eq : setArgsStores stale (word :: words) = some ((joinWords (word :: words)).toList ++ ['\x00']) := by
  generalize hrest : (words.map fun w => w.text.length + 1).sum = rest
  have hstart : store (alloc stale (word.text.length + 1 + rest)) 0 ['\x00'] =
      some ('\x00' :: (alloc stale (word.text.length + 1 + rest)).drop 1) := by
    rw [store_start (by simp; omega)]
    rfl
  have hword := cat_eq (l := []) (m := word.text.toList) (q := (alloc stale (word.text.length + 1 + rest)).drop 1)
    (List.not_mem_nil (a := '\x00')) (by simp [String.length_toList])
  unfold setArgsStores
  simp only [List.map_cons, List.sum_cons, hrest, hstart, Option.bind_eq_bind, Option.bind_some]
  rw [joinStores, if_neg (Nat.lt_irrefl 0)]
  simp only [List.nil_append, Option.bind_eq_bind, Option.bind_some] at hword ⊢
  rw [hword, Option.bind_some, joinStores_succ word.nonul]
  · rw [toList_joinWords]
  · simp [String.length_toList, hrest]

theorem nonul_joinWords : '\x00' ∉ (joinWords words).toList := by
  rcases words with _ | ⟨word, words⟩
  · exact List.not_mem_nil
  · simp [toList_joinWords, word.nonul, CStr.nonul]

end Join

/-! ### Both ways -/

section Ways
variable {env : UiEnv} {s : Session} {command : Argv} {text : CStr} {operands : List CStr} {a : CmdArgs}

/-- The command `set_args` asks for memory twice: for the block, and for its copy. -/
theorem setArgs_typed (hn : dispatch s.aliases command = some .setArgs) : ∃ t, handleCommand env command s = .ok 0 t ∧
    t.state.inf.args = if env.malloc s.state.scratch.clock = true ∧ env.malloc (s.state.scratch.clock + 1) = true then
      some (joinWords command.tokens) else s.state.inf.args := by
  suffices hwp : wp (fun _ _ => False) (Handler.setArgs.call env command) (fun r t => r = 0 ∧ t.state.inf.args =
      if env.malloc s.state.scratch.clock = true ∧ env.malloc (s.state.scratch.clock + 1) = true then
        some (joinWords command.tokens) else s.state.inf.args) (fun _ _ => False) s by
    obtain ⟨r, t, hrun, rfl, hargs⟩ := hwp.exists_ok
    exact ⟨t, (handleCommand_dispatch hn).trans hrun, hargs⟩
  unfold Handler.call Handler.body handleSetArgs Sylvan.setArgs
  rw [wp_catching, wp_bind, wp_bind, wp_sys, wp_malloc_iff, wp_ite]
  by_cases hblock : env.malloc s.state.scratch.clock = true
  · rw [if_pos hblock, wp_bind, wp_orLastError, wp_bind, wp_malloc_iff, wp_bind, wp_when]
    by_cases hcopy : env.malloc (s.state.scratch.clock + 1) = true
    · rw [if_neg (by simp [hcopy]), if_pos ⟨hblock, hcopy⟩]
      exact ⟨rfl, rfl⟩
    · rw [if_pos (by simp [hcopy]), if_neg fun h => hcopy h.2]
      exact ⟨rfl, rfl⟩
  · rw [if_neg hblock, if_neg fun h => hblock h.1]
    exact ⟨rfl, rfl⟩

theorem wp_inferiorCreate {F : Fault → State → Prop} {E : Code → State → Prop} {s : State} (hmalloc : ∀ t, env.malloc t = true) :
    wp F (inferiorCreate env.toEnv) (fun _ _ => True) E s := by
  unfold inferiorCreate symInit symTableInit
  simp only [wp_bind, wp_malloc_iff, hmalloc, wp_when, wp_ite, wp_modify, if_true, reduceCtorEq, if_false]

theorem wp_setArgs {F : Fault → State → Prop} {E : Code → State → Prop} {s : State} (hmalloc : ∀ t, env.malloc t = true)
    {args : String} :
    wp F (Sylvan.setArgs env.toEnv (some args)) (fun _ t => t.inf.args = some args) E s := by
  unfold Sylvan.setArgs
  simp only [wp_bind, wp_malloc_iff, hmalloc, wp_when, wp_modify, reduceCtorEq, if_false, State.setInf]

theorem wp_orPrinted_any {x : SylvanM Unit} {P : Fault → Session → Prop} {Q : Unit → Session → Prop} {E : Int → Session → Prop}
    (hP : ∀ f u, P f u) (hQ : ∀ u, Q () u) : wp P (orPrinted x) Q E s := by
  unfold orPrinted
  rw [wp_bind, wp_lib]
  exact wp_of (fun _ _ _ => hQ _) (fun _ _ _ => wp_errorLast.mpr (hQ _)) fun _ _ _ => hP _ _

theorem wp_startInferior (hmalloc : ∀ t, env.malloc t = true) (ha : a.fileArgs = some text) (hattached : a.isAttached = false) :
    wp (fun _ _ => a.filepath.isSome) (startInferior env a) (fun _ t => t.state.inf.args = some text.text) (fun _ _ => False) s := by
  have hset : ∀ t : Session, wp (fun _ _ => a.filepath.isSome) (do
      Exec.when a.fileArgs.isSome (orPrinted (Sylvan.setArgs env.toEnv (a.fileArgs.map CStr.text)))
      Exec.when a.isAttached (orPrinted (Sylvan.attach env.toEnv a.pid)))
      (fun _ t => t.state.inf.args = some text.text) (fun _ _ => False) t := by
    intro t
    rw [ha, wp_bind, wp_when, if_pos (by rfl)]
    unfold orPrinted
    rw [wp_bind, wp_lib]
    refine (wp_setArgs hmalloc).imp (fun _ u hu => ?_) fun _ _ => False.elim
    rw [hattached]
    exact hu
  unfold startInferior
  rw [wp_bind, wp_lib]
  refine (wp_inferiorCreate hmalloc).imp (fun _ u _ => ?_) fun _ _ => False.elim
  dsimp only
  rw [wp_bind, wp_modify, wp_bind, wp_when]
  split
  · rename_i hpath
    exact wp_orPrinted_any (fun _ _ => hpath) hset
  · exact hset _

/-- Where there is memory, `--args` sets what it is given, whatever file the debugger is started on. -/
theorem wp_started (hmalloc : ∀ t, env.malloc t = true) : wp (fun _ _ => operands ≠ []) (debuggerStart env [.args text] operands)
    (fun _ t => t.state.inf.args = some text.text) (fun _ _ => False) s := by
  have hparse : parseArgs [.args text] operands = parseOperands { CmdArgs.zero with fileArgs := some text } operands := rfl
  unfold debuggerStart
  rw [wp_bind, hparse]
  refine (wp_parseOperands _).imp (fun b t hb => ?_) fun _ _ => id
  obtain ⟨⟨filepath, rfl, hpath⟩, -⟩ := hb
  refine (wp_startInferior hmalloc rfl rfl).mono (fun _ _ => id) (fun _ _ => id) fun _ _ hsome hnil => ?_
  rw [hpath hnil] at hsome
  cases hsome

end Ways

/-- The command `command` leaves the arguments that `--args` does with the joined words, and what it joins fits its block. -/
structure SetArgsAgrees (env : UiEnv) (s : Session) (command : Argv) (words : List CStr) : Prop where
  typed : ∃ r t, handleCommand env command s = .ok r t ∧ t.state.inf.args = some (joinWords words)
  started : ∀ (env₀ : UiEnv) s₀ operands (text : CStr), text.text = joinWords words → (∀ t, env₀.malloc t = true) →
    wp (fun _ _ => operands ≠ []) (debuggerStart env₀ [.args text] operands) (fun _ t => t.state.inf.args = some (joinWords words))
      (fun _ _ => False) s₀
  fits : ∀ stale, ∃ block, setArgsStores stale command.tokens = some block ∧
    string '\x00' block 0 = some (joinWords command.tokens).toList

section Agree
variable {env : UiEnv} {s : Session} {n : CStr} {words : List CStr} {slots : List (Option CStr)}

theorem started_right {env₀ : UiEnv} {s₀ : Session} {operands : List CStr} {text : CStr} (h : text.text = joinWords words)
    (hmalloc : ∀ t, env₀.malloc t = true) : wp (fun _ _ => operands ≠ []) (debuggerStart env₀ [.args text] operands)
      (fun _ t => t.state.inf.args = some (joinWords words)) (fun _ _ => False) s₀ := by
  rw [← h]
  exact wp_started hmalloc

theorem joined_fits (stale : Nat → Char) : ∃ block, setArgsStores stale (n :: words) = some block ∧
    string '\x00' block 0 = some (joinWords (n :: words)).toList :=
  ⟨_, setArgsStores_eq, string_start nonul_joinWords⟩

/-- What was typed is left with the name of the command in front, or not at all. -/
theorem typed_right_iff (hn : dispatch s.aliases ⟨n :: words, slots⟩ = some .setArgs) (hne : words ≠ []) :
    (∃ r t, handleCommand env ⟨n :: words, slots⟩ s = .ok r t ∧ t.state.inf.args = some (joinWords words)) ↔
      (env.malloc s.state.scratch.clock = false ∨ env.malloc (s.state.scratch.clock + 1) = false) ∧
        s.state.inf.args = some (joinWords words) := by
  obtain ⟨t, hrun, hargs⟩ := @setArgs_typed env s _ hn
  have hleft : (∃ r u, handleCommand env ⟨n :: words, slots⟩ s = .ok r u ∧ u.state.inf.args = some (joinWords words)) ↔
      t.state.inf.args = some (joinWords words) := by
    rw [hrun]
    constructor
    · rintro ⟨r, u, heq, hu⟩
      cases heq
      exact hu
    · exact fun ht => ⟨0, t, rfl, ht⟩
  rw [hleft, hargs]
  by_cases hmalloc : env.malloc s.state.scratch.clock = true ∧ env.malloc (s.state.scratch.clock + 1) = true
  · rw [if_pos hmalloc, hmalloc.1, hmalloc.2, Option.some.injEq]
    simp [joinWords_cons_ne hne]
  · rw [if_neg hmalloc]
    rw [not_and_or, Bool.not_eq_true, Bool.not_eq_true] at hmalloc
    simp [hmalloc]

end Agree

/-- Whatever words are typed, `set_args` agrees with `--args` just if there was no memory for it, and the arguments were already
    these words. -/
theorem set_args_agrees_iff (env : UiEnv) (s : Session) (n : CStr) (words : List CStr) (slots : List (Option CStr))
    (hn : dispatch s.aliases ⟨n :: words, slots⟩ = some .setArgs) (hne : words ≠ []) :
    SetArgsAgrees env s ⟨n :: words, slots⟩ words ↔
      (env.malloc s.state.scratch.clock = false ∨ env.malloc (s.state.scratch.clock + 1) = false) ∧
        s.state.inf.args = some (joinWords words) := by
  rw [← typed_right_iff hn hne]
  exact ⟨SetArgsAgrees.typed, fun h => ⟨h, fun _ _ _ _ => started_right, joined_fits⟩⟩

/-- The inferior has the argument `x`. -/
def Session.withArgs : Session := Session.on (State.blank.setInf { State.blank.inf with args := some "x" })

theorem set_args_agrees_iff_x :
    SetArgsAgrees (UiEnv.on { Env.compliant with malloc := fun _ => false }) Session.withArgs
      ⟨[⟨"s_args", by decide, []⟩, ⟨"x", by decide, []⟩], []⟩ [⟨"x", by decide, []⟩] :=
  (set_args_agrees_iff (UiEnv.on { Env.compliant with malloc := fun _ => false }) Session.withArgs ⟨"s_args", by decide, []⟩
    [⟨"x", by decide, []⟩] [] (by decide +kernel) (by decide)).mpr ⟨Or.inl rfl, by decide +kernel⟩

/-- `set_args x` sets `set_args x`. -/
theorem set_args_x : ¬SetArgsAgrees (UiEnv.on .compliant) Session.fresh ⟨[⟨"set_args", by decide, []⟩, ⟨"x", by decide, []⟩], []⟩
    [⟨"x", by decide, []⟩] := by
  intro h
  have hfails := (typed_right_iff (by decide +kernel) (by decide)).mp h.typed
  exact absurd hfails.1 (by decide)

end Sylvan
