import Sylvan.Theorems.ConsoleTurns
import Sylvan.Theorems.PathSearch
import Sylvan.Theorems.Tokens

/-! The command line of `get_command`, where there is memory: the runs between the blanks of the line, each in a slot of the array
    that there is when it is stored, and a `NULL` in the slot behind them. -/

namespace Sylvan
open Exec Block

/-! ### Slots -/

section Array
variable {stale : Nat → Option (List Char)} {line : List Char} {k n : Nat} {args : List (Option (List Char))}
  {taken ts : List (List Char)}

/-- The first slots of `args` hold the tokens `taken`, and two more are free: for a token, and for the `NULL`. -/
structure Slots (args : List (Option (List Char))) (taken : List (List Char)) : Prop where
  first : ∃ free, args = taken.map some ++ free
  two : taken.length + 1 < args.length

/-- A token is stored, and the array grows when only the slot for the `NULL` is left. -/
theorem Slots.store (h : Slots args taken) (token : List Char) (stale : Nat → Option (List Char)) :
    ∃ args', Block.store args taken.length [some token] = some args' ∧
    Slots (if args'.length - 1 ≤ taken.length + 1 then args' ++ (Block.alloc stale (args'.length * 2)).drop args'.length else args')
      (taken ++ [token]) := by
  obtain ⟨⟨free, rfl⟩, htwo⟩ := h
  rw [List.length_append, List.length_map] at htwo
  have hstore := store_behind (p := taken.map some) (q := free) (l := [some token]) (by rw [List.length_singleton]; omega)
  rw [List.length_map, List.length_singleton] at hstore
  refine ⟨_, hstore, ?_⟩
  have hstored : taken.map some ++ [some token] ++ free.drop 1 = (taken ++ [token]).map some ++ free.drop 1 := by simp
  rw [hstored]
  split
  · refine ⟨⟨_, List.append_assoc _ _ _⟩, ?_⟩
    simp
    omega
  · rename_i hroom
    refine ⟨⟨_, rfl⟩, ?_⟩
    simp only [List.length_append, List.length_map, List.length_singleton, List.length_drop] at hroom ⊢
    omega

/-- The `NULL` is stored behind the tokens. -/
theorem Slots.store_null (h : Slots args taken) :
    ∃ rest, Block.store args taken.length [none] = some (taken.map some ++ none :: rest) := by
  obtain ⟨⟨free, rfl⟩, htwo⟩ := h
  rw [List.length_append, List.length_map] at htwo
  have hstore := store_behind (p := taken.map some) (q := free) (l := [none]) (by rw [List.length_singleton]; omega)
  rw [List.length_map] at hstore
  exact ⟨_, hstore.trans (by simp; rfl)⟩

/-- The loop puts the tokens that `strtok` gives into the slots. -/
theorem collectStores_eq (htokens : Block.tokens '\x00' ' ' n line k = ts.map some) (hn : ts.length < n) (h : Slots args taken) :
    ∃ rest, collectStores stale n line k args taken.length = some ((taken ++ ts).map some ++ none :: rest) := by
  obtain ⟨n, rfl⟩ := Nat.exists_eq_succ_of_ne_zero (Nat.ne_zero_of_lt hn)
  induction ts generalizing n line k args taken with
  | nil =>
    rw [collectStores, Block.tokens_eq_nil htokens, List.append_nil]
    exact h.store_null
  | cons token ts ih =>
    obtain ⟨n, rfl⟩ := Nat.exists_eq_succ_of_ne_zero (show n ≠ 0 by simp at hn; omega)
    obtain ⟨start, line', stop, hnext, htoken, htokens⟩ := Block.tokens_eq_cons htokens
    obtain ⟨args', hstore, hroom⟩ := h.store token stale
    obtain ⟨rest, hrest⟩ := ih hroom n htokens (by simp at hn; omega)
    rw [List.length_append, List.length_singleton, List.append_assoc, List.singleton_append] at hrest
    refine ⟨rest, ?_⟩
    rw [collectStores, hnext]
    simp only [htoken, hstore, Option.bind_eq_bind, Option.bind_some]
    exact hrest

/-- The runs of the line fill the first slots. -/
theorem getCommandStores_eq {input : CStr} (h : Runs ' ' input.text.toList ts) :
    ∃ rest, getCommandStores stale input = some (ts.map some ++ none :: rest) := by
  have hlen : ts.length < input.text.length + 1 := by
    have := h.length_le
    rw [String.length_toList] at this
    omega
  have htokens := tokens_eq (p := []) (q := []) h input.nonul (by decide) hlen
  have hroom : Slots (Block.alloc stale initialArgCount) [] := ⟨⟨_, rfl⟩, by simp [initialArgCount]⟩
  have hstores := @collectStores_eq stale _ _ _ _ _ ts htokens hlen hroom
  rwa [List.nil_append, List.nil_append] at hstores

end Array

/-! ### Lines -/

/-- The line that is run: an empty one stands for the last one of the history. -/
def lineOf (history : List CStr) (input : CStr) : CStr :=
  if input.text ≠ "" then input
  else match history.getLast? with
    | none => input
    | some last => if last.text = "" then input else last

section Lines
variable {env : UiEnv} {s : Session} {input line : CStr} {runs : List (List Char)} {E : Int → Session → Prop}

theorem strtok_runs (h : Runs ' ' line.text.toList runs) : (strtok ' ' line.text).map String.toList = runs := by
  have hne : (fun w : List Char => !w.isEmpty) = fun w => decide (w ≠ []) := by
    funext w
    cases w <;> rfl
  unfold strtok
  rw [components_eq_splitOn, hne, h.splitOn, List.map_map]
  simp [Function.comp_def]

theorem wp_collectArgs_granted (hmalloc : ∀ t, env.malloc t = true) (tokens args : List CStr) (size : Nat) (hroom : args.length + 1 < size)
    (s : Session) : wp (fun _ _ => False) (collectArgs env tokens args size) (fun r _ => r = some (args ++ tokens)) E s := by
  induction tokens generalizing args size s with
  | nil =>
    unfold collectArgs
    rw [wp_bind, wp_when, if_neg (by omega), wp_pure, List.append_nil]
  | cons token tokens ih =>
    have next : ∀ size s, args.length + 2 < size → wp (fun _ _ => False) (collectArgs env tokens (args ++ [token]) size)
        (fun r _ => r = some (args ++ token :: tokens)) E s := fun size s hsize => by
      simpa only [List.append_assoc, List.singleton_append] using ih (args ++ [token]) size (by simpa using hsize) s
    unfold collectArgs
    rw [wp_bind, wp_when, if_neg (by omega), wp_bind, wp_sys, wp_malloc_iff, hmalloc, wp_ite, if_neg (by decide), wp_ite]
    split
    · rw [wp_bind, wp_sys, wp_malloc_iff, hmalloc, wp_ite, if_neg (by decide)]
      exact next _ _ (by omega)
    · exact next _ _ (by omega)

theorem wp_commandLine (hmalloc : ∀ t, env.malloc t = true) :
    wp (fun _ _ => False) (commandLine env input) (fun line _ => line = some (lineOf s.history input)) E s := by
  unfold commandLine lineOf
  rw [wp_ite]
  split
  · rfl
  rw [wp_bind, wp_get]
  cases s.history.getLast? with
  | none => rfl
  | some last =>
    dsimp only
    rw [wp_ite]
    split
    · rfl
    · rw [wp_bind, wp_sys, wp_malloc_iff, hmalloc, if_pos rfl, wp_pure]

end Lines

/-- A line that is read without interruption gives its runs between blanks, in order, and a `NULL` behind them; each store of a
    token or of the `NULL` is inside the array, and in memory each token is a block of its own. -/
theorem command_line_tokenised (env : UiEnv) (s : Session) (input : CStr) (stale : Nat → Option (List Char))
    (hread : env.readline s.state.scratch.clock = (some input, false)) (hint : s.interrupted = false)
    (hmalloc : ∀ t, env.malloc t = true) :
    ∃ runs, Runs ' ' (lineOf s.history input).text.toList runs ∧
      (∃ command t, getCommand env s = .ok (some command) t ∧ command.texts.map String.toList = runs ∧ command.arg runs.length = none ∧
        ∀ block heap, ConsoleEnv.Sane ⟨env, block⟩ → ∃ args m words, Console.getCommand ⟨env, block⟩ ⟨s, heap⟩ = .ok (some args) m ∧
          Console.Fresh heap args command.tokens m.heap words) ∧
      ∃ rest, getCommandStores stale (lineOf s.history input) = some (runs.map some ++ none :: rest) := by
  obtain ⟨runs, hruns⟩ := exists_runs ' ' (lineOf s.history input).text.toList
  refine ⟨runs, hruns, ?_, getCommandStores_eq hruns⟩
  suffices hwp : wp (fun _ _ => False) (getCommand env) (fun r _ => ∃ command, r = some command ∧
      command.texts = strtok ' ' (lineOf s.history input).text) (fun _ _ => False) s by
    obtain ⟨r, t, hrun, command, rfl, htexts⟩ := hwp.exists_ok
    have hmap : command.texts.map String.toList = runs := by rw [htexts, strtok_runs hruns]
    refine ⟨command, t, hrun, hmap, Argv.arg_none ?_, fun block heap hsane => Console.getCommand_fresh hsane hrun⟩
    rw [← hmap, List.length_map]
  unfold getCommand
  rw [wp_bind, wp_sys, wp_tick, wp_bind, wp_modify, wp_bind, wp_get]
  simp only [hread, hint, Bool.or_false, Bool.false_eq_true, if_false]
  refine (wp_commandLine hmalloc).bind (fun line t hline => ?_) fun _ _ => id
  rw [wp_bind, wp_sys, wp_malloc_iff, hmalloc, wp_ite, if_neg (by decide), hline]
  refine (wp_collectArgs_granted hmalloc _ [] _ (by decide) _).bind (fun args u hargs => ?_) fun _ _ => id
  rw [wp_pure, hargs]
  exact ⟨_, rfl, texts_tokens _ _⟩

/-- The line `b  main` is typed. -/
def UiEnv.typing : UiEnv := { UiEnv.on .compliant with readline := fun _ => (some ⟨"b  main", by decide, []⟩, false) }

theorem command_line_tokenised_b : ∃ runs, Runs ' ' (lineOf [] ⟨"b  main", by decide, []⟩).text.toList runs ∧
    (∃ command t, getCommand .typing (Session.on State.blank) = .ok (some command) t ∧ command.texts.map String.toList = runs ∧
      command.arg runs.length = none ∧
      ∀ block heap, ConsoleEnv.Sane ⟨.typing, block⟩ → ∃ args m words,
        Console.getCommand ⟨.typing, block⟩ ⟨Session.on State.blank, heap⟩ = .ok (some args) m ∧
          Console.Fresh heap args command.tokens m.heap words) ∧
    ∃ rest, getCommandStores (fun _ => none) (lineOf [] ⟨"b  main", by decide, []⟩) = some (runs.map some ++ none :: rest) :=
  command_line_tokenised .typing (Session.on State.blank) ⟨"b  main", by decide, []⟩ (fun _ => none) rfl rfl fun _ => rfl

end Sylvan
