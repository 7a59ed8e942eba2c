import Sylvan.Ui.Handlers

/-! # The command line (`src/user_interface.c`) -/

namespace Sylvan

/-- `INITIAL_ARG_COUNT` -/
def initialArgCount : Nat := 10

theorem mem_of_mem_components {sep c : Char} {w : List Char} : ∀ {cs : List Char}, w ∈ components sep cs → c ∈ w → c ∈ cs
  | [], hw, hc => by
    obtain rfl := List.mem_singleton.mp hw
    cases hc
  | d :: ds, hw, hc => by
    have ih := fun v (hv : v ∈ components sep ds) (hc : c ∈ v) => mem_of_mem_components hv hc
    unfold components at hw
    split at hw
    · rcases List.mem_cons.mp hw with rfl | hw
      · cases hc
      · exact List.mem_cons_of_mem _ (ih w hw hc)
    · cases hds : components sep ds with
      | nil =>
        rw [hds] at hw
        obtain rfl := List.mem_singleton.mp hw
        exact List.mem_singleton.mp hc ▸ List.mem_cons_self ..
      | cons v vs =>
        rw [hds] at hw ih
        rcases List.mem_cons.mp hw with rfl | hw
        · rcases List.mem_cons.mp hc with rfl | hc
          · exact List.mem_cons_self ..
          · exact List.mem_cons_of_mem _ (ih v (List.mem_cons_self ..) hc)
        · exact List.mem_cons_of_mem _ (ih w (List.mem_cons_of_mem _ hw) hc)

theorem nonul_of_mem_strtok {sep : Char} {line token : String} (hline : '\x00' ∉ line.toList) (h : token ∈ strtok sep line) :
    '\x00' ∉ token.toList := by
  obtain ⟨w, hw, rfl⟩ := List.mem_map.mp h
  rw [String.toList_ofList]
  exact fun hc => hline (mem_of_mem_components (List.mem_filter.mp hw).1 hc)

/-- The tokens of a line, and the bytes that `beyond` says are behind each of them -/
def CStr.tokens (line : CStr) (beyond : Nat → List Char) : List CStr :=
  (strtok ' ' line.text).attach.mapIdx fun i token => ⟨token.1, nonul_of_mem_strtok line.nonul token.2, beyond i⟩

section
variable (env : UiEnv)

/-- The loop of `get_command` over the tokens that are left: `args` has `size` slots, of which the first hold `args`.
    It is `none` where `get_command` returns `NULL`. -/
def collectArgs : List CStr → List CStr → Nat → UiM (Option (List CStr))
  | [], args, size => do
    Exec.when (size ≤ args.length) (Exec.fault .outOfBounds)
    pure (some args)
  | token :: tokens, args, size => do
    Exec.when (size ≤ args.length) (Exec.fault .outOfBounds)
    if (← sys (Sys.malloc env.toEnv)) = false then do
      printStderr "Error: strdup failed: %s\n" [.str (env.strerror ENOMEM)]
      pure none
    else if size - 1 ≤ args.length + 1 then do
      if (← sys (Sys.malloc env.toEnv)) = false then do
        printStderr "Error: realloc failed: %s\n" [.str (env.strerror ENOMEM)]
        pure none
      else collectArgs tokens (args ++ [token]) (size * 2)
    else collectArgs tokens (args ++ [token]) size

/-- The line that is to be run: an empty one stands for the last one of the history. It is `none` where there is no memory for the
    copy of that one. -/
def commandLine (input : CStr) : UiM (Option CStr) := do
  if input.text ≠ "" then do
    Exec.modify fun s => { s with history := s.history ++ [input] }
    pure (some input)
  else match (← Exec.get).history.getLast? with
    | none => pure (some input)
    | some last =>
      if last.text = "" then pure (some input)
      else do
        if ← sys (Sys.malloc env.toEnv) then return some last else return none

/-- `get_command`, where `none` is `NULL` -/
def getCommand : UiM (Option Argv) := do
  let t ← sys Sys.tick
  Exec.modify fun s => { s with interrupted := s.interrupted || (env.readline t).2 }
  if (← Exec.get).interrupted then do
    Exec.modify fun s => { s with interrupted := false }
    pure none
  else match (env.readline t).1 with
    | none => Exec.fault .nullDereference
    | some input => do
      let line ← commandLine env input
      if (← sys (Sys.malloc env.toEnv)) = false then do
        printStderr "Error: malloc failed for args: %s\n" [.str (env.strerror ENOMEM)]
        pure none
      else match line with
        -- `strtok` is given `NULL`, and goes on in what it was last given.
        | none => Exec.fault .staleToken
        | some line => do
          let args ← collectArgs env (line.tokens fun i => env.behind (t + i)) [] initialArgCount
          pure (args.map fun tokens => ⟨tokens, env.slots t⟩)

/-- `handle_command` -/
def handleCommand (command : Argv) : UiM Int := do
  match command.arg 0 with
  | none => do
    printStderr "Error: Invalid command\n" []
    pure 0
  | some name =>
    match lookupCommand (← Exec.get).aliases name.text with
    | some cmd => cmd.handler.call env command
    | none => do
      printf "Unknown command: %s\n" [.str name.text]
      printf "Type 'help' for available commands\n" []
      pure 0

/-- A turn of the loop of `interface_loop`, which goes on while the result is `0` -/
def interfaceTurn : UiM Int := do
  match ← getCommand env with
  | none => pure 0
  | some line =>
    match line.arg 0 with
    | none => pure 0
    | some name => if name.char 0 = '\x00' then pure 0 else handleCommand env line

/-- `interface_loop` up to the `n`-th turn, or up to `free_alias_table` if a command ends the loop before. It says whether
    one did. -/
def interfaceLoop (n : Nat) : UiM Bool := do
  initCommands
  let left ← Exec.turns (interfaceTurn env) n
  Exec.when (left = true) freeAliasTable
  pure left

end

/-! ## A system to run commands on -/

/-- Files are empty, nothing is typed, and nothing is left behind in memory. -/
def UiEnv.on (env : Env) : UiEnv where
  toEnv := env
  fopen _ _ := .ok (.whole [])
  zydis _ _ := none
  elfErrmsg := ""
  openAuxv _ _ := none
  readAuxv _ := .ok []
  readline _ := (none, false)
  behind _ := []
  slots _ := []

/-- A session on `s` that nothing was printed in yet. -/
def Session.on (s : State) : Session where
  state := s
  out := []
  aliases := staticAliases
  interrupted := false
  history := []

end Sylvan
