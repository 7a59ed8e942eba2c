import Sylvan.Ui.Session

/-! # The command registry (`src/command_registry.c`)

The hash tables are lists in the order of `HASH_ITER`, in which a lookup finds the first entry of a name. The commands
never change, so their table is the one of `static_commands`. -/

namespace Sylvan

/-- The handlers of `command_handler.c`. -/
inductive Handler where
  | help
  | exit
  | continue
  | breakpointSet
  | info
  | addInferior
  | disassemble
  | run
  | stepInst
  | file
  | attach
  | set
  | disableBreakpoint
  | enableBreakpoint
  | deleteBreakpoint
  | readMemory
  | writeMemory
  | infoRegisters
  | infoArgs
  | infoAuxv
  | infoBreakpoints
  | infoInferiors
  | infoAlias
  | setArgs
  | setReg
  | setAlias
  deriving DecidableEq, Repr

/-- `enum sylvan_command_type` -/
inductive CommandType where
  | standard
  | info
  | set
  deriving DecidableEq, Repr

/-- `struct sylvan_command_data` -/
structure Command where
  name : String
  description : String
  handler : Handler
  id : Int
  type : CommandType
  usage : String
  deriving DecidableEq, Repr

/-- `defs/standard_commands.h` -/
def standardCommands : List Command :=
  [⟨"help", "List all available commands with usage details; use -a or --all to show all types", .help, 1, .standard,
      "help [-a|--all] - List commands; use -a for all types"⟩,
    ⟨"quit", "Exit the Sylvan debugger cleanly, terminating the session", .exit, 2, .standard, "quit - Exit the debugger"⟩,
    ⟨"continue", "Resume execution of the current inferior until the next breakpoint or end", .continue, 3, .standard,
      "continue - Resume program execution"⟩,
    ⟨"breakpoint", "Set a breakpoint at a specified address (hex) or function name", .breakpointSet, 4, .standard,
      "breakpoint <address|function> - Set a breakpoint (e.g., 0x1234 or main)"⟩,
    ⟨"info", "Display a list of all info subcommands with descriptions and usage", .info, 5, .standard,
      "info - List all info subcommands"⟩,
    ⟨"add_inferior", "Create a new inferior for debugging a separate process or program", .addInferior, 6, .standard,
      "add_inferior - Create a new inferior"⟩,
    ⟨"disassemble", "Disassemble machine code between two addresses or for a function; use -c for current instruction",
      .disassemble, 7, .standard, "disassemble <start> [end] | -c - Disassemble code (e.g., 0x1000 0x1010 or -c)"⟩,
    ⟨"run", "Start execution of the program assigned to the current inferior", .run, 8, .standard,
      "run - Start the program in the current inferior"⟩,
    ⟨"stepi", "Execute a single machine instruction and stop", .stepInst, 9, .standard, "stepi - Step one instruction"⟩,
    ⟨"file", "Assign an executable file to the current inferior for debugging", .file, 10, .standard,
      "file <path> - Assign an executable (e.g., ./a.out)"⟩,
    ⟨"attach", "Attach the debugger to a running process by its PID", .attach, 11, .standard,
      "attach <pid> - Attach to a process (e.g., 1234)"⟩,
    ⟨"set", "Display a list of all set subcommands with descriptions and usage", .set, 12, .standard,
      "set - List all set subcommands"⟩,
    ⟨"disable", "Disable a breakpoint by its ID or address (use -a <address>)", .disableBreakpoint, 13, .standard,
      "disable <id> | -a <address> - Disable a breakpoint (e.g., 1 or -a 0x1234)"⟩,
    ⟨"enable", "Enable a breakpoint by its ID or address (use -a <address>)", .enableBreakpoint, 14, .standard,
      "enable <id> | -a <address> - Enable a breakpoint (e.g., 1 or -a 0x1234)"⟩,
    ⟨"delete", "Delete a breakpoint by its ID or address (use -a <address>)", .deleteBreakpoint, 15, .standard,
      "delete <id> | -a <address> - Delete a breakpoint (e.g., 1 or -a 0x1234)"⟩,
    ⟨"memory_read", "Read memory contents from a specified address; optional -t for table format", .readMemory, 16,
      .standard, "memory_read [-t] <address> [rows] - Read memory (e.g., 0x1000 or -t 0x1000 4)"⟩,
    ⟨"memory_write", "Write values (hex, decimal, or string) to a specified memory address", .writeMemory, 17, .standard,
      "memory_write <address> <value>... - Write to memory (e.g., 0x1000 0x12 \"hello\")"⟩]

/-- `defs/sub_commands.h` -/
def subCommands : List Command :=
  [⟨"info_registers", "Display the values of all CPU registers for the current inferior", .infoRegisters, 102, .info,
      "info_registers - Display all register values"⟩,
    ⟨"info_args", "List all argument variables in the current stack frame", .infoArgs, 103, .info,
      "info_args - Show current stack frame arguments"⟩,
    ⟨"info_auxv", "List all information about auxilary vectors", .infoAuxv, 103, .info,
      "info_args - Show current stack frame arguments"⟩,
    ⟨"info_breakpoints", "List all user-set breakpoints with their status, type, and address", .infoBreakpoints, 105, .info,
      "info_breakpoints - List all breakpoints"⟩,
    ⟨"info_inferiors", "List all inferiors being managed, including their IDs, PIDs, and paths", .infoInferiors, 107, .info,
      "info_inferiors - List all managed inferiors"⟩,
    ⟨"info_alias", "Display all defined command aliases with their original commands", .infoAlias, 108, .info,
      "info_alias - List all command aliases"⟩,
    ⟨"set_args", "Set command-line arguments for the program in the current inferior", .setArgs, 201, .set,
      "set_args <arg1> [arg2...] - Set program arguments (e.g., arg1 arg2)"⟩,
    ⟨"set_reg", "Assign a value to a specified CPU register (e.g., rax, rbx)", .setReg, 202, .set,
      "set_reg <register> <value> - Set a register value (e.g., rax 123)"⟩,
    ⟨"set_alias", "Create an alias for an existing command to simplify usage", .setAlias, 203, .set,
      "set_alias <command> <alias> - Create a command alias (e.g., run r)"⟩]

def staticCommands : List Command := standardCommands ++ subCommands

/-- `static_aliases`, of `defs/command_alias.h` -/
def staticAliases : List Alias :=
  [("h", "help", 1), ("q", "quit", 2), ("c", "continue", 3), ("b", "breakpoint", 4), ("i", "info", 5),
    ("add_inf", "add_inferior", 6), ("disas", "disassemble", 7), ("r", "run", 8), ("si", "stepi", 9), ("fi", "file", 10),
    ("at", "attach", 11), ("st", "set", 12), ("b_dbl", "disable", 13), ("b_enb", "enable", 14), ("b_dlt", "delete", 15),
    ("i_adr", "info_address", 16), ("i_reg", "info_registers", 17), ("i_auxv", "info_auxv", 18),
    ("i_bkpts", "info_breakpoints", 19), ("i_inf", "info_inferiors", 20), ("s_args", "set_args", 21),
    ("s_reg", "set_reg", 22), ("r_mem", "memory_read", 23), ("w_mem", "memory_write", 24)].map fun a =>
      { name := a.1, orgCmd := a.2.1, id := a.2.2, type := 's' }

/-- `HASH_FIND_STR` in `alias_table` -/
def findAlias (aliases : List Alias) (name : String) : Option Alias := aliases.find? fun a => a.name = name

/-- `HASH_FIND_STR` in `command_hash` -/
def findCommand (name : String) : Option Command := staticCommands.find? fun c => c.name = name

/-- `lookup_command` -/
def lookupCommand (aliases : List Alias) (name : String) : Option Command :=
  findCommand (((findAlias aliases name).map Alias.orgCmd).getD name)

/-- `insert_alias`, where `none` is `NULL`: whether it returns 0 -/
def insertAlias (env : UiEnv) (name orgCmd : Option String) (id : Int) (type : Char) : UiM Bool := do
  match name, orgCmd with
  | some name, some orgCmd => do
    let aliases := (← Exec.get).aliases
    if (findAlias aliases name).isSome then do
      printStderr "Error: Alias '%s' already exists\n" [.str name]
      pure false
    else if (lookupCommand aliases orgCmd).isNone then do
      printStderr "Invalid command: %s not found\n" [.str orgCmd]
      pure false
    else if (← sys (Sys.malloc env.toEnv)) = false then do
      printStderr "Error: Failed to allocate memory for alias\n" []
      pure false
    else do
      let nameCopied ← sys (Sys.malloc env.toEnv)
      let orgCmdCopied ← sys (Sys.malloc env.toEnv)
      if ¬(nameCopied ∧ orgCmdCopied) then do
        printStderr "Error: Failed to allocate memory for alias strings\n" []
        pure false
      else do
        Exec.modify fun s => { s with aliases := s.aliases ++ [{ name, orgCmd, id, type }] }
        printf "Added alias: %s -> %s (type: %c, id: %d)\n" [.str name, .str orgCmd, .char type, .int id]
        pure true
  | _, _ => pure false

/-- `init_commands` -/
def initCommands : UiM Unit := Exec.modify fun s => { s with aliases := staticAliases }

/-- `free_alias_table` -/
def freeAliasTable : UiM Unit := Exec.modify fun s => { s with aliases := [] }

end Sylvan
