import Sylvan.Ui.Handlers

/-! # The start of the debugger (`src/debugger_startup.c`, `src/cmd.h`)

`getopt_long` is given by what it makes of the command line: the options, one for each turn of the loop, and the arguments
that are left from `optind` on. What it prints itself is left out. -/

namespace Sylvan

/-- What `getopt_long` returns, with `optarg` -/
inductive CmdOption where
  | help
  | version
  | args (optarg : CStr)
  | attach (optarg : CStr)
  | invalid
  deriving DecidableEq, Repr

/-- `struct cmd_args` -/
structure CmdArgs where
  fileArgs : Option CStr
  filepath : Option CStr
  isAttached : Bool
  pid : Pid
  deriving DecidableEq, Repr

/-- `{0}` -/
def CmdArgs.zero : CmdArgs := ⟨none, none, false, 0⟩

def EXIT_SUCCESS : Int := 0
def EXIT_FAILURE : Int := 1

def printHelp : UiM Unit := do
  printf "Usage: sylvan [options]\n" []
  printf "  -h, --help                Show this help message\n" []
  printf "  -v, --version             Show version information\n" []
  printf "  -a, --args   <args>       Pass <args> as arguments to the sylvan_inferior\n" []
  printf "  -p, --attach <pid>        Attach to a process with process id <pid>\n" []

def printVersion : UiM Unit := printf "Version 0.1.0\n" []

def printInvalidOpt : UiM Unit := printStderr "Use 'sylvan -h or --help' to print a list of options.\n" []

/-- `case 'p'`. `errno` is neither cleared before the call of `strtol` nor looked at after it. -/
def parsePid (optarg : CStr) : UiM Pid := do
  let r := Numeral.strtol 10 (optarg.from 0)
  Exec.when r.range (sys (setErrno ERANGE))
  if ¬r.atEnd then do
    printStderr "Invalid process id: %s\n" [.str optarg.text]
    leave EXIT_FAILURE
  else pure (asInt r.value)

/-- A turn of the loop of `parse_args` -/
def parseOption (cmdArgs : CmdArgs) : CmdOption → UiM CmdArgs
  | .help => do
    printHelp
    leave EXIT_SUCCESS
  | .version => do
    printVersion
    leave EXIT_SUCCESS
  | .args optarg => pure { cmdArgs with fileArgs := some optarg }
  | .attach optarg => do
    let pid ← parsePid optarg
    pure { cmdArgs with isAttached := true, pid }
  | .invalid => do
    printInvalidOpt
    leave EXIT_FAILURE

/-- The part of `parse_args` after its loop -/
def parseOperands (cmdArgs : CmdArgs) (operands : List CStr) : UiM CmdArgs := do
  match if operands.head?.any fun c => c.text = "--" then operands.tail else operands with
  | [] => pure cmdArgs
  | filepath :: excess => do
    Exec.when (excess ≠ []) do
      printStderr "Ignoring excess options: " []
      Exec.each excess fun c => printStderr "%s " [.str c.text]
      printStderr "\n" []
    pure { cmdArgs with filepath := some filepath }

def parseArgs (options : List CmdOption) (operands : List CStr) : UiM CmdArgs := do
  parseOperands (← options.foldlM parseOption .zero) operands

/-- `error`, for the message of the last error -/
def errorLast : UiM Unit := do
  printStderr (← Exec.get).state.scratch.lastError.message []
  printStderr "\n" []

/-- A call whose error is printed, after which the debugger goes on -/
def orPrinted (x : SylvanM Unit) : UiM Unit := do
  match ← lib x with
  | .ok _ => pure ()
  | .error _ => errorLast

section
variable (env : UiEnv)

/-- The part of `debugger_main` between `parse_args` and `interface_loop` -/
def startInferior (cmdArgs : CmdArgs) : UiM Unit := do
  match ← lib (inferiorCreate env.toEnv) with
  | .error _ => do
    errorLast
    leave EXIT_FAILURE
  | .ok _ => do
    Exec.modify fun s => { s with state := { s.state with freed := false } }
    Exec.when cmdArgs.filepath.isSome (orPrinted (Sylvan.setFilepath env.toEnv (cmdArgs.filepath.map CStr.text)))
    Exec.when cmdArgs.fileArgs.isSome (orPrinted (Sylvan.setArgs env.toEnv (cmdArgs.fileArgs.map CStr.text)))
    Exec.when cmdArgs.isAttached (orPrinted (Sylvan.attach env.toEnv cmdArgs.pid))

/-- `debugger_main` up to `interface_loop` -/
def debuggerStart (options : List CmdOption) (operands : List CStr) : UiM Unit := do
  startInferior env (← parseArgs options operands)

/-- `debugger_main` from the end of `interface_loop` on, and its exit status -/
def debuggerFinish : UiM Int := do
  match ← lib (inferiorDestroy env.toEnv) with
  | .error _ => do
    errorLast
    pure EXIT_FAILURE
  | .ok _ => pure EXIT_SUCCESS

end

end Sylvan
