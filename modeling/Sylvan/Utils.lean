import Sylvan.Kernel

/-! # Paths (`lib/sylvan/utils.c`)

A function here is named after the one it models, without the prefix `sylvan_`; so in the modules that
follow. The pointers that the source checks against `NULL` and its callers never pass as `NULL` are left
out. -/

namespace Sylvan

section
variable (env : Env)

def realPath (filepath : String) : SylvanM String := do
  handled (Sys.answered fun t => env.realpath t filepath) fun e =>
    if e = ENOENT then setCode .fileNotFound else setErrnoMsg env .systemError "real path"

/-- The runs of characters between separators, as `strtok` gives them with the empty ones left out. -/
def components (sep : Char) : List Char → List (List Char)
  | [] => [[]]
  | c :: cs =>
    if c = sep then [] :: components sep cs
    else match components sep cs with
      | [] => [[c]]
      | w :: ws => (c :: w) :: ws

def strtok (sep : Char) (s : String) : List String :=
  ((components sep s.toList).filter (!·.isEmpty)).map String.ofList

/-- The loop of `sylvan_find_in_PATH` over the directories that are left. -/
def findInDirectories (command : String) : List String → SylvanM String
  | [] => setCode .fileNotFound
  | token :: tokens => do
    let full := token ++ "/" ++ command
    Exec.when ((← Sys.malloc env) = false) (setCode .outOfMemory)
    match ← Sys.plain fun t => env.access t full with
    | .ok _ => pure full
    | .error _ => findInDirectories command tokens

def findInPATH (command : String) : SylvanM String := do
  match env.getenv (← Sys.tick) "PATH" with
  | none => setCode .fileNotFound
  | some path => do
    Exec.when ((← Sys.malloc env) = false) (setCode .outOfMemory)
    findInDirectories env command (strtok ':' path)

def canonicalPath (filepath : String) : SylvanM String := do
  match ← Exec.attempt (realPath env filepath) with
  | .ok path => pure path
  | .error code => if code = .fileNotFound then findInPATH env filepath else Exec.error code

def realPathPid (pid : Pid) : SylvanM String := realPath env s!"/proc/{pid}/exe"

end

end Sylvan
