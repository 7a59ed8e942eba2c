import Sylvan.Inferior

/-! # The child (`handle_child` and `exit_child` of `lib/sylvan/inferior.c`)

What the child of `sylvan_run` does until it is replaced by the program, or ends with a report for its parent in the
pipe. It shares nothing with its parent but the pipe, so it is a function of what its own calls are answered. -/

namespace Sylvan

/-- What the calls of the child are answered. -/
structure ChildAnswers where
  /-- `close(fd[0])` -/
  closeRead : Option Failure
  /-- `close(wd)` -/
  closeWrite : Option Failure
  /-- `dprintf` -/
  write : Option Failure
  traceme : Option Failure
  malloc : Bool
  /-- What `malloc` left behind the path, which has no `'\0'`. -/
  behind : String
  /-- The words, or the result of `wordexp` and the `errno` after it. -/
  wordexp : String → Except (Int × Errno) (List String)
  execvp : String → List String → Option Failure

def WRDE_NOSPACE : Int := 1

/-- How the child ends: it exits, with what it reported if it did, or it becomes a program. -/
inductive ChildEnd where
  | exit (status : Nat) (report : Option (Code × Errno))
  | exec (path : String) (argv : List String)

/-- `%d`, for a number that is not negative -/
def digits (n : Nat) : List Byte := (Nat.toDigits 10 n).map fun c => BitVec.ofNat 8 c.toNat

/-- `%d` -/
def decimal (n : Int) : List Byte := (if n < 0 then [45] else []) ++ digits n.natAbs

/-- What `dprintf(wd, "%d %d", code, errno)` writes. -/
def reportBytes (code : Code) (errno : Errno) : List Byte := decimal code.value ++ 32 :: decimal errno

/-- `exit_child`, where `errno` is what the calls before it left -/
def exitChild (a : ChildAnswers) (code : Code) (errno : Errno) : ChildEnd :=
  if a.write.isSome then .exit 1 none
  else .exit (if a.closeWrite.isSome then 1 else 0) (some (code, errno))

/-- The part of `handle_child` from `close(wd)` on -/
def startProgram (a : ChildAnswers) (path : String) (argv : List String) : ChildEnd :=
  if a.closeWrite.isSome ∨ (a.execvp path argv).isSome then .exit 1 none else .exec path argv

/-- `handle_child`, for an inferior with the path `path` and the arguments `args` -/
def handleChild (a : ChildAnswers) (path : String) (args : Option String) : ChildEnd :=
  if a.closeRead.isSome then .exit 1 none
  else
    match a.traceme with
    | some e => exitChild a .ptraceError e.errno
    | none =>
      if ¬a.malloc then exitChild a .outOfMemory ENOMEM
      else
        match args with
        | none => startProgram a path [path ++ a.behind]
        | some args =>
          match a.wordexp (path ++ " " ++ args) with
          | .error (res, errno) => exitChild a (if res = WRDE_NOSPACE then .outOfMemory else .invalidArgument) errno
          | .ok argv => startProgram a path argv

end Sylvan
