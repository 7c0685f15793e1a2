import DiskShell.Disk
import DiskShell.Shell.Builtin
import DiskShell.Shell.Output
import DiskShell.Shell.Word

/-!
One command line on a disk. Errors of the disk become printed lines; a line that no command knows is
given back for someone else to answer.
-/

namespace DiskShell.Shell

variable {σ : Type}

/-! ## Printing -/

def helpLines : List String → List String
  | [] =>
    "Available commands:" ::
      Builtin.all.map fun b => "  " ++ Text.padRight 8 b.name ++ b.description
  | topic :: _ =>
    match Builtin.ofName? topic with
    | some b => ["usage: " ++ b.usage, "  " ++ b.description]
    | none => ["help: no such command: " ++ topic]

def listLine (e : ListEntry) : String :=
  if e.isDirectory then "[dir]  " ++ e.name ++ "/" else "[file] " ++ e.name

def listLines (d : Disk σ) (cwd target : String) : List String :=
  if d.exists? target cwd then (d.list target cwd).map listLine
  else ["ls: cannot access '" ++ target ++ "': No such file or directory"]

def missingOperand (command : String) : String := command ++ ": missing operand"

/-- A file's content line by line, or why there is none. -/
def contentLines (d : Disk σ) (command cwd path : String) : List String :=
  match d.read? path cwd with
  | some content => Text.cut '\n' content
  | none =>
    let e := if d.isDirectory path cwd then DiskError.isADirectory else DiskError.notFound
    [command ++ ": " ++ path ++ ": " ++ e.reason]

def printFiles (d : Disk σ) (command cwd : String) : List String → List String
  | [] => [missingOperand command]
  | paths => paths.flatMap (contentLines d command cwd)

/-- The new working directory, or the line that says why there is none. -/
def changeDirectory (d : Disk σ) (cwd target : String) : Output :=
  if d.isDirectory target cwd then .silent (Path.canonical target cwd)
  else if d.exists? target cwd then .print cwd ["cd: not a directory: " ++ target]
  else .print cwd ["cd: no such file or directory: " ++ target]

/-! ## Changing -/

/-- The disk after a command, and the lines that it prints. -/
abbrev Effect (σ : Type) := Disk σ × List String

def report (complaint : DiskError → String) (result : Disk σ × Except DiskError Unit) : Effect σ :=
  match result with
  | (d, .ok ()) => (d, [])
  | (d, .error e) => (d, [complaint e])

/-- Takes the operands in turn, each on the disk that the one before has left. A failure does not
keep the others from being tried. -/
def forEach (run : Disk σ → String → Disk σ × Except DiskError Unit)
    (complaint : String → DiskError → String) (d : Disk σ) : List String → Effect σ
  | [] => (d, [])
  | path :: rest =>
    let (d, lines) := report (complaint path) (run d path)
    let (d, more) := forEach run complaint d rest
    (d, lines ++ more)

def withOperands (command : String) (run : Disk σ → String → Disk σ × Except DiskError Unit)
    (complaint : String → DiskError → String) (d : Disk σ) : List String → Effect σ
  | [] => (d, [missingOperand command])
  | paths => forEach run complaint d paths

variable [Store σ]

def makeDirectories (d : Disk σ) (cwd : String) : List String → Effect σ :=
  withOperands "mkdir" (fun d path => d.makeDirectory path cwd)
    (fun path e => "mkdir: cannot create directory '" ++ path ++ "': " ++ e.reason) d

def removeDirectories (d : Disk σ) (cwd : String) : List String → Effect σ :=
  withOperands "rmdir" (fun d path => d.removeDirectory path cwd)
    (fun path e => "rmdir: failed to remove '" ++ path ++ "': " ++ e.reason) d

def touchFiles (d : Disk σ) (cwd : String) : List String → Effect σ :=
  withOperands "touch" (fun d path => d.touch path cwd)
    (fun path e => "touch: cannot touch '" ++ path ++ "': " ++ e.reason) d

def removeNodes (d : Disk σ) (cwd : String) : List String → Effect σ :=
  withOperands "rm" (fun d path => d.remove path cwd)
    (fun path e => "rm: cannot remove '" ++ path ++ "': " ++ e.reason) d

def writeFile (d : Disk σ) (cwd : String) : List String → Effect σ
  | [] => (d, [missingOperand "write"])
  | path :: text =>
    report (fun e => "write: cannot write '" ++ path ++ "': " ++ e.reason)
      (d.write path (" ".intercalate text) cwd)

/-- Operands after the second are ignored. -/
def moveOrCopy (command verb : String)
    (run : Disk σ → String → String → Disk σ × Except DiskError Unit) (d : Disk σ) :
    List String → Effect σ
  | [] => (d, [missingOperand command])
  | [source] => (d, [command ++ ": missing destination file operand after '" ++ source ++ "'"])
  | source :: target :: _ =>
    report (fun e => command ++ ": cannot " ++ verb ++ " '" ++ source ++ "' to '" ++ target ++
      "': " ++ e.reason) (run d source target)

/-! ## Command lines -/

/-- A command that may change the disk but not the working directory. -/
def changing (cwd : String) (effect : Effect σ) : Disk σ × Output :=
  (effect.1, .print cwd effect.2)

def runBuiltin (d : Disk σ) (cwd : String) (args : List String) :
    Builtin → Disk σ × Output
  | .help => (d, .print cwd (helpLines args))
  | .pwd => (d, .print cwd [Path.canonical "" cwd])
  | .ls => (d, .print cwd (listLines d cwd (args.headD ".")))
  | .cd => (d, changeDirectory d cwd (args.headD "/"))
  | .mkdir => changing cwd (makeDirectories d cwd args)
  | .rmdir => changing cwd (removeDirectories d cwd args)
  | .touch => changing cwd (touchFiles d cwd args)
  | .cat => (d, .print cwd (printFiles d "cat" cwd args))
  | .echo => (d, .print cwd [" ".intercalate args])
  | .write => changing cwd (writeFile d cwd args)
  | .read => (d, .print cwd (printFiles d "read" cwd args))
  | .rm => changing cwd (removeNodes d cwd args)
  | .mv => changing cwd (moveOrCopy "mv" "move" (fun d s t => d.move s t cwd) d args)
  | .cp => changing cwd (moveOrCopy "cp" "copy" (fun d s t => d.copy s t cwd) d args)
  | .clear => (d, { Output.silent cwd with clear := true })

/-- The first word names the command, in lower case. -/
def runLine (d : Disk σ) (line cwd : String) : Disk σ × Output :=
  match words line with
  | [] => (d, .silent cwd)
  | first :: args =>
    let name := Text.lowercase first
    match Builtin.ofName? name with
    | some b => runBuiltin d cwd args b
    | none =>
      (d, ⟨[name ++ ": command not found"], cwd, false, some (Text.trim line)⟩)

end DiskShell.Shell
