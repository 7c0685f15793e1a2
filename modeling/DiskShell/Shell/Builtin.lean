import DiskShell.Text.Lowercase

/-! The commands of the shell. A name stands for at most one of them, up to the case of A to Z. -/

namespace DiskShell.Shell

inductive Builtin where
  | help
  | pwd
  | ls
  | cd
  | mkdir
  | rmdir
  | touch
  | cat
  | echo
  | write
  | read
  | rm
  | mv
  | cp
  | clear
  deriving DecidableEq, Repr

namespace Builtin

def all : List Builtin :=
  [help, pwd, ls, cd, mkdir, rmdir, touch, cat, echo, write, read, rm, mv, cp, clear]

def name : Builtin → String
  | help => "help"
  | pwd => "pwd"
  | ls => "ls"
  | cd => "cd"
  | mkdir => "mkdir"
  | rmdir => "rmdir"
  | touch => "touch"
  | cat => "cat"
  | echo => "echo"
  | write => "write"
  | read => "read"
  | rm => "rm"
  | mv => "mv"
  | cp => "cp"
  | clear => "clear"

def description : Builtin → String
  | help => "Show available commands"
  | pwd => "Print the working directory"
  | ls => "List directory contents"
  | cd => "Change the working directory"
  | mkdir => "Create directories (with parents)"
  | rmdir => "Remove empty directories"
  | touch => "Create empty files"
  | cat => "Print file contents"
  | echo => "Print arguments"
  | write => "Write text to a file"
  | read => "Print file contents (same as cat)"
  | rm => "Remove files or empty directories"
  | mv => "Move or rename a file or directory"
  | cp => "Copy a file or directory"
  | clear => "Clear the terminal"

def usage : Builtin → String
  | help => "help [command]"
  | pwd => "pwd"
  | ls => "ls [path]"
  | cd => "cd [path]"
  | mkdir => "mkdir <path>..."
  | rmdir => "rmdir <path>..."
  | touch => "touch <path>..."
  | cat => "cat <path>..."
  | echo => "echo [text]..."
  | write => "write <path> [text]..."
  | read => "read <path>..."
  | rm => "rm <path>..."
  | mv => "mv <source> <destination>"
  | cp => "cp <source> <destination>"
  | clear => "clear"

def ofName? (name : String) : Option Builtin :=
  all.find? fun b => Text.sameLetters b.name name

def isName (name : String) : Bool := (ofName? name).isSome

end Builtin

end DiskShell.Shell
