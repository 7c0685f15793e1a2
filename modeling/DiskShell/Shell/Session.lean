import DiskShell.Shell.Briefing
import DiskShell.Shell.Run

/-!
Sessions. A session runs command lines one after the other, each in the working directory that the
one before has left, and keeps a history of them.
-/

namespace DiskShell.Shell

structure Session (σ : Type) where
  disk : Disk σ
  cwd : String
  history : History
  config : SessionConfig

namespace Session

variable {σ : Type}

/-- The configured directory if it exists, otherwise the root. -/
def home (d : Disk σ) (path : String) : String :=
  if d.isDirectory path "/" then Path.canonical path "/" else "/"

def start (d : Disk σ) (config : SessionConfig) : Session σ :=
  ⟨d, home d config.home, .empty config.historyCapacity, config⟩

def briefing (s : Session σ) : Briefing :=
  .ofDisk s.disk s.cwd s.history s.config.agentHistory

variable [Store σ]

/-- The line is kept in the history with the directory in which it was run. -/
def run (s : Session σ) (line : String) : Session σ × Output :=
  let (disk, output) := runLine s.disk line s.cwd
  let (history, _) := s.history.push ⟨s.cwd, Text.trim line, output.lines⟩
  ({ s with disk := disk, history := history, cwd := output.cwd }, output)

def reset (s : Session σ) : Session σ :=
  let disk := s.disk.reset
  { s with disk := disk, history := s.history.clear, cwd := home disk s.config.home }

end Session

end DiskShell.Shell
