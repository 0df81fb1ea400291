import Cartridge.CommandLine.Path

/-!
# Arguments

What the words of a command line ask for.  The version and the usage are given only where they are
the whole of it.
-/

namespace Cartridge.CommandLine

/-- A project to compile and the two files to write. -/
structure Job where
  project : Path
  binary : Path
  includeFile : Path
deriving DecidableEq, Repr

inductive Command where
  | version
  | help
  | compile (job : Job)
  | misuse
deriving DecidableEq, Repr

/-- The paths that are known so far. -/
structure Draft where
  project : Option Path
  binary : Option Path
  includeFile : Option Path
deriving DecidableEq, Repr

namespace Draft

def empty : Draft := ⟨none, none, none⟩

/-- The word after an option is its path, whatever it is, and the last path counts.  There is one
project. -/
def read (d : Draft) : List String → Option Draft
  | [] => some d
  | [word] => if word.startsWith "-" then none else d.project.elim (some (named word)) fun _ => none
  | word :: next :: rest =>
    if word = "-o" then read { d with binary := some ⟨next⟩ } rest
    else if word = "-i" then read { d with includeFile := some ⟨next⟩ } rest
    else if word.startsWith "-" || d.project.isSome then none
    else read (named word) (next :: rest)
where
  named (word : String) : Draft := { d with project := some ⟨word⟩ }

/-- The files are named after the project unless they have paths of their own. -/
def job? (d : Draft) : Option Job :=
  d.project.map fun project =>
    ⟨project, d.binary.getD (project.withExtension "bin"),
      d.includeFile.getD (project.withExtension "inc")⟩

end Draft

def Command.ofArguments (args : List String) : Command :=
  if args = ["-v"] ∨ args = ["--version"] then version
  else if args = ["-h"] ∨ args = ["--help"] then help
  else (((Draft.empty.read args).bind Draft.job?).map compile).getD misuse

end Cartridge.CommandLine
