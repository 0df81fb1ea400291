import Cartridge.CommandLine.Arguments
import Cartridge.Document.Toml.Assembly
import Cartridge.Project.Compile
import Cartridge.Project.Decode

/-!
# Running a command

A run reads and writes files through a record of two operations and ends with an exit code and two
texts.  It touches no other part of the world, so the same run serves a disk and a folder in memory.
-/

namespace Cartridge.CommandLine

inductive FileError where
  | notFound
  | isDirectory
  | notDirectory
  | notText
  | other (text : String)
deriving DecidableEq, Repr

def FileError.message : FileError → String
  | notFound => "No such file or directory (os error 2)"
  | isDirectory => "Is a directory (os error 21)"
  | notDirectory => "Not a directory (os error 20)"
  | notText => "stream did not contain valid UTF-8"
  | other text => text

/-- How files are read and written. -/
structure Files (m : Type → Type) where
  read : Path → m (Except FileError String)
  write : Path → Bytes → m (Except FileError Unit)

/-- How a run ends: the exit code and what it leaves on the two output streams. -/
structure Ending where
  exitCode : UInt32
  output : String
  complaints : String
deriving DecidableEq, Repr

def version : String := "romforge 0.4.0\n"

def usage : String := "\n".intercalate [
  "Usage: romforge <project.toml> [-o <out.bin>] [-i <out.inc>]",
  "",
  "Options:",
  "  -o <file>        Binary output (default: <project>.bin)",
  "  -i <file>        Include file output (default: <project>.inc)",
  "  -h, --help       Print this help message",
  "  -v, --version    Print version information",
  "",
  "Set RUST_LOG=info (or debug) for progress output.",
  ""]

/-- The file with the memory map of the projects that have none. -/
def configuration : Path := ⟨"romforge.toml"⟩

/-- What is said about a failure, after the diagnostics that led to it. -/
def complaint (e : Failure) : String :=
  let report :=
    match e with
    | .validation report => report.text
    | _ => ""
  report ++ "error: " ++ e.message ++ "\n"

/-- Says which file could not be decoded. -/
def undecoded (path : Path) : Document.DecodeError → Failure
  | .shape => .config (path.text ++ ": the contents have the wrong shape")
  | .refused reason => .config (path.text ++ ": " ++ reason)

/-- The path of the binary as the include file names it. -/
def Job.insertPath (job : Job) : Path :=
  match job.includeFile.holder? with
  | none => job.binary
  | some base => job.binary.relativeTo base

section Steps

variable {m : Type → Type} [Monad m] (files : Files m)

def loadProject (path : Path) : ExceptT Failure m Project := do
  match ← files.read path with
  | .error e => throw (.io (path.text ++ ": " ++ e.message))
  | .ok text =>
    match Document.Toml.decode Project.decode text with
    | .error e => throw (undecoded path e)
    | .ok project => return project

/-- The memory map of the configuration file, or the standard one where that cannot be read. -/
def loadMap : m MemoryMap := do
  match ← files.read configuration with
  | .error _ => return .standard
  | .ok text =>
    return (Document.Toml.decode MemoryMap.decodeConfiguration text).toOption.getD .standard

def store (path : Path) (data : Bytes) : ExceptT Failure m Unit := do
  match ← files.write path data with
  | .error e => throw (.io ("could not write to " ++ path.text ++ ": " ++ e.message))
  | .ok () => return ()

namespace Job

variable (job : Job)

def compile : ExceptT Failure m Compiled := do
  let project ← loadProject files job.project
  let map ← project.memoryMap.getDM (ExceptT.lift (loadMap files))
  let outcome := { project with memoryMap := some map }.compile job.insertPath.text
  ExceptT.mk (pure outcome.result)

/-- Writes the binary first. -/
def deliver (image : Image) : ExceptT Failure m Unit := do
  store files job.binary image.binary
  store files job.includeFile (IncludeFile.text image.directives).toUTF8.toList

/-- Warnings are shown also where a file cannot be written. -/
def run : m Ending := do
  match ← (job.compile files).run with
  | .error e => return ⟨1, "", complaint e⟩
  | .ok compiled =>
    match ← (job.deliver files compiled.image).run with
    | .error e => return ⟨1, "", compiled.warnings.text ++ complaint e⟩
    | .ok () => return ⟨0, "", compiled.warnings.text⟩

end Job

def run (args : List String) : m Ending :=
  match Command.ofArguments args with
  | .version => pure ⟨0, version, ""⟩
  | .help => pure ⟨0, "", usage⟩
  | .misuse => pure ⟨1, "", usage⟩
  | .compile job => job.run files

end Steps

end Cartridge.CommandLine
