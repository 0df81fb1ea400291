import Cartridge.CommandLine.Run

/-!
# The program

Runs a command on the files of the disk.
-/

namespace Cartridge.CommandLine

/-- The system's text for an error, with its number. -/
def systemError (code : UInt32) (details : String) : FileError :=
  .other s!"{details} (os error {code})"

def fileError : IO.Error → FileError
  | .noFileOrDirectory .. => .notFound
  | .inappropriateType _ code details => systemError code details
  | .permissionDenied _ code details => systemError code details
  | .resourceExhausted _ code details => systemError code details
  | .otherError code details => systemError code details
  | e => .other e.toString

/-- The files of the disk. -/
def disk : Files IO where
  read p := do
    try
      return (String.fromUTF8? (← IO.FS.readBinFile p.text)).elim (.error .notText) .ok
    catch e => return .error (fileError e)
  write p data := do
    try
      IO.FS.writeBinFile p.text ⟨data.toArray⟩
      return .ok ()
    catch e => return .error (fileError e)

end Cartridge.CommandLine

def main (args : List String) : IO UInt32 := do
  let ending ← Cartridge.CommandLine.run Cartridge.CommandLine.disk args
  IO.print ending.output
  IO.eprint ending.complaints
  return ending.exitCode
