import Cartridge.CommandLine.Run

/-!
# A folder in memory

A working directory with all that is in it.  What lies outside is not seen: directories there can be
passed, but no name in them is found.
-/

namespace Cartridge.CommandLine

inductive Location where
  | inside (names : List Segment)
  | outside
deriving DecidableEq, Repr

structure Folder where
  /-- Every directory below the working directory. -/
  directories : List (List Segment)
  files : List (List Segment × Bytes)
deriving Repr

namespace Folder

def empty : Folder := ⟨[], []⟩

variable (f : Folder)

def isDirectory : Location → Bool
  | .inside names => names = [] || f.directories.contains names
  | .outside => true

def file? : Location → Option Bytes
  | .inside names => (f.files.find? fun e => e.1 = names).map Prod.snd
  | .outside => none

/-- Why a location cannot be passed or read as a file. -/
def hindrance (l : Location) : FileError :=
  if f.isDirectory l then .isDirectory
  else if (f.file? l).isSome then .notDirectory
  else .notFound

/-- Moves from one directory to what it holds. -/
def move (l : Location) (c : Component) : Except FileError Location :=
  if f.isDirectory l then
    match c, l with
    | .root, _ => .ok .outside
    | .current, l => .ok l
    | .parent, .inside names => .ok (if names = [] then .outside else .inside names.dropLast)
    | .parent, .outside => .ok .outside
    | .name s, .inside names => .ok (.inside (names ++ [s]))
    | .name _, .outside => .error .notFound
  else .error (f.hindrance l)

/-- The location of a path, which need not exist; the directories before it do. -/
def locate (p : Path) : Except FileError Location :=
  if p.text = "" then .error .notFound else p.components.foldlM f.move (.inside [])

/-- Whether a path can only name a directory. -/
def wantsDirectory (p : Path) : Bool :=
  p.segments.getLast? == some [] || p.segments.getLast? == some ['.']

def readText (p : Path) : Except FileError String := do
  let l ← f.locate p
  match f.file? l with
  | none => .error (f.hindrance l)
  | some data =>
    if wantsDirectory p then .error .notDirectory
    else
      match String.fromUTF8? ⟨data.toArray⟩ with
      | none => .error .notText
      | some text => .ok text

/-- Writes a file in a directory that exists. -/
def put (names : List Segment) (data : Bytes) : Folder :=
  { f with files := f.files.filter (fun e => e.1 ≠ names) ++ [(names, data)] }

/-- A directory and those above it. -/
def addDirectory (names : List Segment) : Folder :=
  { f with
    directories := f.directories ++ (List.range names.length).map fun n => names.take (n + 1) }

def writeBytes (p : Path) (data : Bytes) : Except FileError Folder := do
  match ← f.locate p with
  | .outside => .error .isDirectory
  | .inside names =>
    if f.isDirectory (.inside names) || p.segments.getLast? == some [] then .error .isDirectory
    else if wantsDirectory p then .error (f.hindrance (.inside names))
    else .ok (f.put names data)

/-- Runs read and write a folder that is their state. -/
def access : Files (StateM Folder) where
  read p := do return (← get).readText p
  write p data := do
    match (← get).writeBytes p data with
    | .error e => return .error e
    | .ok f => set f; return .ok ()

/-- The files that another folder lacks or holds with other contents. -/
def changesSince (old : Folder) : List (List Segment × Bytes) :=
  f.files.filter fun e => old.file? (.inside e.1) ≠ some e.2

end Folder

end Cartridge.CommandLine
