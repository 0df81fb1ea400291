/-!
# Paths

A path is a text that slashes cut into segments.  Empty segments and dots name nothing, but for an
empty segment in front of a slash, which is the root, and a dot in front, which is the current
directory.  `relativeTo` writes a path as seen from a directory above it, and `withExtension` gives
the name of a file that belongs to another.  Both leave out what stands behind the last component,
unless they give the path back as it is.
-/

namespace Cartridge.CommandLine

/-- What stands between two slashes. -/
abbrev Segment := List Char

def splitAtSlash (cs : List Char) : List Segment :=
  cs.foldr (fun c segments =>
    if c = '/' then [] :: segments
    else
      match segments with
      | [] => [[c]]
      | s :: rest => (c :: s) :: rest) [[]]

theorem splitAtSlash_cons (c : Char) (cs : List Char) :
    splitAtSlash (c :: cs) =
      if c = '/' then [] :: splitAtSlash cs
      else
        match splitAtSlash cs with
        | [] => [[c]]
        | s :: rest => (c :: s) :: rest := rfl

theorem splitAtSlash_ne_nil (cs : List Char) : splitAtSlash cs ≠ [] := by
  cases cs with
  | nil => exact List.cons_ne_nil _ _
  | cons c cs =>
    rw [splitAtSlash_cons]
    split
    · exact List.cons_ne_nil _ _
    · split <;> exact List.cons_ne_nil _ _

/-- A move from one directory to another. -/
inductive Component where
  | root
  | current
  | parent
  | name (s : Segment)
deriving DecidableEq, Repr

/-- The component that a segment after the first one names. -/
def Component.ofSegment? (s : Segment) : Option Component :=
  if s = [] ∨ s = ['.'] then none
  else if s = ['.', '.'] then some parent
  else some (name s)

/-- The component that the first segment names, with the segments after it. -/
def Component.ofFirst? (s : Segment) (rest : List Segment) : Option Component :=
  if s = [] then if rest = [] then none else some root
  else if s = ['.'] then some current
  else ofSegment? s

/-- A segment with the component that it names. -/
abbrev Step := Segment × Option Component

structure Path where
  text : String
deriving DecidableEq, Repr

namespace Path

def ofSegments (segments : List Segment) : Path :=
  ⟨String.ofList (List.intercalate ['/'] segments)⟩

def segments (p : Path) : List Segment := splitAtSlash p.text.toList

def steps (p : Path) : List Step :=
  match p.segments with
  | [] => []
  | s :: rest => (s, Component.ofFirst? s rest) :: rest.map fun s => (s, Component.ofSegment? s)

def components (p : Path) : List Component := p.steps.filterMap Prod.snd

/-- The components of the directory that holds a file.  The root and the empty path are held by
none. -/
def holder? (p : Path) : Option (List Component) :=
  match p.components.getLast? with
  | none => none
  | some .root => none
  | some _ => some p.components.dropLast

/-- The steps up to the last one that names a component. -/
def trimEnd (steps : List Step) : List Step :=
  (steps.reverse.dropWhile fun step => step.2.isNone).reverse

/-- The path that takes the steps.  The root alone is written as a slash. -/
def ofSteps (steps : List Step) : Path :=
  if steps.map Prod.snd = [some .root] then ⟨"/"⟩ else ofSegments (steps.map Prod.fst)

/-- The steps after those that name the given components, from the first that names one. -/
def after? : List Component → List Step → Option (List Step)
  | [], steps => some (steps.dropWhile fun step => step.2.isNone)
  | _ :: _, [] => none
  | cs, (_, none) :: steps => after? cs steps
  | c :: cs, (_, some d) :: steps => if c = d then after? cs steps else none

/-- The path as seen from a directory, where its components begin with those of the directory.
Every other path stays as it is. -/
def relativeTo (p : Path) (base : List Component) : Path :=
  (after? base p.steps).elim p fun steps => ofSteps (trimEnd steps)

/-- The part of a name before its last dot, unless that dot comes first. -/
def stem? (s : Segment) : Option Segment :=
  match (s.reverse.dropWhile (· ≠ '.')).drop 1 with
  | [] => none
  | cs => some cs.reverse

/-- Puts an extension in the place of the last one. -/
def extend (extension : String) (s : Segment) : Segment :=
  (stem? s).getD s ++ '.' :: extension.toList

/-- The path with another extension, if it ends with a name.  Where that name is the last segment
and its stem is a single dot, it loses its extension and gets none. -/
def withExtension (p : Path) (extension : String) : Path :=
  let steps := trimEnd p.steps
  let front := steps.dropLast.map Prod.fst
  match steps.getLast? with
  | some (s, some (.name _)) =>
    if stem? s = some ['.'] ∧ steps.length = p.steps.length then ofSegments (front ++ [['.', '.']])
    else ofSegments (front ++ [extend extension s])
  | _ => p

end Path

end Cartridge.CommandLine
