import Cartridge.Text.Numeral

/-!
# The include file

The text by which an assembler links the binary image: constants, and for every bank a namespace
with the place of its data in the image.
-/

namespace Cartridge

inductive Directive where
  | raw (line : String)
  | blank
  | constant (name : String) (value : Int)
  | address (name : String) (value : Nat)
  | openNamespace (name : String)
  | closeNamespace
  | assertCounter (value : Nat)
  | insert (path : String) (offset length : Nat)
deriving DecidableEq, Repr

namespace Directive

/-- The text of a directive without indentation and line end. -/
def line : Directive → String
  | raw line => line
  | blank => ""
  | constant name value => s!"constant {name} = {value}"
  | address name value => s!"constant {name} = 0x{Text.hex 6 value}"
  | openNamespace name => s!"namespace {name} \x7b"
  | closeNamespace => "\x7d"
  | assertCounter value => s!"assert(pc() == 0x{Text.hex 6 value})"
  | insert path offset length => s!"insert \"{path}\", {offset}, {length}"

/-- The indentation of a directive inside `depth` namespaces; a blank line has none. -/
def indentation (depth : Nat) : Directive → Nat
  | blank => 0
  | closeNamespace => depth - 1
  | _ => depth

/-- The number of open namespaces behind a directive. -/
def depthAfter (depth : Nat) : Directive → Nat
  | openNamespace _ => depth + 1
  | closeNamespace => depth - 1
  | _ => depth

end Directive

namespace IncludeFile

/-- The lines of directives inside `depth` namespaces. -/
def lines (depth : Nat) : List Directive → List String
  | [] => []
  | d :: ds =>
    (String.join (List.replicate (d.indentation depth) "  ") ++ d.line) ::
      lines (d.depthAfter depth) ds

def text (directives : List Directive) : String :=
  String.join ((lines 0 directives).map (· ++ "\n"))

end IncludeFile

end Cartridge
