/-!
# Document values

What a document holds before its shape is checked.  The entries of a table are ordered.
-/

namespace Cartridge.Document

/-- No field of a project takes a float, so floats keep their spelling.  A number `outOfRange` is one
that cannot be represented at all. -/
inductive Value where
  | null
  | boolean (b : Bool)
  | integer (n : Int)
  | float (spelling : String)
  | outOfRange (spelling : String)
  | text (s : String)
  | list (items : List Value)
  | table (entries : List (String × Value))
deriving Inhabited, Repr

namespace Value

/-- The value of the first entry with a key. -/
def lookup? (entries : List (String × Value)) (key : String) : Option Value :=
  (entries.find? fun e => e.1 == key).map Prod.snd

/-- The entry of a table; `null` where there is none. -/
def get (v : Value) (key : String) : Value :=
  match v with
  | table entries => (lookup? entries key).getD null
  | _ => null

mutual

/-- Whether every number in a value can be represented. -/
def isReadable : Value → Bool
  | outOfRange _ => false
  | list items => areReadable items
  | table entries => haveReadable entries
  | _ => true

def areReadable : List Value → Bool
  | [] => true
  | v :: vs => isReadable v && areReadable vs

def haveReadable : List (String × Value) → Bool
  | [] => true
  | (_, v) :: es => isReadable v && haveReadable es

end

end Value

end Cartridge.Document
