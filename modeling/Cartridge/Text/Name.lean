/-!
# Names

A name is a letter or an underscore followed by letters, digits and underscores, all of them ASCII.
-/

namespace Cartridge.Text

def isNameStart (c : Char) : Bool := c.isAlpha || c == '_'

def isNameRest (c : Char) : Bool := c.isAlphanum || c == '_'

def isName (name : String) : Bool :=
  match name.toList with
  | [] => false
  | c :: cs => isNameStart c && cs.all isNameRest

end Cartridge.Text
