import Cartridge.Text.Numeral
import Cartridge.Text.Unprintable

/-!
# Quoted text

Text between double quotes, with escapes for the quote, the backslash, the usual controls and every
character without a printed form of its own.
-/

namespace Cartridge.Text

def escape (c : Char) : String :=
  if c = '"' then "\\\""
  else if c = '\\' then "\\\\"
  else if c = '\x00' then "\\0"
  else if c = '\t' then "\\t"
  else if c = '\r' then "\\r"
  else if c = '\n' then "\\n"
  else if isUnprintable c then "\\u\x7b" ++ hex 1 c.toNat ++ "\x7d"
  else String.ofList [c]

def quoted (cs : List Char) : String :=
  "\"" ++ String.join (cs.map escape) ++ "\""

end Cartridge.Text
