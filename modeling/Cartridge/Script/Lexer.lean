import Cartridge.Script.Token
import Cartridge.Text.Blank
import Cartridge.Text.Name
import Cartridge.Text.Numeral
import Cartridge.Text.Quoted

/-!
# From text to tokens

`lexeme?` finds the longest token at the start of a text.  The kinds of tokens start with different
characters, so at most one kind applies.  `tokens` cuts a whole text into tokens, leaving out spaces,
tabs, line ends and form feeds, and stops at the first character where no token starts.
-/

namespace Cartridge.Script

open Text

/-- A token with the characters it was read from. -/
abbrev Lexeme := Token × List Char

def isSkipped (c : Char) : Bool :=
  c == ' ' || c == '\t' || c == '\r' || c == '\n' || c == '\x0c'

/-- The digits of `0x` notation at the start of a text, mark included. -/
def hexadecimalPart : List Char → List Char
  | '0' :: 'x' :: cs =>
    match cs.takeWhile isHexDigit with
    | [] => []
    | digits => '0' :: 'x' :: digits
  | _ => []

def unsignedPart (cs : List Char) : List Char :=
  match hexadecimalPart cs with
  | [] => cs.takeWhile Char.isDigit
  | part => part

/-- The longest number at the start of a text, empty if there is none. -/
def numberPart : List Char → List Char
  | '-' :: cs =>
    match unsignedPart cs with
    | [] => []
    | part => '-' :: part
  | cs => unsignedPart cs

def number? (cs : List Char) : Option Lexeme :=
  match numberPart cs with
  | [] => none
  | part => some (.number (String.ofList part), part)

def symbol? (cs : List Char) : Option Lexeme :=
  (Symbol.all.find? fun s => s.spelling.isPrefixOf cs).map fun s => (.symbol s, s.spelling)

/-- A comment runs to the end of its line. -/
def comment? : List Char → Option Lexeme
  | '/' :: '/' :: cs =>
    let body := cs.takeWhile (· != '\n')
    some (.comment (String.ofList (trim body)), '/' :: '/' :: body)
  | _ => none

/-- A keyword is never read as a name. -/
def wordToken (spelling : String) : Token :=
  match Keyword.ofSpelling? spelling with
  | some k => .keyword k
  | none => .name spelling

def word? : List Char → Option Lexeme
  | [] => none
  | c :: cs =>
    if isNameStart c then
      let part := c :: cs.takeWhile isNameRest
      some (wordToken (String.ofList part), part)
    else none

def lexeme? (cs : List Char) : Option Lexeme :=
  word? cs <|> number? cs <|> symbol? cs <|> comment? cs

/-- The character at which no token starts. -/
structure LexError where
  character : Char
  span : Span
deriving DecidableEq, Repr

def LexError.message (e : LexError) : String :=
  "unexpected character: " ++ quoted [e.character]

/-- The tokens of a text that starts at the byte `offset`.  A lexeme has at least the one character
that starts it. -/
def tokensFrom (offset : Nat) : List Char → Except LexError (List Located)
  | [] => .ok []
  | c :: cs =>
    if isSkipped c then tokensFrom (offset + c.utf8Size) cs
    else
      match lexeme? (c :: cs) with
      | none => .error ⟨c, offset, offset + c.utf8Size⟩
      | some (token, part) =>
        let stop := offset + byteLength part
        (tokensFrom stop (cs.drop (part.length - 1))).map (⟨token, offset, stop⟩ :: ·)
termination_by cs => cs.length

def tokens (text : List Char) : Except LexError (List Located) := tokensFrom 0 text

end Cartridge.Script
