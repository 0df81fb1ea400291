import Cartridge.Script.Lexer
import Cartridge.Script.Parser

/-!
# Script text

`ofText?` reads a script from its text.  Its errors name the place by line and column.
-/

namespace Cartridge.Script

inductive SourceError where
  | lex (cause : LexError)
  | parse (cause : ParseError)
deriving DecidableEq, Repr

namespace SourceError

def span : SourceError → Span
  | lex cause => cause.span
  | parse cause => cause.span

/-- The line and column at which the error starts. -/
def place (text : List Char) (e : SourceError) : String :=
  ((Position.at? text e.span.start).map Position.label).getD ""

def message (text : List Char) (e : SourceError) : String :=
  match e with
  | lex cause => s!"{cause.message} at {e.place text}"
  | parse cause => cause.messageAt (e.place text)

end SourceError

def ofText? (text : List Char) : Except SourceError (List Node) :=
  match tokens text with
  | .error e => .error (.lex e)
  | .ok ts =>
    match parse ts with
    | .error e => .error (.parse e)
    | .ok nodes => .ok nodes

end Cartridge.Script
