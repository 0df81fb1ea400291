import Cartridge.Text.Numeral

/-!
# Text in TOML

Strings in their four forms, bare keys, comments and line ends.  A reader takes the text from its
first character on and gives what it read with the text behind it; `none` is a refusal.
-/

namespace Cartridge.Document.Toml

open Text

abbrev Reader (α : Type) := List Char → Option (α × List Char)

def isSpace (c : Char) : Bool := c == ' ' || c == '\t'

/-- Tabs and every character that is no control. -/
def isPlain (c : Char) : Bool := c == '\t' || (0x20 ≤ c.toNat && c.toNat != 0x7F)

def spaces (cs : List Char) : List Char := cs.dropWhile isSpace

/-! ### Line ends and comments -/

/-- The text behind spaces, line ends and comments. -/
def gap (inComment : Bool) : List Char → Option (List Char)
  | [] => some []
  | '\n' :: cs => gap false cs
  | '\r' :: '\n' :: cs => gap false cs
  | c :: cs =>
    if inComment then
      if isPlain c then gap true cs else none
    else if isSpace c then gap false cs
    else if c = '#' then gap true cs
    else some (c :: cs)

/-- The text behind the end of a line, which may hold spaces and a comment. -/
def lineEnd (inComment : Bool) : List Char → Option (List Char)
  | [] => some []
  | '\n' :: cs => some cs
  | '\r' :: '\n' :: cs => some cs
  | c :: cs =>
    if inComment then
      if isPlain c then lineEnd true cs else none
    else if isSpace c then lineEnd false cs
    else if c = '#' then lineEnd true cs
    else none

/-! ### Strings -/

/-- The character with a number written in hexadecimal digits. -/
def scalar? (digits : List Char) : Option Char :=
  if digits.all isHexDigit then
    let n := ofDigits 16 digits
    if n.isValidChar then some (Char.ofNat n) else none
  else none

/-- The characters that a backslash and one letter stand for. -/
def shortEscape? : Char → Option Char
  | 'b' => some '\x08'
  | 'e' => some '\x1b'
  | 't' => some '\t'
  | 'n' => some '\n'
  | 'f' => some '\x0c'
  | 'r' => some '\r'
  | '"' => some '"'
  | '\\' => some '\\'
  | _ => none

/-- The rest of a string between double quotes; `read` holds the characters before it, the latest
first. -/
def basicRest (read : List Char) : Reader String
  | [] => none
  | '"' :: cs => some (String.ofList read.reverse, cs)
  | '\\' :: 'x' :: a :: b :: cs =>
    match scalar? [a, b] with
    | some x => basicRest (x :: read) cs
    | none => none
  | '\\' :: 'u' :: a :: b :: c :: d :: cs =>
    match scalar? [a, b, c, d] with
    | some x => basicRest (x :: read) cs
    | none => none
  | '\\' :: 'U' :: a :: b :: c :: d :: e :: f :: g :: h :: cs =>
    match scalar? [a, b, c, d, e, f, g, h] with
    | some x => basicRest (x :: read) cs
    | none => none
  | '\\' :: c :: cs =>
    match shortEscape? c with
    | some x => basicRest (x :: read) cs
    | none => none
  | c :: cs => if isPlain c then basicRest (c :: read) cs else none

/-- Whether only spaces stand before the end of the line. -/
def endsLine (cs : List Char) : Bool :=
  match spaces cs with
  | '\n' :: _ => true
  | '\r' :: '\n' :: _ => true
  | _ => false

/-- Three quotes end a string of several lines, and up to two before them belong to it. -/
def closing (quote : Char) (read : List Char) (cs : List Char) : String × List Char :=
  let extra := (cs.takeWhile (· == quote)).take 2
  (String.ofList (extra ++ read).reverse, cs.drop extra.length)

/-- The rest of a string between three double quotes.  A backslash at the end of a line takes all
white space behind it away, which is what `folding` stands for. -/
def multilineRest (folding : Bool) (read : List Char) : Reader String
  | [] => none
  | '"' :: '"' :: '"' :: cs => some (closing '"' read cs)
  | '\n' :: cs => multilineRest folding (if folding then read else '\n' :: read) cs
  | '\r' :: '\n' :: cs =>
    multilineRest folding (if folding then read else '\n' :: '\r' :: read) cs
  | '\\' :: 'x' :: a :: b :: cs =>
    match scalar? [a, b] with
    | some x => multilineRest false (x :: read) cs
    | none => none
  | '\\' :: 'u' :: a :: b :: c :: d :: cs =>
    match scalar? [a, b, c, d] with
    | some x => multilineRest false (x :: read) cs
    | none => none
  | '\\' :: 'U' :: a :: b :: c :: d :: e :: f :: g :: h :: cs =>
    match scalar? [a, b, c, d, e, f, g, h] with
    | some x => multilineRest false (x :: read) cs
    | none => none
  | '\\' :: '\n' :: cs => multilineRest true read cs
  | '\\' :: c :: cs =>
    match shortEscape? c with
    | some x => multilineRest false (x :: read) cs
    | none =>
      if (isSpace c || c == '\r') && endsLine (c :: cs) then multilineRest true read cs else none
  | c :: cs =>
    if folding && isSpace c then multilineRest true read cs
    else if isPlain c then multilineRest false (c :: read) cs
    else none

/-- The rest of a string between single quotes, which has no escapes. -/
def literalRest (read : List Char) : Reader String
  | [] => none
  | '\'' :: cs => some (String.ofList read.reverse, cs)
  | c :: cs => if isPlain c then literalRest (c :: read) cs else none

def multilineLiteralRest (read : List Char) : Reader String
  | [] => none
  | '\'' :: '\'' :: '\'' :: cs => some (closing '\'' read cs)
  | '\n' :: cs => multilineLiteralRest ('\n' :: read) cs
  | '\r' :: '\n' :: cs => multilineLiteralRest ('\n' :: '\r' :: read) cs
  | c :: cs => if isPlain c then multilineLiteralRest (c :: read) cs else none

/-- A line end right behind the opening quotes does not belong to the string. -/
def dropLineEnd : List Char → List Char
  | '\n' :: cs => cs
  | '\r' :: '\n' :: cs => cs
  | cs => cs

/-- A string in any form. -/
def string : Reader String
  | '"' :: '"' :: '"' :: cs => multilineRest false [] (dropLineEnd cs)
  | '\'' :: '\'' :: '\'' :: cs => multilineLiteralRest [] (dropLineEnd cs)
  | '"' :: cs => basicRest [] cs
  | '\'' :: cs => literalRest [] cs
  | _ => none

/-! ### Keys -/

def isBareKey (c : Char) : Bool := c.isAlphanum || c == '_' || c == '-'

def key : Reader String
  | '"' :: cs => basicRest [] cs
  | '\'' :: cs => literalRest [] cs
  | cs =>
    match cs.takeWhile isBareKey with
    | [] => none
    | name => some (String.ofList name, cs.dropWhile isBareKey)

/-- At least one key, and at most `limit`, with dots between them. -/
def path : Nat → Reader (List String)
  | 0, _ => none
  | limit + 1, cs =>
    match key cs with
    | none => none
    | some (name, rest) =>
      match spaces rest with
      | '.' :: more =>
        (path limit (spaces more)).map fun (names, rest) => (name :: names, rest)
      | rest => some ([name], rest)

end Cartridge.Document.Toml
