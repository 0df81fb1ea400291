import Cartridge.Script.Position

/-!
# Tokens of script text
-/

namespace Cartridge.Script

inductive Keyword where
  | ifWord
  | elseWord
  | whileWord
  | flagWord
  | wordWord
  | setWord
  | clearWord
deriving DecidableEq, Repr

namespace Keyword

def all : List Keyword :=
  [ifWord, elseWord, whileWord, flagWord, wordWord, setWord, clearWord]

def spelling : Keyword → String
  | ifWord => "if"
  | elseWord => "else"
  | whileWord => "while"
  | flagWord => "flag"
  | wordWord => "word"
  | setWord => "set"
  | clearWord => "clear"

def ofSpelling? (text : String) : Option Keyword :=
  all.find? fun k => k.spelling == text

theorem mem_all (k : Keyword) : k ∈ all := by
  cases k <;> decide

end Keyword

inductive Symbol where
  | equal
  | notEqual
  | less
  | greaterEqual
  | openBrace
  | closeBrace
  | semicolon
deriving DecidableEq, Repr

namespace Symbol

def all : List Symbol :=
  [equal, notEqual, less, greaterEqual, openBrace, closeBrace, semicolon]

def spelling : Symbol → List Char
  | equal => ['=', '=']
  | notEqual => ['!', '=']
  | less => ['<']
  | greaterEqual => ['>', '=']
  | openBrace => ['\x7b']
  | closeBrace => ['\x7d']
  | semicolon => [';']

theorem mem_all (s : Symbol) : s ∈ all := by
  cases s <;> decide

end Symbol

/-- Numbers keep their spelling, and comments the trimmed text behind the slashes. -/
inductive Token where
  | keyword (k : Keyword)
  | symbol (s : Symbol)
  | number (spelling : String)
  | name (spelling : String)
  | comment (text : String)
deriving DecidableEq, Repr

/-- How messages name a token. -/
def Token.label : Token → String
  | keyword k => s!"keyword '{k.spelling}'"
  | symbol s => s!"'{String.ofList s.spelling}'"
  | number spelling => s!"number {spelling}"
  | name spelling => s!"identifier '{spelling}'"
  | comment _ => "comment"

structure Located where
  token : Token
  span : Span
deriving DecidableEq, Repr

end Cartridge.Script
