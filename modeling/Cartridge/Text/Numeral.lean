/-!
# Integers in text

`integer?` reads a decimal or hexadecimal integer with at most one leading minus sign and a
magnitude of at most `maxMagnitude`; `hex` and `hexUpper` write a number with at least the given
count of hexadecimal digits.
-/

namespace Cartridge.Text

def isHexDigit (c : Char) : Bool :=
  c.isDigit || ('a' ≤ c && c ≤ 'f') || ('A' ≤ c && c ≤ 'F')

/-- The value of a decimal or hexadecimal digit. -/
def digitValue (c : Char) : Nat :=
  if c.isDigit then c.toNat - 48 else if 'a' ≤ c then c.toNat - 87 else c.toNat - 55

/-- The number that digits denote, the most significant first. -/
def ofDigits (base : Nat) (digits : List Char) : Nat :=
  digits.foldl (fun n d => n * base + digitValue d) 0

/-- The largest value of a signed 64-bit integer. -/
def maxMagnitude : Nat := 0x7FFFFFFFFFFFFFFF

/-- Refuses an empty list of digits, a character that is no digit, and a number that is too large. -/
def digits? (base : Nat) (isDigit : Char → Bool) (digits : List Char) : Option Nat :=
  if digits.isEmpty || !digits.all isDigit then none
  else
    let n := ofDigits base digits
    if n ≤ maxMagnitude then some n else none

def magnitude? : List Char → Option Nat
  | '0' :: 'x' :: digits => digits? 16 isHexDigit digits
  | '0' :: 'X' :: digits => digits? 16 isHexDigit digits
  | digits => digits? 10 Char.isDigit digits

def integer? (text : String) : Option Int :=
  match text.toList with
  | '-' :: rest => (magnitude? rest).map fun n => -(n : Int)
  | rest => (magnitude? rest).map Int.ofNat

def hex (width n : Nat) : String :=
  String.ofList ((Nat.toDigits 16 n).leftpad width '0')

def hexUpper (width n : Nat) : String :=
  String.ofList (((Nat.toDigits 16 n).map Char.toUpper).leftpad width '0')

end Cartridge.Text
