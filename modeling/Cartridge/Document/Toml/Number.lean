import Cartridge.Document.Value
import Cartridge.Text.Numeral

/-!
# Numbers and dates in TOML

The values that are written without quotes or brackets.  Each is read from the whole of its spelling.
-/

namespace Cartridge.Document.Toml

open Text

/-! ### Numbers -/

/-- Digits without the underscores that stand between them; there is at least one digit. -/
def ungroup? (isDigit : Char → Bool) : List Char → Option (List Char)
  | [] => none
  | [c] => if isDigit c then some [c] else none
  | c :: '_' :: cs => if isDigit c then (ungroup? isDigit cs).map (c :: ·) else none
  | c :: cs => if isDigit c then (ungroup? isDigit cs).map (c :: ·) else none

/-- Decimal digits with no zero in front of others. -/
def whole? (cs : List Char) : Option (List Char) :=
  match ungroup? Char.isDigit cs with
  | some ('0' :: _ :: _) => none
  | digits? => digits?

def dropSign : List Char → List Char
  | '+' :: cs => cs
  | '-' :: cs => cs
  | cs => cs

/-- The number that digits stand for. -/
def numberIn? (base : Nat) (isDigit : Char → Bool) (cs : List Char) : Option Int :=
  (ungroup? isDigit cs).map fun digits => ofDigits base digits

def isOctal (c : Char) : Bool := '0' ≤ c && c ≤ '7'

def isBinary (c : Char) : Bool := c == '0' || c == '1'

/-- The number of an integer's spelling. -/
def integer? : List Char → Option Int
  | '0' :: 'x' :: digits => numberIn? 16 isHexDigit digits
  | '0' :: 'o' :: digits => numberIn? 8 isOctal digits
  | '0' :: 'b' :: digits => numberIn? 2 isBinary digits
  | '-' :: digits => (whole? digits).map fun ds => -(ofDigits 10 ds : Int)
  | cs => (whole? (dropSign cs)).map fun ds => (ofDigits 10 ds : Int)

/-- Integers have 128 bits, signed or not. -/
def isIntegerRange (n : Int) : Bool :=
  -0x80000000000000000000000000000000 ≤ n && n < 0x100000000000000000000000000000000

/-! ### Floats -/

/-- The number `digits * 10 ^ exponent`. -/
structure Decimal where
  digits : List Char
  exponent : Int

def isExponentMark (c : Char) : Bool := c == 'e' || c == 'E'

/-- The digits behind a point, if there is one. -/
def fraction? : List Char → Option (List Char)
  | [] => some []
  | _ :: digits => ungroup? Char.isDigit digits

/-- The number behind an exponent mark, if there is one. -/
def exponent? : List Char → Option Int
  | [] => some 0
  | _ :: '-' :: digits => (ungroup? Char.isDigit digits).map fun ds => -(ofDigits 10 ds : Int)
  | _ :: cs => (ungroup? Char.isDigit (dropSign cs)).map fun ds => (ofDigits 10 ds : Int)

/-- The magnitude of a float: an integer with a fraction, an exponent or both. -/
def decimal? (cs : List Char) : Option Decimal :=
  let mantissa := cs.takeWhile fun c => !isExponentMark c
  let exponent := cs.dropWhile fun c => !isExponentMark c
  let fraction := mantissa.dropWhile (· != '.')
  if fraction.isEmpty && exponent.isEmpty then none
  else
    match whole? (mantissa.takeWhile (· != '.')), fraction? fraction, exponent? exponent with
    | some integral, some fraction, some exponent =>
      some ⟨integral ++ fraction, exponent - fraction.length⟩
    | _, _, _ => none

/-- The least number that is rounded to infinity: half a unit above the largest float. -/
def floatLimit : Nat := 0x3FFFFFFFFFFFFF <<< 970

/-- Whether a number is below `floatLimit`, which has 309 digits. -/
def Decimal.isFinite (d : Decimal) : Bool :=
  let digits := d.digits.dropWhile (· == '0')
  let length : Int := digits.length + d.exponent
  if digits.isEmpty || length < 309 then true
  else if 309 < length then false
  else
    ofDigits 10 digits * Nat.pow 10 d.exponent.toNat < floatLimit * Nat.pow 10 (-d.exponent).toNat

/-- A float is a decimal number or one of the special values. -/
def float? (cs : List Char) : Option Value :=
  let unsigned := dropSign cs
  let spelling := String.ofList cs
  if unsigned == ['i', 'n', 'f'] || unsigned == ['n', 'a', 'n'] then some (.float spelling)
  else
    (decimal? unsigned).map fun d =>
      if d.isFinite then .float spelling else .outOfRange spelling

/-! ### Dates -/

def isLeapYear (year : Nat) : Bool := (year % 4 == 0 && year % 100 != 0) || year % 400 == 0

def daysIn (year month : Nat) : Nat :=
  if month = 2 then (if isLeapYear year then 29 else 28)
  else if month = 4 ∨ month = 6 ∨ month = 9 ∨ month = 11 then 30
  else 31

/-- The number in a field of digits. -/
def digitField? (cs : List Char) : Option Nat :=
  if cs.all Char.isDigit then some (ofDigits 10 cs) else none

def isFieldUpTo (max : Nat) (cs : List Char) : Bool :=
  match digitField? cs with
  | some n => n ≤ max
  | none => false

/-- Whether the characters are a day of the calendar, `yyyy-mm-dd`. -/
def isDay : List Char → Bool
  | [y₁, y₂, y₃, y₄, '-', m₁, m₂, '-', d₁, d₂] =>
    match digitField? [y₁, y₂, y₃, y₄], digitField? [m₁, m₂], digitField? [d₁, d₂] with
    | some year, some month, some day =>
      1 ≤ month && month ≤ 12 && 1 ≤ day && day ≤ daysIn year month
    | _, _, _ => false
  | _ => false

/-- The usual form of an offset from universal time, or of no offset.  An offset of zero counts
forward. -/
def offset? : List Char → Option (List Char)
  | [] => some []
  | ['Z'] => some ['Z']
  | ['z'] => some ['Z']
  | [sign, h₁, h₂, ':', m₁, m₂] =>
    if (sign == '+' || sign == '-') && isFieldUpTo 23 [h₁, h₂] && isFieldUpTo 59 [m₁, m₂] then
      let sign := if [h₁, h₂, m₁, m₂].all (· == '0') then '+' else sign
      some [sign, h₁, h₂, ':', m₁, m₂]
    else none
  | _ => none

/-- The usual form of a fraction of a second: nine digits at most, and no zeros at the end. -/
def subsecond (digits : List Char) : List Char :=
  match ((digits.take 9).reverse.dropWhile (· == '0')).reverse with
  | [] => []
  | digits => '.' :: digits

/-- The usual form of what stands behind the seconds: a fraction and an offset. -/
def timeEnd? : List Char → Option (List Char)
  | '.' :: cs =>
    match cs.takeWhile Char.isDigit with
    | [] => none
    | digits => (offset? (cs.dropWhile Char.isDigit)).map (subsecond digits ++ ·)
  | cs => offset? cs

/-- The usual form of a time of day with an offset, `hh:mm:ss`; the seconds may be left out, and they
may have a fraction. -/
def time? : List Char → Option (List Char)
  | h₁ :: h₂ :: ':' :: m₁ :: m₂ :: cs =>
    if isFieldUpTo 23 [h₁, h₂] && isFieldUpTo 59 [m₁, m₂] then
      let minute := [h₁, h₂, ':', m₁, m₂, ':']
      match cs with
      | ':' :: s₁ :: s₂ :: cs =>
        if isFieldUpTo 60 [s₁, s₂] then (timeEnd? cs).map (minute ++ s₁ :: s₂ :: ·) else none
      | cs => (offset? cs).map (minute ++ '0' :: '0' :: ·)
    else none
  | _ => none

/-- Whether the characters hold no day and no offset. -/
def isLocal (cs : List Char) : Bool := cs.all fun c => c.isDigit || c == ':' || c == '.'

/-- The usual form of a day, a time or both; only both together have an offset. -/
def dateText? (cs : List Char) : Option (List Char) :=
  if isLocal cs then time? cs
  else if isDay (cs.take 10) then
    match cs.drop 10 with
    | [] => some cs
    | mark :: time =>
      if mark == 'T' || mark == 't' || mark == ' ' then
        (time? time).map (cs.take 10 ++ 'T' :: ·)
      else none
  else none

/-- The only key of a date. -/
def dateKey : String := "$__toml_private_datetime"

/-- A date is taken for a table with its text under a key of its own. -/
def date? (cs : List Char) : Option Value :=
  (dateText? cs).map fun text => .table [(dateKey, .text (String.ofList text))]

/-- The value with a spelling. -/
def plainValue? (cs : List Char) : Option Value :=
  if cs == ['t', 'r', 'u', 'e'] then some (.boolean true)
  else if cs == ['f', 'a', 'l', 's', 'e'] then some (.boolean false)
  else
    match integer? cs with
    | some n => some (if isIntegerRange n then .integer n else .outOfRange (String.ofList cs))
    | none => (float? cs).or (date? cs)

end Cartridge.Document.Toml
