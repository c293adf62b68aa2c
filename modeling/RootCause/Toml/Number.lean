import RootCause.Json.Token
import RootCause.Toml.Scan

/-!
# TOML numbers and dates

Integers of 64 bits with a sign, in four bases; floating-point numbers; dates, times and both.
Digits may have single underscores between them, and a decimal number does not start with a zero
that it does not need.
-/

namespace RootCause.Toml

/-- Whether a character is a decimal digit. -/
def isDigit (c : Char) : Bool := '0' ≤ c && c ≤ '9'

/-- One or more digits with single underscores between them, without the underscores. -/
def digitRun (isDigit : Char → Bool) : Scan (List Char) := do
  let first ← Scan.satisfying isDigit
  let rest ← Scan.many do
    let _ ← Scan.optional (Scan.char '_')
    Scan.satisfying isDigit
  return first :: rest

/-- The number that digits in some base name. -/
def valueIn (base : Nat) (digits : List Char) : Nat :=
  digits.foldl (fun v c => v * base + (Json.hexValue? c).getD 0) 0

/-- Whether a number is negative. -/
def sign : Scan Bool :=
  (do Scan.char '-'; return true) <|> (do Scan.char '+'; return false) <|> pure false

/-- A decimal number without a sign. -/
def decimalDigits : Scan (List Char) := do
  let digits ← digitRun isDigit
  if digits.head? = some '0' ∧ digits ≠ ['0'] then failure else return digits

/-! ## Integers -/

/-- The integer as a number value, if 64 bits are enough for it. -/
def integerValue (negative : Bool) (n : Nat) : Scan Json :=
  if negative then
    if n = 0 then return .ofNat 0
    else if n ≤ Nat.pow 2 63 then return .num s!"-{n}"
    else failure
  else if n < Nat.pow 2 63 then return .ofNat n
  else failure

/-- An integer in another base than ten. -/
def integerIn (base : Nat) (letter : Char) (isDigit : Char → Bool) : Scan Json := do
  Scan.text ['0', letter]
  integerValue false (valueIn base (← digitRun isDigit))

/-- An integer. -/
def integer : Scan Json :=
  integerIn 16 'x' (fun c => (Json.hexValue? c).isSome) <|>
  integerIn 8 'o' (fun c => '0' ≤ c && c ≤ '7') <|>
  integerIn 2 'b' (fun c => c == '0' || c == '1') <|> do
    let negative ← sign
    integerValue negative (valueIn 10 (← decimalDigits))

/-! ## Floating-point numbers -/

/-- Whether `digits` times a power of ten rounds to a finite number of 64 bits. -/
def isFinite (digits : List Char) (exponent : Int) : Bool :=
  let n := valueIn 10 digits
  let bound := Nat.pow 2 1024 - Nat.pow 2 970
  if n = 0 then true
  else if 400 < exponent then false
  else if 0 ≤ exponent then decide (n * Nat.pow 10 exponent.toNat < bound)
  else if digits.length ≤ (-exponent).toNat then true
  else decide (n < bound * Nat.pow 10 (-exponent).toNat)

/-- The exponent of a number. -/
def exponent : Scan Int := do
  let _ ← Scan.satisfying fun c => c == 'e' || c == 'E'
  let negative ← sign
  let n := valueIn 10 (← digitRun isDigit)
  return if negative then -(n : Int) else n

/-- The digits after the point of a number. -/
def fraction : Scan (List Char) := do
  Scan.char '.'
  digitRun isDigit

/-- A floating-point number with digits. One that is too large is refused if it is positive. -/
def floatDigits : Scan Json := do
  let negative ← sign
  let whole ← decimalDigits
  let fractionDigits ← Scan.optional fraction
  let power ← Scan.optional exponent
  if fractionDigits.isNone ∧ power.isNone then failure
  let after := fractionDigits.getD []
  let e := power.getD 0
  if !negative && !isFinite (whole ++ after) (e - after.length) then failure
  let minus := if negative then "-" else ""
  return .num (minus ++ String.ofList (whole ++ '.' :: after) ++ s!"e{e}")

/-- A number that is infinite or none at all. -/
def specialFloat : Scan Json := do
  let _ ← sign
  (do Scan.text "inf".toList; return .num "inf") <|> (do Scan.text "nan".toList; return .num "nan")

/-! ## Dates and times -/

/-- A number of exactly `n` digits between two bounds. -/
def field (n low high : Nat) : Scan Nat := do
  let v := valueIn 10 (← Scan.exactly isDigit n)
  if low ≤ v ∧ v ≤ high then return v else failure

/-- The number of days of a month. -/
def daysIn (year month : Nat) : Nat :=
  if month = 2 then
    if year % 4 = 0 ∧ (year % 100 ≠ 0 ∨ year % 400 = 0) then 29 else 28
  else if month = 4 ∨ month = 6 ∨ month = 9 ∨ month = 11 then 30
  else 31

/-- A date. -/
def date : Scan Unit := do
  let year ← field 4 0 9999
  Scan.char '-'
  let month ← field 2 1 12
  Scan.char '-'
  let _ ← field 2 1 (daysIn year month)

/-- A time of the day. -/
def time : Scan Unit := do
  let _ ← field 2 0 23
  Scan.char ':'
  let _ ← field 2 0 59
  Scan.char ':'
  let _ ← field 2 0 60
  let _ ← Scan.optional do
    Scan.char '.'
    Scan.run1 isDigit

/-- The offset of a time zone. -/
def zone : Scan Unit :=
  (do let _ ← Scan.satisfying fun c => c == 'Z' || c == 'z') <|> do
    let _ ← Scan.satisfying fun c => c == '+' || c == '-'
    let _ ← field 2 0 23
    Scan.char ':'
    let _ ← field 2 0 59

/-- A date, a time or both. -/
def dateOrTime : Scan Unit :=
  (do
    date
    let _ ← Scan.optional do
      let _ ← Scan.satisfying fun c => c == 'T' || c == 't' || c == ' '
      time
      Scan.optional zone) <|>
  time

/-- The name of the only member of the object that stands for a date. -/
def dateMember : String := "$date"

/-- A date or time as an object with its text. -/
def dateValue : Scan Json := do
  let before ← get
  dateOrTime
  let after ← get
  return .ofMembers
    [(dateMember, .ofString (String.ofList (before.take (before.length - after.length))))]

/-- A number or a date. -/
def number : Scan Json := dateValue <|> floatDigits <|> integer

end RootCause.Toml
