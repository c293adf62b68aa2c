/-!
# Decimal numbers

Numbers are written with the digits 0 to 9 and no sign. A number is read from one or more digits
with a plus sign in front of them or not, and only if it fits into a machine word of 64 bits.

Numbers that are counted up to are held in such words too. A counter that runs past the largest one
starts again from zero (`wrap`).
-/

namespace RootCause.Text

/-- One more than the largest number a machine word holds. -/
def wordSize : Nat := Nat.pow 2 64

/-- The largest number a machine word holds. -/
def wordMax : Nat := wordSize - 1

/-- What a machine word holds of a number. -/
def wrap (n : Nat) : Nat := n % wordSize

theorem wrap_lt (n : Nat) : wrap n < wordSize := Nat.mod_lt n (by decide)

theorem wrap_of_lt {n : Nat} (h : n < wordSize) : wrap n = n := Nat.mod_eq_of_lt h

theorem wrap_le (n : Nat) : wrap n ≤ n := Nat.mod_le n wordSize

/-- A counter comes to the same where it is held in a word on the way. -/
theorem wrap_wrap_add (m n : Nat) : wrap (wrap m + n) = wrap (m + n) := Nat.mod_add_mod m wordSize n

/-- The value of a decimal digit. -/
def digit? (c : Char) : Option Nat :=
  if '0' ≤ c ∧ c ≤ '9' then some (c.toNat - '0'.toNat) else none

/-- The value of a run of decimal digits that follows digits of the value `acc`. -/
def digitsFrom? (acc : Nat) : List Char → Option Nat
  | [] => some acc
  | c :: s => (digit? c).bind fun d => digitsFrom? (acc * 10 + d) s

/-- The value of a text of one or more decimal digits. -/
def digits? (s : List Char) : Option Nat :=
  if s.isEmpty then none else digitsFrom? 0 s

/-- The number a text names: digits after an optional plus sign, below `2 ^ 64`. -/
def number? (s : List Char) : Option Nat :=
  let body := match s with
    | '+' :: rest => rest
    | _ => s
  (digits? body).filter (· < wordSize)

theorem lt_of_number? {s : List Char} {n : Nat} (h : number? s = some n) : n < wordSize := by
  unfold number? at h
  exact of_decide_eq_true (Option.filter_eq_some_iff.mp h).2

/-- The decimal digits of a number, without leading zeros. -/
def decimal (n : Nat) : List Char :=
  Nat.toDigits 10 n

end RootCause.Text
