import RootCause.Json.Value

/-!
# JSON tokens

A text is cut into tokens first. Each token takes at least one character off the text
(`length_lt_of_token?`), which is why cutting comes to an end.
-/

namespace RootCause.Json

/-- A token. -/
inductive Token
  | openArray
  | closeArray
  | openObject
  | closeObject
  | comma
  | colon
  /-- A value that is a token by itself: null, a truth value, a number or a string. -/
  | scalar (v : Json)

/-- A character of a string, or the half of a surrogate pair that an escape names. -/
inductive Unit16
  | char (c : Char)
  | half (n : Nat)
  deriving DecidableEq

/-- The value of a hexadecimal digit. -/
def hexValue? (c : Char) : Option Nat :=
  if '0' ≤ c ∧ c ≤ '9' then some (c.toNat - 48)
  else if 'a' ≤ c ∧ c ≤ 'f' then some (c.toNat - 87)
  else if 'A' ≤ c ∧ c ≤ 'F' then some (c.toNat - 55)
  else none

/-- The number that four hexadecimal digits name. -/
def hexValue4? (a b c d : Char) : Option Nat := do
  let a ← hexValue? a
  let b ← hexValue? b
  let c ← hexValue? c
  let d ← hexValue? d
  return ((a * 16 + b) * 16 + c) * 16 + d

/-- What an escape of one letter stands for. -/
def shortEscape? (c : Char) : Option Char :=
  if c = '\x22' ∨ c = '\\' ∨ c = '/' then some c
  else if c = 'b' then some '\x08'
  else if c = 'f' then some '\x0c'
  else if c = 'n' then some '\n'
  else if c = 'r' then some '\r'
  else if c = 't' then some '\t'
  else none

/-- The unit that `\u` and a number stand for. -/
def Unit16.ofNat (n : Nat) : Unit16 :=
  if 0xD800 ≤ n ∧ n ≤ 0xDFFF then .half n else .char (Char.ofNat n)

/-- The units of a string whose opening quote has been read, and the text after its closing quote.
A control character may not stand in a string. -/
def stringUnits? : List Char → Option (List Unit16 × List Char)
  | [] => none
  | '\x22' :: rest => some ([], rest)
  | '\\' :: 'u' :: a :: b :: c :: d :: rest => do
    let n ← hexValue4? a b c d
    let (units, rest) ← stringUnits? rest
    return (.ofNat n :: units, rest)
  | '\\' :: e :: rest => do
    let c ← shortEscape? e
    let (units, rest) ← stringUnits? rest
    return (.char c :: units, rest)
  | c :: rest =>
    if c.toNat < 0x20 ∨ c = '\\' then none
    else do
      let (units, rest) ← stringUnits? rest
      return (.char c :: units, rest)

/-- The text of some units: a high half and the low half after it make one character, and any
other half leaves no text. -/
def joinUnits? : List Unit16 → Option (List Char)
  | [] => some []
  | .char c :: us => (joinUnits? us).map (c :: ·)
  | .half h :: .half l :: us =>
    if h < 0xDC00 ∧ 0xDC00 ≤ l then
      (joinUnits? us).map (Char.ofNat (0x10000 + (h - 0xD800) * 0x400 + (l - 0xDC00)) :: ·)
    else none
  | .half _ :: _ => none

/-- Whether a character is a decimal digit. -/
def isDigit (c : Char) : Bool := '0' ≤ c && c ≤ '9'

/-- One or more digits and what follows them. -/
def digitRun? (s : List Char) : Option (List Char × List Char) :=
  let run := s.takeWhile isDigit
  if run.isEmpty then none else some (run, s.dropWhile isDigit)

/-- Digits without a zero in front of others, and what follows them. -/
def wholePart? (s : List Char) : Option (List Char × List Char) := do
  let (run, rest) ← digitRun? s
  if run.head? = some '0' ∧ run.length ≠ 1 then none else some (run, rest)

/-- A point and digits, or nothing at all. -/
def fraction? : List Char → Option (List Char × List Char)
  | '.' :: s => (digitRun? s).map fun (run, rest) => ('.' :: run, rest)
  | s => some ([], s)

/-- An exponent, or nothing at all. -/
def exponent? (s : List Char) : Option (List Char × List Char) :=
  match s with
  | e :: rest =>
    if e = 'e' ∨ e = 'E' then
      match rest with
      | sign :: rest' =>
        if sign = '+' ∨ sign = '-' then
          (digitRun? rest').map fun (run, rest) => (e :: sign :: run, rest)
        else (digitRun? rest).map fun (run, rest) => (e :: run, rest)
      | [] => none
    else some ([], s)
  | [] => some ([], s)

/-- A number's literal and what follows it. -/
def number? (s : List Char) : Option (List Char × List Char) := do
  let (sign, s) := match s with
    | '-' :: rest => (['-'], rest)
    | _ => ([], s)
  let (whole, s) ← wholePart? s
  let (fraction, s) ← fraction? s
  let (exponent, s) ← exponent? s
  return (sign ++ whole ++ fraction ++ exponent, s)

/-- Whether a character may stand between tokens. -/
def isSpace (c : Char) : Bool := c = ' ' || c = '\n' || c = '\t' || c = '\r'

/-- The first token of a text that does not start with a space, and what follows it. -/
def token? : List Char → Option (Token × List Char)
  | '[' :: rest => some (.openArray, rest)
  | ']' :: rest => some (.closeArray, rest)
  | '{' :: rest => some (.openObject, rest)
  | '}' :: rest => some (.closeObject, rest)
  | ',' :: rest => some (.comma, rest)
  | ':' :: rest => some (.colon, rest)
  | '\x22' :: rest => (stringUnits? rest).map fun (units, rest) =>
      (.scalar (.str ((joinUnits? units).map String.ofList)), rest)
  | 'n' :: 'u' :: 'l' :: 'l' :: rest => some (.scalar .null, rest)
  | 't' :: 'r' :: 'u' :: 'e' :: rest => some (.scalar (.bool true), rest)
  | 'f' :: 'a' :: 'l' :: 's' :: 'e' :: rest => some (.scalar (.bool false), rest)
  | s => (number? s).map fun (literal, rest) => (.scalar (.num (String.ofList literal)), rest)

theorem length_lt_of_stringUnits? {s rest : List Char} {us : List Unit16}
    (h : stringUnits? s = some (us, rest)) : rest.length < s.length := by
  fun_induction stringUnits? s generalizing us rest with
  | case1 => simp at h
  | case2 => simp only [Option.some.injEq, Prod.mk.injEq] at h; simp [h.2]
  | case3 a b c d r ih =>
    simp only [Option.bind_eq_bind, Option.bind_eq_some_iff, Option.pure_def,
      Option.some.injEq, Prod.exists, Prod.mk.injEq] at h
    obtain ⟨_, _, us', r', h', _, rfl⟩ := h
    have := ih h'
    simp only [List.length_cons]; omega
  | case4 e r _ ih =>
    simp only [Option.bind_eq_bind, Option.bind_eq_some_iff, Option.pure_def,
      Option.some.injEq, Prod.exists, Prod.mk.injEq] at h
    obtain ⟨_, _, us', r', h', _, rfl⟩ := h
    have := ih h'
    simp only [List.length_cons]; omega
  | case5 => simp at h
  | case6 c r _ _ _ _ ih =>
    simp only [Option.bind_eq_bind, Option.bind_eq_some_iff, Option.pure_def,
      Option.some.injEq, Prod.exists, Prod.mk.injEq] at h
    obtain ⟨us', r', h', _, rfl⟩ := h
    have := ih h'
    simp only [List.length_cons]; omega

theorem length_lt_of_digitRun? {s run rest : List Char} (h : digitRun? s = some (run, rest)) :
    rest.length < s.length := by
  simp only [digitRun?] at h
  split at h
  · simp at h
  · rename_i hne
    simp only [Option.some.injEq, Prod.mk.injEq] at h
    obtain ⟨_, rfl⟩ := h
    have hs := congrArg List.length (List.takeWhile_append_dropWhile (p := isDigit) (l := s))
    have : (s.takeWhile isDigit).length ≠ 0 := by simpa [List.isEmpty_iff] using hne
    simp only [List.length_append] at hs
    omega

theorem length_lt_of_wholePart? {s run rest : List Char} (h : wholePart? s = some (run, rest)) :
    rest.length < s.length := by
  simp only [wholePart?, Option.bind_eq_bind, Option.bind_eq_some_iff, Prod.exists] at h
  obtain ⟨run', rest', h', h⟩ := h
  split at h
  · simp at h
  · simp only [Option.some.injEq, Prod.mk.injEq] at h
    obtain ⟨_, rfl⟩ := h
    exact length_lt_of_digitRun? h'

theorem length_le_of_fraction? {s run rest : List Char} (h : fraction? s = some (run, rest)) :
    rest.length ≤ s.length := by
  unfold fraction? at h
  split at h
  · simp only [Option.map_eq_some_iff, Prod.mk.injEq, Prod.exists] at h
    obtain ⟨_, _, h', _, rfl⟩ := h
    have := length_lt_of_digitRun? h'
    simp only [List.length_cons]; omega
  · simp only [Option.some.injEq, Prod.mk.injEq] at h
    simp [h.2]

theorem length_le_of_exponent? {s run rest : List Char} (h : exponent? s = some (run, rest)) :
    rest.length ≤ s.length := by
  unfold exponent? at h
  split at h
  · split at h
    · split at h
      · split at h
        all_goals
          simp only [Option.map_eq_some_iff, Prod.mk.injEq, Prod.exists] at h
          obtain ⟨_, _, h', _, rfl⟩ := h
          have := length_lt_of_digitRun? h'
          simp only [List.length_cons] at this ⊢; omega
      · simp at h
    · simp only [Option.some.injEq, Prod.mk.injEq] at h
      simp [h.2]
  · simp only [Option.some.injEq, Prod.mk.injEq] at h
    simp [h.2]

theorem length_lt_of_number? {s run rest : List Char} (h : number? s = some (run, rest)) :
    rest.length < s.length := by
  simp only [number?, Option.bind_eq_bind, Option.bind_eq_some_iff, Prod.exists, Option.pure_def,
    Option.some.injEq, Prod.mk.injEq] at h
  obtain ⟨_, r₁, h₁, _, r₂, h₂, _, r₃, h₃, _, rfl⟩ := h
  have h₁ := length_lt_of_wholePart? h₁
  have h₂ := length_le_of_fraction? h₂
  have h₃ := length_le_of_exponent? h₃
  split at h₁ <;> simp only [List.length_cons] at * <;> omega

theorem length_lt_of_token? {s rest : List Char} {t : Token} (h : token? s = some (t, rest)) :
    rest.length < s.length := by
  unfold token? at h
  split at h
  case h_7 =>
    simp only [Option.map_eq_some_iff, Prod.mk.injEq, Prod.exists] at h
    obtain ⟨_, _, h', _, rfl⟩ := h
    have := length_lt_of_stringUnits? h'
    simp only [List.length_cons]; omega
  case h_11 =>
    simp only [Option.map_eq_some_iff, Prod.mk.injEq, Prod.exists] at h
    obtain ⟨_, _, h', _, rfl⟩ := h
    exact length_lt_of_number? h'
  all_goals
    simp only [Option.some.injEq, Prod.mk.injEq] at h
    simp only [← h.2, List.length_cons]
    omega

/-- The tokens of a text. -/
def tokens? : List Char → Option (List Token)
  | [] => some []
  | c :: s =>
    if isSpace c then tokens? s
    else
      match _h : token? (c :: s) with
      | none => none
      | some (t, rest) => (tokens? rest).map (t :: ·)
termination_by s => s.length
decreasing_by
  · simp
  · exact length_lt_of_token? (by assumption)

end RootCause.Json
