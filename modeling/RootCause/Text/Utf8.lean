/-!
# UTF-8

Octets to text, strictly and leniently. `next` reads one character or finds the longest start of
one that cannot be completed: `decode?` refuses such a start, and `decodeLossy` puts one U+FFFD in
its place.
-/

namespace RootCause.Text

/-- One step of reading octets. -/
inductive Utf8Step
  /-- A character and the number of octets after its first one. -/
  | char (c : Char) (more : Nat)
  /-- No character: the first octet and so many after it start none. -/
  | bad (more : Nat)
  deriving DecidableEq

/-- Whether an octet continues a character. -/
def isTail (b : UInt8) : Bool := 0x80 ≤ b && b ≤ 0xBF

/-- The low six bits of an octet that continues a character. -/
def tailBits (b : UInt8) : Nat := b.toNat - 0x80

/-- The first character of the octets `b :: rest`. A start octet fixes how many more belong to the
character and which range the second one is in; what follows are tails. -/
def Utf8Step.next (b : UInt8) (rest : List UInt8) : Utf8Step :=
  if b < 0x80 then .char (Char.ofNat b.toNat) 0
  else if 0xC2 ≤ b && b ≤ 0xDF then
    match rest with
    | b₁ :: _ =>
      if isTail b₁ then .char (Char.ofNat ((b.toNat - 0xC0) * 64 + tailBits b₁)) 1 else .bad 0
    | [] => .bad 0
  else if 0xE0 ≤ b && b ≤ 0xEF then
    let low : UInt8 := if b == 0xE0 then 0xA0 else 0x80
    let high : UInt8 := if b == 0xED then 0x9F else 0xBF
    match rest with
    | b₁ :: rest =>
      if low ≤ b₁ && b₁ ≤ high then
        match rest with
        | b₂ :: _ =>
          if isTail b₂ then
            .char (Char.ofNat (((b.toNat - 0xE0) * 64 + tailBits b₁) * 64 + tailBits b₂)) 2
          else .bad 1
        | [] => .bad 1
      else .bad 0
    | [] => .bad 0
  else if 0xF0 ≤ b && b ≤ 0xF4 then
    let low : UInt8 := if b == 0xF0 then 0x90 else 0x80
    let high : UInt8 := if b == 0xF4 then 0x8F else 0xBF
    match rest with
    | b₁ :: rest =>
      if low ≤ b₁ && b₁ ≤ high then
        match rest with
        | b₂ :: rest =>
          if isTail b₂ then
            match rest with
            | b₃ :: _ =>
              if isTail b₃ then
                .char (Char.ofNat ((((b.toNat - 0xF0) * 64 + tailBits b₁) * 64 + tailBits b₂) * 64
                  + tailBits b₃)) 3
              else .bad 2
            | [] => .bad 2
          else .bad 1
        | [] => .bad 1
      else .bad 0
    | [] => .bad 0
  else .bad 0

/-- The text of some octets, or nothing if they are not UTF-8. -/
def decode? : List UInt8 → Option (List Char)
  | [] => some []
  | b :: rest =>
    match Utf8Step.next b rest with
    | .char c more => (decode? (rest.drop more)).map (c :: ·)
    | .bad _ => none
termination_by bs => bs.length
decreasing_by simp only [List.length_drop, List.length_cons]; omega

/-- The text of some octets, with one U+FFFD for each longest start of a character that is not
completed and for each octet that starts none. -/
def decodeLossy : List UInt8 → List Char
  | [] => []
  | b :: rest =>
    match Utf8Step.next b rest with
    | .char c more => c :: decodeLossy (rest.drop more)
    | .bad more => '\uFFFD' :: decodeLossy (rest.drop more)
termination_by bs => bs.length
decreasing_by all_goals simp only [List.length_drop, List.length_cons]; omega

/-- How many octets a text takes in UTF-8. -/
def byteLength : List Char → Nat
  | [] => 0
  | c :: s => c.utf8Size + byteLength s

@[simp] theorem byteLength_nil : byteLength [] = 0 := rfl

@[simp] theorem byteLength_cons (c : Char) (s : List Char) :
    byteLength (c :: s) = c.utf8Size + byteLength s := rfl

@[simp] theorem byteLength_append (s t : List Char) :
    byteLength (s ++ t) = byteLength s + byteLength t := by
  induction s with
  | nil => simp
  | cons c s ih => simp [ih, Nat.add_assoc]

theorem byteLength_le_of_prefix {s t : List Char} (h : s <+: t) : byteLength s ≤ byteLength t := by
  obtain ⟨rest, rfl⟩ := h
  rw [byteLength_append]
  exact Nat.le_add_right _ _

/-- The text from octet `start` on. An offset inside a character counts as the one after it. -/
def dropBytes : Nat → List Char → List Char
  | 0, s => s
  | _ + 1, [] => []
  | n + 1, c :: s => dropBytes (n + 1 - c.utf8Size) s

theorem dropBytes_byteLength_append (s t : List Char) : dropBytes (byteLength s) (s ++ t) = t := by
  induction s with
  | nil => simp [dropBytes]
  | cons c s ih =>
    have hpos : byteLength (c :: s) = (c.utf8Size - 1 + byteLength s) + 1 := by
      have := c.utf8Size_pos
      rw [byteLength_cons]
      omega
    rw [hpos, List.cons_append, dropBytes, ← hpos, byteLength_cons, Nat.add_sub_cancel_left, ih]

/-- The first `n` octets of a text. A character that is only partly among them is left out. -/
def takeBytes : Nat → List Char → List Char
  | _, [] => []
  | n, c :: s => if c.utf8Size ≤ n then c :: takeBytes (n - c.utf8Size) s else []

/-- The text between two octet offsets. -/
def slice (start stop : Nat) (s : List Char) : List Char :=
  takeBytes (stop - start) (dropBytes start s)

/-- The first `n` octets of a text, if a character ends there. -/
def takeBytes? (n : Nat) (s : List Char) : Option (List Char) :=
  let t := takeBytes n s
  if byteLength t = n then some t else none

end RootCause.Text
