import RootCause.Source.Cursor

/-!
# Lexemes

How long a word, sign, number, string or regular expression is at the start of a text, and the
readings that take one. A sign is always the longest there is; only an angle bracket that closes
type arguments is taken by itself.
-/

namespace RootCause.Source

/-! ## Words -/

/-- The signs that no word contains. -/
def wordless : List Char := ":;\x60\"'@#.,|^&<=>+-*/\\%?!~()[]\x7b\x7d".toList

/-- Whether a character may stand in a word. -/
def isWordPart (c : Char) : Bool := !(c.toNat < 0x20 || isGap c || wordless.contains c)

/-- Whether a word may start with a character. -/
def isWordStart (c : Char) : Bool := isWordPart c && !('0' ≤ c && c ≤ '9')

/-- Whether a character is a hexadecimal digit. -/
def isHex (c : Char) : Bool :=
  ('0' ≤ c && c ≤ '9') || ('a' ≤ c && c ≤ 'f') || ('A' ≤ c && c ≤ 'F')

/-- The length of an escape `\uXXXX` or `\u{X…}` in a word. -/
def wordEscape? : List Char → Option Nat
  | '\\' :: 'u' :: '{' :: s =>
    let digits := s.takeWhile isHex
    if digits ≠ [] ∧ (s.drop digits.length).head? = some '}' then some (digits.length + 4) else none
  | '\\' :: 'u' :: a :: b :: c :: d :: _ =>
    if isHex a && isHex b && isHex c && isHex d then some 6 else none
  | _ => none

/-- The length of the rest of a word: at most `n` characters and escapes. -/
def wordTail : Nat → List Char → Nat
  | 0, _ => 0
  | n + 1, s =>
    match s with
    | [] => 0
    | c :: rest =>
      if isWordPart c then wordTail n rest + 1
      else
        match wordEscape? s with
        | some k => k + wordTail n (s.drop k)
        | none => 0

/-- The length of the word at the start of a text; zero if there is none. -/
def wordLength (s : List Char) : Nat :=
  match s with
  | [] => 0
  | c :: _ =>
    if isWordStart c || (wordEscape? s).isSome then wordTail s.length s else 0

/-- The words that never are identifiers. -/
def reservedWords : List String :=
  ["break", "case", "catch", "class", "const", "continue", "debugger", "default", "delete", "do",
    "else", "enum", "export", "extends", "false", "finally", "for", "function", "if", "import",
    "in", "instanceof", "new", "null", "return", "super", "switch", "this", "throw", "true", "try",
    "typeof", "var", "void", "while", "with"]

/-! ## Signs -/

/-- The signs of the grammar, longer ones first. -/
def signs : List String :=
  [">>>=", "...", "===", "!==", "**=", "<<=", ">>=", ">>>", "&&=", "||=", "??=", "=>", "==", "!=",
    "<=", ">=", "&&", "||", "??", "?.", "++", "--", "+=", "-=", "*=", "/=", "%=", "&=", "|=", "^=",
    "<<", ">>", "**", "\x7b", "\x7d", "(", ")", "[", "]", ";", ",", "<", ">", "+", "-", "*", "/",
    "%", "&", "|", "^", "!", "~", "?", ":", "=", ".", "@", "#"]

/-- The sign at the start of a text. A question mark in front of a decimal fraction stands
alone. -/
def sign? (s : List Char) : Option String :=
  match s with
  | '?' :: '.' :: d :: _ => if '0' ≤ d && d ≤ '9' then some "?" else some "?."
  | _ => signs.find? fun x => (Text.stripStart? x.toList s).isSome

/-! ## Literals -/

/-- Whether a character may stand in a run of digits. -/
def isDigitPart (c : Char) : Bool := ('0' ≤ c && c ≤ '9') || c = '_'

/-- The length of an exponent, or zero. -/
def exponentLength (s : List Char) : Nat :=
  match s with
  | e :: sign :: rest =>
    if e = 'e' || e = 'E' then
      if sign = '+' || sign = '-' then 2 + (rest.takeWhile isDigitPart).length
      else 1 + ((sign :: rest).takeWhile isDigitPart).length
    else 0
  | _ => 0

/-- The length of the number at the start of a text; zero if there is none. -/
def numberLength (s : List Char) : Nat :=
  match s with
  | '0' :: x :: rest =>
    if "xXoObB".toList.contains x then 2 + (rest.takeWhile isWordPart).length else decimalLength s
  | c :: d :: _ =>
    if isDigitPart c && c ≠ '_' || (c = '.' && isDigitPart d && d ≠ '_') then decimalLength s else 0
  | [c] => if isDigitPart c && c ≠ '_' then 1 else 0
  | [] => 0
where
  decimalLength (s : List Char) : Nat :=
    let whole := (s.takeWhile isDigitPart).length
    let s := s.drop whole
    let fraction := match s with
      | '.' :: rest => 1 + (rest.takeWhile isDigitPart).length
      | _ => 0
    let s := s.drop fraction
    let exponent := exponentLength s
    let big := if (s.drop exponent).head? = some 'n' then 1 else 0
    whole + fraction + exponent + big

/-- The length of the rest of a string up to its closing quote, if it is closed on the line. -/
def stringTail? (quote : Char) : List Char → Option Nat
  | [] => none
  | '\\' :: '\r' :: '\n' :: s => (stringTail? quote s).map (· + 3)
  | '\\' :: _ :: s => (stringTail? quote s).map (· + 2)
  | c :: s =>
    if c = quote then some 1 else if c = '\n' then none else (stringTail? quote s).map (· + 1)

/-- Whether a character opens a string. -/
def isQuote (c : Char) : Bool := c = '\x22' || c = '\x27'

/-- The length of the string at the start of a text. -/
def stringLength? : List Char → Option Nat
  | q :: s => if isQuote q then (stringTail? q s).map (· + 1) else none
  | [] => none

/-- The length of the rest of a regular expression up to its closing slash; a slash in a class
does not close it. -/
def regexTail? (inClass : Bool) : List Char → Option Nat
  | [] => none
  | '\\' :: _ :: s => (regexTail? inClass s).map (· + 2)
  | c :: s =>
    if c = '\n' then none
    else if c = '/' ∧ !inClass then some 1
    else (regexTail? (if c = '[' then true else if c = ']' then false else inClass) s).map (· + 1)

/-- The length of the regular expression at the start of a text, with its flags. -/
def regexLength? : List Char → Option Nat
  | '/' :: s => (regexTail? false s).map fun n =>
      1 + n + ((s.drop n).takeWhile fun c => 'a' ≤ c && c ≤ 'z').length
  | _ => none

/-! ## Taking lexemes -/

namespace Parse

/-- The word at the cursor; empty if there is none. -/
def peekWord : Parse String := do
  let s ← rest
  return String.ofList (s.take (wordLength s))

/-- The next character. -/
def peekChar : Parse (Option Char) := return (← rest).head?

/-- The sign at the cursor. -/
def peekSign : Parse (Option String) := return sign? (← rest)

/-- Any word. -/
def anyWord : Parse String := do
  let w ← peekWord
  require (w ≠ "")
  let _ ← take w.length
  return w

/-- The word `w`. -/
def word (w : String) : Parse Unit := do
  require ((← peekWord) == w)
  let _ ← take w.length

/-- One of some words. -/
def oneWord (ws : List String) : Parse String := do
  let w ← peekWord
  require (ws.contains w)
  let _ ← take w.length
  return w

/-- The sign `s`. -/
def sign (s : String) : Parse Unit := do
  require ((← peekSign) == some s)
  let _ ← take s.length

/-- One of some signs. -/
def oneSign (ss : List String) : Parse String := do
  match ← peekSign with
  | some s =>
    require (ss.contains s)
    let _ ← take s.length
    return s
  | none => fail

/-- The character `c`, whatever sign it may be part of. -/
def char (c : Char) : Parse Unit := do
  require ((← peekChar) == some c)
  let _ ← take 1

/-- The character `c`, without the gap after it. -/
def charRaw (c : Char) : Parse Unit := do
  require ((← peekChar) == some c)
  let _ ← takeRaw 1

/-- Whether the word at the cursor is `w`. -/
def atWord (w : String) : Parse Bool := return (← peekWord) == w

/-- Whether the sign at the cursor is `s`. -/
def atSign (s : String) : Parse Bool := return (← peekSign) == some s

/-- Goes on only if no line has ended since the last token. -/
def sameLine : Parse Unit := do require (!(← get).newline)

/-- A semicolon that is put in: at the end of the text, in front of a closing brace or at the end of
a line. It stands after the comments on the line. -/
def insertedSemicolon : Parse Unit := do
  let c ← get
  require (c.rest.isEmpty || c.rest.head? == some '}' || c.newline)
  set { c with stop := c.seam }

/-- A semicolon, written or put in. -/
def semicolon : Parse Unit := sign ";" <|> insertedSemicolon

/-- Whether a line may end in front of a text after a closing brace. -/
def mayFollowBlock : List Char → Bool
  | '+' :: s => s.head? == some '+'
  | '-' :: s => s.head? == some '-'
  | '!' :: s => s.head? != some '='
  | c :: _ => !("\x60,.;*%><=?^|&/:".toList.contains c)
  | [] => true

/-- A semicolon that is put in after a closing brace, if the line ends there. -/
def blockEnd : Parse Unit := do
  let c ← get
  if c.rest.isEmpty || c.rest.head? == some '}' || (c.newline && mayFollowBlock c.rest) then
    set { c with stop := c.seam }

end Parse

/-! ## Nodes -/

/-- The node of kind `k` over what `p` reads, with the children that `p` gives. -/
def node (k : NodeKind) (p : Parse (List Tree)) : Parse Tree := do
  let start := (← get).pos
  let children ← p
  return .node ⟨.named k, none, start, (← get).stop⟩ children

/-- The node of kind `k` that starts with the node `first` and goes on with what `p` reads. -/
def nodeAfter (k : NodeKind) (first : Tree) (p : Parse (List Tree)) : Parse Tree := do
  let children ← p
  return .node ⟨.named k, none, first.start, (← get).stop⟩ children

/-- The node of kind `k` without children over what `p` reads. -/
def leaf {α : Type} (k : NodeKind) (p : Parse α) : Parse Tree := node k (do let _ ← p; return [])

/-- The node of a word of the grammar. -/
def wordNode (w : String) : Parse Tree := do
  let start := (← get).pos
  Parse.word w
  return .node ⟨.token w, none, start, (← get).stop⟩ []

/-- The node of a sign of the grammar. -/
def signNode (s : String) : Parse Tree := do
  let start := (← get).pos
  Parse.sign s
  return .node ⟨.token s, none, start, (← get).stop⟩ []

/-- What `p` reads, in the field `f` of its parent. -/
def within (f : Field) (p : Parse Tree) : Parse Tree := (Tree.inField f) <$> p

/-- What `p` reads as a list, empty if there is nothing for it. -/
def maybe (p : Parse Tree) : Parse (List Tree) := return (← Parse.option p).toList

/-- What `p` reads between commas, with or without a comma at the end. -/
def commaList (p : Parse Tree) : Parse (List Tree) := do
  let l ← Parse.sepBy p (Parse.sign ",")
  let _ ← Parse.option (Parse.sign ",")
  return l

/-- What `p` reads between commas, of which there may be more than elements. -/
def looseList (p : Parse Tree) : Parse (List Tree) := do
  let l ← Parse.many ((do Parse.sign ","; return none) <|> (some <$> p))
  return l.filterMap id

/-- A word that is no reserved one, as a node of kind `k`. -/
def wordLeaf (k : NodeKind) : Parse Tree :=
  leaf k do
    let w ← Parse.peekWord
    Parse.require (w ≠ "" && !reservedWords.contains w)
    Parse.take w.length

/-- An identifier; `undefined` is a node of its own kind. -/
def identifier : Parse Tree := do
  if ← Parse.atWord "undefined" then leaf .undefined (Parse.word "undefined")
  else wordLeaf .identifier

/-- The name of a type. -/
def typeName : Parse Tree := wordLeaf .typeIdentifier

/-- Any word, as the name of a property. -/
def propertyWord : Parse Tree := leaf .propertyIdentifier Parse.anyWord

/-- The name of a private property. -/
def privateName : Parse Tree :=
  leaf .privatePropertyIdentifier do
    Parse.require ((← Parse.peekChar) == some '#')
    let n := wordLength ((← Parse.rest).drop 1)
    Parse.require (n ≠ 0)
    Parse.take (n + 1)

/-- A number. -/
def number : Parse Tree :=
  leaf .number do
    let n := numberLength (← Parse.rest)
    Parse.require (n ≠ 0)
    Parse.take n

/-- A string. -/
def string : Parse Tree :=
  leaf .string do
    match stringLength? (← Parse.rest) with
    | some n => Parse.take n
    | none => Parse.fail

/-- A regular expression. -/
def regex : Parse Tree :=
  leaf .regex do
    match regexLength? (← Parse.rest) with
    | some n => Parse.take n
    | none => Parse.fail

end RootCause.Source
