import RootCause.Source.Grammar.Statement

/-!
# Reading a source file

The rules of the grammar tied together, and the tree of a file. A file is read whole or not at all:
one that does not follow the grammar has a tree without statements.
-/

namespace RootCause.Source

/-- The rules of a level, given those below it. -/
def Level.rule (l : Level) : Goal → Parse Tree
  | .statement => statement l
  | .block => block l
  | .expressions => expressions l
  | .expression => expression l
  | .conditional => conditional l
  | .unary => unary l
  | .operand => operand l
  | .construction => construction l
  | .decorator => decorator l
  | .pattern => pattern l
  | .type => type l
  | .typeUnion => typeUnion l
  | .typeOperand => typeOperand l
  | .markup => markup l

/-- The rules on a level with `n` levels below it. -/
def Level.ofDepth (markup : Bool) : Nat → Level
  | 0 => ⟨markup, fun _ => Parse.fail⟩
  | n + 1 => ⟨markup, fun g => (Level.ofDepth markup n).rule g⟩

/-- How many levels a text may need: every rule that another one refers to takes a character at the
latest on the eighth level below it. -/
def depthFor (s : List Char) : Nat := 8 * s.length + 8

/-- The line that names an interpreter, at the start of a file. -/
def hashBang : Parse Tree :=
  leaf .hashBangLine do
    let s ← Parse.rest
    Parse.require ((Text.stripStart? ['#', '!'] s).isSome)
    Parse.take (s.takeWhile fun c => !endsLineComment c).length

/-- The tree of a file that is nothing but blanks and comments from an offset on. -/
def emptyProgram (start stop : Nat) : Tree := .node ⟨.named .program, none, start, stop⟩ []

/-- The tree of a source file, in which angle brackets open markup or not. -/
def parse (markup : Bool) (s : List Char) : Tree :=
  let c := Cursor.start s
  let size := Text.byteLength s
  let l := Level.ofDepth markup (depthFor s)
  let read : Parse (List Tree) := do
    let first ← maybe hashBang
    let statements ← Parse.many (l.read .statement)
    Parse.require (← Parse.rest).isEmpty
    return first ++ statements
  match read.run c with
  | some (children, _) => .node ⟨.named .program, none, c.pos, size⟩ children
  | none => emptyProgram c.pos size

end RootCause.Source
