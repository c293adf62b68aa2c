import RootCause.Intake.Format
import RootCause.Output.Format
import RootCause.Settings.Basic
import RootCause.Text.Decimal

/-!
# Command-line arguments

Options are written in full after two dashes, with their value after an equals sign or as the next
argument; flags have no value, and some have a letter that can stand after one dash. What follows
two dashes alone are inputs. No option may be given twice, some exclude each other, and a value that
looks like an option is none.
-/

namespace RootCause.Command

/-- The flags. -/
inductive Flag
  | noSemantic
  | noGit
  | blame
  | json
  | jsonLines
  | pretty
  | compact
  | outputSchema
  | verbose
  deriving DecidableEq, Repr

/-- The flag with this name. -/
def Flag.ofName? : String → Option Flag
  | "no-semantic" => some .noSemantic
  | "no-git" => some .noGit
  | "blame" => some .blame
  | "json" => some .json
  | "jsonl" => some .jsonLines
  | "pretty" => some .pretty
  | "compact" => some .compact
  | "output-schema" => some .outputSchema
  | "verbose" => some .verbose
  | _ => none

/-- The options that have a value. -/
inductive Key
  | root
  | format
  | tabWidth
  | limit
  | base
  | history
  deriving DecidableEq, Repr

/-- The option with this name. -/
def Key.ofName? : String → Option Key
  | "root" => some .root
  | "format" => some .format
  | "tab-width" => some .tabWidth
  | "limit" => some .limit
  | "upstream" => some .base
  | "history" => some .history
  | _ => none

/-- What the arguments ask for. -/
structure Arguments where
  /-- The tool outputs to read. -/
  inputs : List Path := []
  flags : List Flag := []
  root : Option Path := none
  format : Option Intake.Format := none
  tabWidth : Option Nat := none
  limit : Option Nat := none
  base : Option String := none
  history : Option Nat := none
  deriving DecidableEq, Repr

/-- Why the arguments do not lead to a run. -/
inductive Stop
  /-- They cannot be understood. -/
  | usage
  /-- They ask for help. -/
  | help
  /-- They ask for the version. -/
  | version
  deriving DecidableEq, Repr

namespace Arguments

/-- Whether a flag is given. -/
def has (a : Arguments) (f : Flag) : Bool := a.flags.contains f

/-- Adds an input. -/
def addInput (a : Arguments) (input : String) : Except Stop Arguments :=
  if input.isEmpty then .error .usage else .ok { a with inputs := a.inputs ++ [⟨input⟩] }

/-- Adds inputs. -/
def addInputs (a : Arguments) (inputs : List String) : Except Stop Arguments :=
  inputs.foldlM addInput a

/-- Adds a flag. -/
def addFlag (a : Arguments) (f : Flag) : Except Stop Arguments :=
  if a.has f then .error .usage else .ok { a with flags := f :: a.flags }

/-- The value of an option that has none yet, if the value can be read. -/
def fresh {α : Type} (given read : Option α) : Except Stop (Option α) :=
  match given, read with
  | none, some v => .ok (some v)
  | _, _ => .error .usage

/-- A path, which may not be empty. -/
def path? (value : String) : Option Path := if value.isEmpty then none else some ⟨value⟩

/-- Gives an option its value. -/
def set (a : Arguments) (value : String) : Key → Except Stop Arguments
  | .root => (fresh a.root (path? value)).map fun v => { a with root := v }
  | .format => (fresh a.format (Intake.Format.ofName? value)).map fun v => { a with format := v }
  | .tabWidth => (fresh a.tabWidth (number value)).map fun v => { a with tabWidth := v }
  | .limit => (fresh a.limit (number value)).map fun v => { a with limit := v }
  | .base => (fresh a.base (some value)).map fun v => { a with base := v }
  | .history => (fresh a.history (number value)).map fun v => { a with history := v }
where
  /-- A number that fits into a machine word. -/
  number (value : String) : Option Nat := Text.number? value.toList

/-- Adds the flags that some letters after a dash stand for. -/
def addLetters (a : Arguments) : List Char → Except Stop Arguments
  | [] => .ok a
  | 'v' :: letters => do addLetters (← a.addFlag .verbose) letters
  | 'h' :: _ => .error .help
  | 'V' :: _ => .error .version
  | _ => .error .usage

/-- Whether an argument looks like an option, so that it is no value of another one. -/
def looksLikeOption (argument : String) : Bool :=
  match argument.toList with
  | '-' :: _ :: _ => true
  | _ => false

/-- The name of a long option and what follows an equals sign in it. -/
def splitOption (text : List Char) : String × Option String :=
  match Text.splitOnce? ['='] text with
  | some (name, value) => (String.ofList name, some (String.ofList value))
  | none => (String.ofList text, none)

/-- The shape of an argument. -/
inductive Shape
  /-- Two dashes alone. -/
  | terminator
  | long (name : String) (value : Option String)
  | letters (letters : List Char)
  | input

/-- The shape of an argument. -/
def shape (argument : String) : Shape :=
  match argument.toList with
  | ['-', '-'] => .terminator
  | '-' :: '-' :: text => let (name, value) := splitOption text; .long name value
  | '-' :: letter :: letters => .letters (letter :: letters)
  | _ => .input

/-- Adds the flag with this name, or stops at one that asks for something else than a run. -/
def addNamedFlag (a : Arguments) (name : String) : Except Stop Arguments :=
  match name, Flag.ofName? name with
  | "help", _ => .error .help
  | "version", _ => .error .version
  | _, some f => a.addFlag f
  | _, none => .error .usage

/-- Adds what some arguments ask for. -/
def addAll (a : Arguments) : List String → Except Stop Arguments
  | [] => .ok a
  | argument :: rest =>
    match shape argument with
    | .terminator => a.addInputs rest
    | .input => do addAll (← a.addInput argument) rest
    | .letters letters => do addAll (← a.addLetters letters) rest
    | .long name value =>
      match Key.ofName? name, value, rest with
      | some key, some value, rest => do addAll (← a.set value key) rest
      | some key, none, value :: rest =>
        if looksLikeOption value then .error .usage
        else do addAll (← a.set value key) rest
      | some _, none, [] => .error .usage
      | none, none, rest => do addAll (← a.addNamedFlag name) rest
      | none, some _, _ => .error .usage

/-- Whether no two flags exclude each other. -/
def isConsistent (a : Arguments) : Bool :=
  !(a.has .json && a.has .jsonLines) && !(a.has .pretty && a.has .compact)

/-- Reads the arguments. -/
def read (arguments : List String) : Except Stop Arguments := do
  let a ← addAll {} arguments
  if a.isConsistent then return a else throw .usage

/-- The layer of settings that the arguments are. -/
def settings (a : Arguments) : Settings where
  ordering := { semantic := if a.has .noSemantic then some false else none }
  display :=
    { tabWidth := a.tabWidth
      limit := a.limit
      blame := if a.has .blame then some true else none
      history := a.history }
  git := { enabled := if a.has .noGit then some false else none, base := a.base }

/-- What the arguments ask for in the form of the output. -/
def request (a : Arguments) : Output.Request where
  json := a.has .json
  jsonLines := a.has .jsonLines
  pretty := a.has .pretty
  compact := a.has .compact

end Arguments

end RootCause.Command
