import Roster.Report.Summary
import Roster.Text.Numeric

/-!
# Arguments

What a command line asks for. It starts with the name of a command, and options may stand before
and after it. An option has a long name (`--out`) and may have a short one (`-o`); one that takes
a value takes it from the same word (`--out=x`, `-ox`, `-o=x`) or from the next one, which then
does not start with a hyphen unless it is a hyphen. Short options without a value can share a
word. After the word `--` everything is an operand.

Words are read from left to right, and the first one that decides, decides: a word that does not
fit makes the command line invalid, and a request for help or for the version is granted. The
options of the session can be given before the command and after it; what is given after it
counts. Nothing can be given twice at one level.
-/

set_option autoImplicit false

namespace Roster.Shell

open Text

/-- What an option takes. -/
inductive Operand where
  | nothing
  /-- A path, which is not empty. -/
  | path
  /-- A number below `2 ^ 64`. -/
  | count
  | anything
deriving DecidableEq

/-- The options of the command line. -/
inductive OptionName where
  | dataDirectory | resetOnLoad | booleanFilters | strictAverage | preview | verbose
  | json | pretty
  | out
deriving DecidableEq

namespace OptionName

/-- The long name. -/
def long : OptionName → String
  | dataDirectory => "data-dir"
  | resetOnLoad => "reset-on-load"
  | booleanFilters => "boolean-filters"
  | strictAverage => "strict-average"
  | preview => "preview"
  | verbose => "verbose"
  | json => "json"
  | pretty => "pretty"
  | out => "out"

/-- The short name. -/
def short? : OptionName → Option Char
  | verbose => some 'v'
  | pretty => some 'p'
  | out => some 'o'
  | _ => none

/-- What the option takes. -/
def operand : OptionName → Operand
  | dataDirectory | out => .path
  | preview => .count
  | _ => .nothing

/-- The options that can be given with every command. -/
def shared : List OptionName :=
  [dataDirectory, resetOnLoad, booleanFilters, strictAverage, preview, verbose]

end OptionName

/-- The commands. -/
inductive CommandName where
  | run | check | runAll | extract | interactive | docs | doc
deriving DecidableEq

namespace CommandName

/-- The name as it is written. -/
def text : CommandName → String
  | run => "run"
  | check => "check"
  | runAll => "run-all"
  | extract => "extract"
  | interactive => "interactive"
  | docs => "docs"
  | doc => "doc"

/-- All commands. -/
def all : List CommandName := [run, check, runAll, extract, interactive, docs, doc]

/-- The command of a name. -/
def ofText? (s : String) : Option CommandName := all.find? (·.text == s)

/-- The options of a command alone. -/
def options : CommandName → List OptionName
  | run => [.json, .pretty]
  | extract => [.out]
  | _ => []

/-- What the one operand of a command is. -/
def operand : CommandName → Operand
  | run | check | runAll | extract => .path
  | doc => .anything
  | interactive | docs => .nothing

end CommandName

/-- What has been given at one level: values of options (empty for an option without one) and
the operand. -/
structure Given where
  options : List (OptionName × String) := []
  operand : Option String := none

namespace Given

/-- Whether an option has been given. -/
def has (g : Given) (o : OptionName) : Bool := (g.options.lookup o).isSome

/-- The value of an option. -/
def value? (g : Given) (o : OptionName) : Option String := g.options.lookup o

end Given

/-- The number that a word is: digits, with an optional plus. -/
def readCount? (s : String) : Option Nat :=
  let digits := match s.toList with
    | '+' :: cs => cs
    | cs => cs
  (Numeral.readDigits digits).bind fun n => if n < twoTo 64 then some n else none

/-- Whether a word is a value of a kind. -/
def Operand.accepts (value : String) : Operand → Bool
  | nothing => false
  | path => !value.isEmpty
  | count => (readCount? value).isSome
  | anything => true

/-- What the words of one level come to. -/
inductive Level where
  /-- They have all been read. -/
  | complete (given : Given)
  /-- An operand has been reached that is the name of a command; what follows it is left. -/
  | command (given : Given) (name : CommandName) (rest : List String)
  | help
  | version
  | invalid

/-- The level on which words are read: before the command or after it. -/
inductive Scope where
  | top
  | within (command : CommandName)
deriving DecidableEq

/-- What a word of options comes to. -/
inductive Step where
  /-- All of it has been read. -/
  | complete (given : Given)
  /-- Its last option takes a value from the next word. -/
  | missing (given : Given) (option : OptionName)
  /-- It decides what the command line comes to. -/
  | decided (level : Level)

/-- What has been given, with one more option; none if it has been given before, or if the value
is not one of those it takes. -/
def Given.add? (g : Given) (o : OptionName) (value : Option String) : Option Given :=
  let extended := { g with options := (o, value.getD "") :: g.options }
  if g.has o then none
  else
    match o.operand, value with
    | .nothing, none => some extended
    | .nothing, some _ => none
    | _, none => none
    | kind, some v => if kind.accepts v then some extended else none

/-- What a word comes to that gives an option with or without a value. -/
def Given.addStep (g : Given) (o : OptionName) (value : Option String) : Step :=
  match g.add? o value with
  | some g => .complete g
  | none => .decided .invalid

namespace Scope

/-- The options at a level. -/
def options : Scope → List OptionName
  | top => OptionName.shared
  | within c => OptionName.shared ++ c.options

/-- Reads a word of short options, without its hyphen. -/
def readShort (scope : Scope) (g : Given) : List Char → Step
  | [] => .complete g
  | c :: cs =>
    match scope.options.find? (·.short? == some c) with
    | some o =>
      -- Options without a value may share a word; one with a value takes the rest of it.
      if o.operand = .nothing then
        match g.add? o none with
        | some g => readShort scope g cs
        | none => .decided .invalid
      else if cs.isEmpty then .missing g o
      else g.addStep o (some (String.ofList (if cs.head? == some '=' then cs.drop 1 else cs)))
    | none =>
      if c == 'h' then .decided .help
      else if c == 'V' && scope = .top then .decided .version
      else .decided .invalid

/-- Reads a word that is a long option, without its hyphens. -/
def readLong (scope : Scope) (g : Given) (cs : List Char) : Step :=
  let name := String.ofList (cs.takeWhile (· != '='))
  let value := match cs.dropWhile (· != '=') with
    | [] => none
    | _ :: cs => some (String.ofList cs)
  match scope.options.find? (·.long == name) with
  | some o =>
    if value.isNone && o.operand != .nothing then .missing g o else g.addStep o value
  | none =>
    if value.isSome then .decided .invalid
    else if name == "help" then .decided .help
    else if name == "version" && scope = .top then .decided .version
    else .decided .invalid

/-- Whether a word is an operand, or a value, although no option asks for one. -/
def isOperand (word : String) : Bool := !word.startsWith "-" || word == "-"

/-- Reads a word of options. -/
def readOptions (scope : Scope) (g : Given) (word : String) : Step :=
  if word.startsWith "--" then readLong scope g (word.toList.drop 2)
  else readShort scope g (word.toList.drop 1)

/-- What has been given, with an operand. -/
def addOperand? (scope : Scope) (g : Given) (word : String) : Option Given :=
  match scope with
  | top => none
  | within c =>
    if g.operand.isNone && c.operand.accepts word then some { g with operand := some word }
    else none

/-- What the first operand before a command comes to: the name of a command, or `help`, which
may be followed by one name. -/
def readName (g : Given) (word : String) (words : List String) : Level :=
  match CommandName.ofText? word with
  | some name => .command g name words
  | none =>
    let isName (w : String) := w == "help" || (CommandName.ofText? w).isSome
    if word == "help" && words.length ≤ 1 && words.all isName then .help else .invalid

/-- Reads words at a level. After `--` (`literally`) only operands follow. -/
def read (scope : Scope) (literally : Bool) (g : Given) : List String → Level
  | [] => .complete g
  | word :: words =>
    if literally || isOperand word then
      -- The first operand before a command is its name, unless it stands behind `--`.
      if scope = .top && !literally then readName g word words
      else
        match addOperand? scope g word with
        | some g => read scope literally g words
        | none => .invalid
    else if word == "--" then read scope true g words
    else
      match readOptions scope g word with
      | .decided level => level
      | .complete g => read scope false g words
      | .missing g o =>
        -- The value of an option stands in the next word, and may not look like an option.
        match words with
        | [] => .invalid
        | value :: words =>
          match if isOperand value then g.add? o (some value) else none with
          | some g => read scope false g words
          | none => .invalid

end Scope

/-- What is to be done. -/
inductive Command where
  /-- Run a script, from standard input if no file is given. -/
  | run (file : Option String) (json pretty : Bool)
  | check (file : Option String)
  | runAll (directory : String)
  | extract (file directory : String)
  | interactive
  | docs
  | doc (topic : String)
deriving DecidableEq

/-- What holds for every command. -/
structure SessionOptions where
  settings : Settings
  dataDirectory : Option String
  preview : Nat
deriving DecidableEq

/-- What a command line asks for. -/
inductive Request where
  | command (options : SessionOptions) (command : Command)
  | help
  | version
  | invalid
deriving DecidableEq

/-- Whether standard input is read. -/
def Request.readsInput : Request → Bool
  | command _ (.run none _ _) | command _ (.check none) | command _ .interactive => true
  | _ => false

/-- The options of a session, given before the command and after it. -/
def SessionOptions.ofGiven (before after : Given) : SessionOptions :=
  let has (o : OptionName) := after.has o || before.has o
  let value? (o : OptionName) := (after.value? o).or (before.value? o)
  { settings := {
      reload := if has .resetOnLoad then .reset else .keep
      filterMode := if has .booleanFilters then .boolean else .conjunctive
      emptyAverage := if has .strictAverage then .fault else .nan }
    dataDirectory := value? .dataDirectory
    preview := ((value? .preview).bind readCount?).getD Report.defaultPreview }

/-- The command of a name with what has been given for it; none if an operand is missing. -/
def Command.ofGiven? (name : CommandName) (g : Given) : Option Command :=
  match name with
  | .run => some (.run g.operand (g.has .json) (g.has .pretty))
  | .check => some (.check g.operand)
  | .runAll => some (.runAll (g.operand.getD "scripts"))
  | .extract =>
    some (.extract (g.operand.getD "example_scripts.txt") ((g.value? .out).getD "scripts"))
  | .interactive => some .interactive
  | .docs => some .docs
  | .doc => g.operand.map .doc

/-- What a command line asks for. -/
def Request.ofArguments (arguments : List String) : Request :=
  match Scope.read .top false {} arguments with
  | .help => .help
  | .version => .version
  | .complete _ | .invalid => .invalid
  | .command before name words =>
    match Scope.read (.within name) false {} words with
    | .help => .help
    | .version | .command .. | .invalid => .invalid
    | .complete after =>
      match Command.ofGiven? name after with
      | some c => .command (.ofGiven before after) c
      | none => .invalid

end Roster.Shell
