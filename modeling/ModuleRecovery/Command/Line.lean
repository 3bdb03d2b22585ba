import ModuleRecovery.Command.Options
import ModuleRecovery.Decimal.Reader
import ModuleRecovery.Report.Terminal

/-!
# The command line

The arguments name the model file and then a command with arguments of its own.
The name of a command is recognised wherever one may stand, even before the model
file has been named.  Test classes may be excluded on either side of the command.

The model file must have a name that is not empty.  That is checked at the next
option before the command, or at the end, so a request for help among the
arguments of a command is heard first.
-/

namespace ModuleRecovery

inductive Command where
  | print (view : View)
  /-- The analysis is to be served over HTTP, on the given TCP number. -/
  | serve (listenOn : Nat)
  /-- The analysis is to be served as tools. -/
  | tools

structure Invocation where
  model : String
  excludeTests : Bool
  command : Command

namespace Command

open Text

def readLimit? (value : List Char) : Option Nat :=
  (Numeral.readSigned Query.maxLimit value).toOption

def maxListenOn : Nat := 65535

/-- Reads a TCP number; minus zero is zero. -/
def readListenOn? (value : List Char) : Option Nat :=
  match value with
  | '-' :: digits => (Numeral.read 0 digits).toOption
  | value => (Numeral.readSigned maxListenOn value).toOption

def defaultListenOn : Nat := 8080

def excludeTestsRule : OptionRule :=
  .flag "exclude-tests"

/-- The form of a command's own arguments. -/
structure Form where
  options : List OptionRule
  capacity : Nat
  command? : Given → Option Command

/-- A command that takes no arguments of its own. -/
def Form.bare (command : Command) : Form where
  options := []
  capacity := 0
  command? _ := some command

def forms : List (String × Form) :=
  [("summary", .bare (.print .summary)),
   ("callgraph", .bare (.print .callGraph)),
   ("coupling",
     { options := [⟨"limit", some 'n', some (readLimit? · |>.isSome)⟩]
       capacity := 0
       command? := fun given =>
         some (.print (.coupling ((given.value? "limit").bind readLimit?))) }),
   ("pair",
     { options := []
       capacity := 2
       command? := fun given =>
         match given.positional with
         | [a, b] => some (.print (.pair a b))
         | _ => none }),
   ("matrix", .bare (.print .matrix)),
   ("dendrogram", .bare (.print .dendrogram)),
   ("modules",
     { options :=
         [⟨"cp", none, some (Decimal.read? · |>.isSome)⟩, .flag "json"]
       capacity := 0
       command? := fun given =>
         let threshold := ((given.value? "cp").bind Decimal.read?).getD
           Engine.defaultThreshold
         some (.print (.modules threshold (given.has "json"))) }),
   ("serve",
     { options := [⟨"port", none, some (readListenOn? · |>.isSome)⟩]
       capacity := 0
       command? := fun given =>
         some (.serve
           (((given.value? "port").bind readListenOn?).getD defaultListenOn)) }),
   ("mcp", .bare .tools)]

/-- Help may be asked for all commands, for one of them, or for help itself. -/
def helpTopics (topics : List String) : Stop :=
  match topics with
  | [] => .help
  | [topic] =>
    if topic = "help" || (forms.lookup topic).isSome then .help else .usage
  | _ => .usage

/-- What stands before the command. -/
structure Before where
  model? : Option String
  excludeTests : Bool

/-- The model file has been named, but by nothing. -/
def Before.isNameless (before : Before) : Bool :=
  before.model? == some ""

/-- Reads a command's own arguments, and puts the invocation together. -/
def readForm (before : Before) (form : Form) (arguments : List String) :
    Except Stop Invocation :=
  match readArguments (excludeTestsRule :: form.options) form.capacity .empty
      arguments with
  | .error stop => .error stop
  | .ok given =>
    match form.command? given, before.model? with
    | some command, some model =>
      if model.isEmpty then .error .usage
      else
        .ok ⟨model, before.excludeTests || given.has excludeTestsRule.name,
          command⟩
    | _, _ => .error .usage

def readOption (before : Before) (argument : String) : Except Stop Before :=
  if before.isNameless then .error .usage
  else
    let given : Given :=
      ⟨if before.excludeTests then [(excludeTestsRule.name, [])] else [], []⟩
    match readArguments [excludeTestsRule] 0 given [argument] with
    | .error stop => .error stop
    | .ok given => .ok { before with excludeTests := given.has excludeTestsRule.name }

/-- Reads the arguments from the first one on. -/
def readFrom (before : Before) : List String → Except Stop Invocation
  | [] => .error .usage
  | argument :: rest =>
    if argument = "help" then .error (helpTopics rest)
    else
      match forms.lookup argument with
      | some form => readForm before form rest
      | none =>
        match shapeOf argument with
        | .endOfOptions => .error .usage
        | .plain =>
          if before.model?.isSome then .error .usage
          else readFrom { before with model? := some argument } rest
        | _ =>
          match readOption before argument with
          | .error stop => .error stop
          | .ok before => readFrom before rest

def read (arguments : List String) : Except Stop Invocation :=
  readFrom ⟨none, false⟩ arguments

end Command

/-- What is left to do once the model has been analysed. -/
inductive Outcome where
  | printed (text : String)
  | serve (engine : Engine) (listenOn : Nat)
  | tools (engine : Engine)

/-- Carries out an invocation, given the content of the model file. -/
def Invocation.run (invocation : Invocation) (content : FileContent) :
    Except EngineError Outcome :=
  match Engine.load invocation.model invocation.excludeTests content with
  | .error error => .error (.load error)
  | .ok engine =>
    match invocation.command with
    | .print view => (engine.render view).map .printed
    | .serve listenOn => .ok (.serve engine listenOn)
    | .tools => .ok (.tools engine)

end ModuleRecovery
