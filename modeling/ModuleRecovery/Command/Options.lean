/-!
# Options on a command line

Arguments are taken from left to right.  An option is written with two hyphens
and its name, or with one hyphen and its letter.  The value of an option follows
an equals sign, follows the letter at once, or is the next argument; a next
argument that itself looks like an option is not taken for a value.  An option
is given at most once.  Two hyphens alone end the options: what follows is taken
by position.  A request for help ends reading, and so does the first argument
that does not fit.
-/

namespace ModuleRecovery.Command

/-- Why arguments were not read to their end. -/
inductive Stop where
  | help
  | usage
  deriving DecidableEq, Repr

structure OptionRule where
  name : String
  letter : Option Char
  /-- For an option with a value, which values are allowed; a flag has none. -/
  accepts? : Option (List Char → Bool)

/-- A flag without a letter. -/
def OptionRule.flag (name : String) : OptionRule :=
  ⟨name, none, none⟩

/-- What has been read: the options with their values, and the other arguments in
their order. -/
structure Given where
  options : List (String × List Char)
  positional : List String
  deriving DecidableEq, Repr

namespace Given

def empty : Given :=
  ⟨[], []⟩

def has (given : Given) (name : String) : Bool :=
  given.options.any (·.1 == name)

def value? (given : Given) (name : String) : Option (List Char) :=
  given.options.lookup name

/-- Takes an option with its value.  It must not have been given before. -/
def takeOption (given : Given) (rule : OptionRule) (value : List Char) :
    Except Stop Given :=
  let allowed :=
    match rule.accepts? with
    | some accepts => accepts value
    | none => true
  if given.has rule.name || !allowed then .error .usage
  else .ok { given with options := given.options ++ [(rule.name, value)] }

/-- Takes an argument by position; at most `capacity` are taken. -/
def takePositional (given : Given) (capacity : Nat) (argument : String) :
    Except Stop Given :=
  if given.positional.length < capacity then
    .ok { given with positional := given.positional ++ [argument] }
  else .error .usage

end Given

/-- How an argument begins. -/
inductive Shape where
  | endOfOptions
  /-- Two hyphens, a name, and a value after an equals sign if there is one. -/
  | long (name : String) (value? : Option (List Char))
  /-- A hyphen and letters. -/
  | short (letters : List Char)
  | plain
  deriving DecidableEq, Repr

/-- Splits a text at its first equals sign. -/
def splitValue (text : List Char) : List Char × Option (List Char) :=
  match text.span (· != '=') with
  | (name, _ :: value) => (name, some value)
  | (name, []) => (name, none)

def shapeOf (argument : String) : Shape :=
  match argument.toList with
  | ['-', '-'] => .endOfOptions
  | '-' :: '-' :: text =>
    let (name, value?) := splitValue text
    .long (String.ofList name) value?
  | '-' :: letter :: letters => .short (letter :: letters)
  | _ => .plain

/-- What an option argument leads to: it is complete, or its value is to be the
next argument. -/
inductive Effect where
  | complete (given : Given)
  | awaitsValue (rule : OptionRule)

def takeLong (rules : List OptionRule) (given : Given) (name : String)
    (value? : Option (List Char)) : Except Stop Effect :=
  if name = "help" then
    match value? with
    | none => .error .help
    | some _ => .error .usage
  else
    match rules.find? (·.name == name) with
    | none => .error .usage
    | some rule =>
      match rule.accepts?.isSome, value? with
      | false, none => (given.takeOption rule []).map .complete
      | false, some _ => .error .usage
      | true, some value => (given.takeOption rule value).map .complete
      | true, none => .ok (.awaitsValue rule)

def takeShort (rules : List OptionRule) (given : Given) :
    List Char → Except Stop Effect
  | [] => .ok (.complete given)
  | letter :: rest =>
    if letter = 'h' then .error .help
    else
      match rules.find? (·.letter == some letter) with
      | none => .error .usage
      | some rule =>
        if rule.accepts?.isNone then
          match given.takeOption rule [] with
          | .ok given => takeShort rules given rest
          | .error stop => .error stop
        else
          match rest with
          | [] => .ok (.awaitsValue rule)
          | '=' :: value => (given.takeOption rule value).map .complete
          | value => (given.takeOption rule value).map .complete

/-- Reads arguments with the given options and at most `capacity` arguments by
position. -/
def readArguments (rules : List OptionRule) (capacity : Nat) (given : Given) :
    List String → Except Stop Given
  | [] => .ok given
  | argument :: rest =>
    match shapeOf argument with
    | .endOfOptions =>
      rest.foldlM (fun given => given.takePositional capacity) given
    | .plain =>
      match given.takePositional capacity argument with
      | .ok given => readArguments rules capacity given rest
      | .error stop => .error stop
    | .long name value? =>
      match takeLong rules given name value? with
      | .error stop => .error stop
      | .ok (.complete given) => readArguments rules capacity given rest
      | .ok (.awaitsValue rule) =>
        match rest with
        | [] => .error .usage
        | value :: rest =>
          if shapeOf value = .plain then
            match given.takeOption rule value.toList with
            | .ok given => readArguments rules capacity given rest
            | .error stop => .error stop
          else .error .usage
    | .short letters =>
      match takeShort rules given letters with
      | .error stop => .error stop
      | .ok (.complete given) => readArguments rules capacity given rest
      | .ok (.awaitsValue rule) =>
        match rest with
        | [] => .error .usage
        | value :: rest =>
          if shapeOf value = .plain then
            match given.takeOption rule value.toList with
            | .ok given => readArguments rules capacity given rest
            | .error stop => .error stop
          else .error .usage

end ModuleRecovery.Command
