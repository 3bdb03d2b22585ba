/-!
# Media types

A media type is a type and a subtype with a slash between them, and then
parameters, each after a semicolon.  The subtype may end in a suffix after a
plus.  A body is taken for JSON when the type is `application` and the subtype or
its suffix is `json`; case does not matter.
-/

namespace ModuleRecovery.Web

/-- The characters of names. -/
def isTokenChar (c : Char) : Bool :=
  c.isAlphanum || "!#$%&'*+-.^_\x60|~".toList.contains c

/-- The characters allowed between quotes. -/
def isQuotedChar (c : Char) : Bool :=
  31 < c.toNat && c.toNat < 127

/-- Where reading the parameters stands. -/
inductive ParameterState where
  | start
  | name
  | valueStart
  | value
  | quoteStart
  | quoted
  | quoteEnd
  deriving DecidableEq, Repr

namespace ParameterState

/-- The state after a character, or nothing if it is not allowed there. -/
def next? (state : ParameterState) (c : Char) : Option ParameterState :=
  match state with
  | start =>
    if c = ' ' then some start
    else if isTokenChar c then some name
    else none
  | name =>
    if c = '=' then some valueStart
    else if isTokenChar c then some name
    else none
  | valueStart =>
    if c = '"' then some quoteStart
    else if isTokenChar c then some value
    else none
  | value =>
    if c = ';' then some start
    else if isTokenChar c then some value
    else none
  | quoteStart => if isQuotedChar c then some quoted else none
  | quoted =>
    if c = '"' then some quoteEnd
    else if isQuotedChar c then some quoted
    else none
  | quoteEnd =>
    if c = ';' then some start
    else if c = ' ' then some quoteEnd
    else none

def mayEnd : ParameterState → Bool
  | start | valueStart | value | quoteEnd => true
  | name | quoteStart | quoted => false

end ParameterState

/-- The text after the first semicolon is a list of parameters. -/
def areParameters (text : List Char) : Bool :=
  match text.foldlM ParameterState.next? .start with
  | some state => state.mayEnd
  | none => false

/-- The subtype without its suffix, and the suffix after its last plus; a plus
that begins the subtype belongs to it. -/
def splitSuffix (subtype : List Char) : List Char × Option (List Char) :=
  match subtype with
  | [] => ([], none)
  | first :: rest =>
    let backwards := rest.reverse
    let suffix := backwards.takeWhile (· != '+')
    match backwards.drop suffix.length with
    | [] => (subtype, none)
    | _ :: before => (first :: before.reverse, some suffix.reverse)

/-- A body of this media type is JSON. -/
def isJsonType (mediaType : String) : Bool :=
  let (type, rest) := (mediaType.toList.map Char.toLower).span isTokenChar
  match rest with
  | '/' :: rest =>
    let (subtype, rest) := rest.span isTokenChar
    let wellFormed :=
      match rest with
      | [] => true
      | ';' :: parameters => !subtype.isEmpty && areParameters parameters
      | _ => false
    let (name, suffix?) := splitSuffix subtype
    wellFormed && type == "application".toList &&
      (name == "json".toList || suffix? == some "json".toList)
  | _ => false

end ModuleRecovery.Web
