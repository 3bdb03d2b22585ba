import ModuleRecovery.Json.Record
import ModuleRecovery.Session
import ModuleRecovery.Web.MediaType
import ModuleRecovery.Web.Query

/-!
# HTTP requests

Each report has a path of its own.  A path is matched as it is written.  Reports
are read with `GET`; loading the model again and identifying modules take `POST`.
`HEAD` is answered like `GET` without the body, and `OPTIONS` is always allowed,
so that pages of other origins may ask.

A request that is refused before it reaches the engine is answered in plain text,
everything else in JSON.
-/

namespace ModuleRecovery.Web

structure Request where
  method : String
  target : String
  contentType? : Option String
  body : String

structure Response where
  status : Nat
  contentType? : Option String
  body : String

namespace Response

def bare (status : Nat) : Response :=
  ⟨status, none, ""⟩

def json (status : Nat) (value : Json) : Response :=
  ⟨status, some "application/json", value.compact⟩

def refusal (status : Nat) (reason : String) : Response :=
  ⟨status, some "text/plain; charset=utf-8", reason⟩

/-- The answer of the engine; `status` is that of a failure. -/
def ofAnswer (status : Nat) (answer : Except EngineError Report) : Response :=
  match answer with
  | .ok report => json 200 report.toJson
  | .error error => json status (.object [("error", .string error.message)])

end Response

inductive Route where
  | health
  | reload
  | callGraph
  | coupling
  | pair
  | matrix
  | dendrogram
  | modules
  deriving DecidableEq, Repr

namespace Route

def ofPath? (path : String) : Option Route :=
  [("/health", health), ("/reload", reload), ("/callgraph", callGraph),
   ("/coupling", coupling), ("/coupling/pair", pair),
   ("/coupling/matrix", matrix), ("/dendrogram", dendrogram),
   ("/modules", modules)].lookup path

/-- The route takes `POST`; the others take `GET`. -/
def takesPost : Route → Bool
  | reload | modules => true
  | _ => false

def allows (route : Route) (method : String) : Bool :=
  if route.takesPost then method == "POST"
  else method == "GET" || method == "HEAD"

end Route

/-- The target without a scheme and a host. -/
def localTarget (target : List Char) : List Char :=
  match target with
  | '/' :: _ => target
  | _ =>
    match target.span (· != ':') with
    | (_, ':' :: '/' :: '/' :: rest) =>
      match rest.dropWhile fun c => c != '/' && c != '?' && c != '#' with
      | '/' :: path => '/' :: path
      | rest => '/' :: rest
    | _ => target

/-- The path and the query of a target; what follows a `#` is dropped. -/
def splitTarget (target : String) : String × List Char :=
  let shown := (localTarget target.toList).takeWhile (· != '#')
  let (path, query) := splitFirst '?' shown
  (String.ofList path, query)

def couplingQuery? (query : List Char) : Option Query :=
  match parameter? "limit" (parameters query) with
  | none => none
  | some none => some (.coupling none)
  | some (some value) =>
    match Text.Numeral.readSigned Query.maxLimit value.toList with
    | .ok limit => some (.coupling (some limit))
    | .error _ => none

def pairQuery? (query : List Char) : Option Query :=
  let all := parameters query
  match parameter? "a" all, parameter? "b" all with
  | some (some a), some (some b) => some (.pair a b)
  | _, _ => none

/-- The only field of a request for modules. -/
def moduleFields : List (Json.Field Empty (Option Float)) :=
  [{ key := "threshold"
     isGiven := Option.isSome
     read := fun _ =>
       .scan fun input => (Json.readAnyNumber input).map fun (value, rest) =>
         (some value.toFloat, rest) }]

/-- The threshold in the body of a request for modules. -/
def readThreshold (body : String) : Except Json.Fault Float :=
  (Json.wholeText
    (Json.readRecord moduleFields none fun value? =>
      some (value?.getD Engine.defaultThreshold)) body).2

/-- The answer to a question, in which a failure has the given status. -/
def respondAsk (session : Session) (status : Nat) (query : Query) :
    Session × Response :=
  let (session, answer) := session.ask query
  (session, .ofAnswer status answer)

/-- The answer to a question, or the refusal if there is none. -/
def respondQuery (session : Session) (query? : Option Query) :
    Session × Response :=
  match query? with
  | some query => respondAsk session 400 query
  | none => (session, .refusal 400 "Failed to deserialize query string")

def respondModules (session : Session) (request : Request) :
    Session × Response :=
  if !request.contentType?.any isJsonType then
    (session,
      .refusal 415 "Expected request with `Content-Type: application/json`")
  else
    match readThreshold request.body with
    | .ok value => respondAsk session 400 (.modules value)
    | .error .mismatch =>
      (session,
        .refusal 422 "Failed to deserialize the JSON body into the target type")
    | .error _ =>
      (session, .refusal 400 "Failed to parse the request body as JSON")

/-- The answer on a route, and the session after it. -/
def respond (session : Session) (route : Route) (request : Request)
    (query : List Char) : Session × Response :=
  match route with
  | .health => respondAsk session 500 .health
  | .reload =>
    let (session, answer) := session.reload
    (session, .ofAnswer 500 answer)
  | .callGraph => respondAsk session 500 .callGraph
  | .coupling => respondQuery session (couplingQuery? query)
  | .pair => respondQuery session (pairQuery? query)
  | .matrix => respondAsk session 500 .matrix
  | .dendrogram => respondAsk session 500 .dendrogram
  | .modules => respondModules session request

/-- The answer to a request, and the session after it. -/
def handle (session : Session) (request : Request) : Session × Response :=
  if request.method = "OPTIONS" then (session, .bare 200)
  else
    let (path, query) := splitTarget request.target
    match Route.ofPath? path with
    | none => (session, .bare 404)
    | some route =>
      if route.allows request.method then
        let (session, response) := respond session route request query
        if request.method = "HEAD" then (session, { response with body := "" })
        else (session, response)
      else (session, .bare 405)

end ModuleRecovery.Web
