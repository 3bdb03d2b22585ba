import ModuleRecovery.Json.Parser
import ModuleRecovery.ToolServer

/-!
# Messages to the tool server

The tools are reached by JSON-RPC messages.  A message with an `id` is a request,
and its answer carries the same `id`; one without is a notification, and is not
answered.
-/

namespace ModuleRecovery.ToolServer

inductive Refusal where
  | malformedText
  | unknownMethod
  | invalidArguments
  deriving DecidableEq, Repr

namespace Refusal

def code : Refusal → Int
  | malformedText => -32700
  | unknownMethod => -32601
  | invalidArguments => -32602

def message : Refusal → String
  | malformedText => "Parse error"
  | unknownMethod => "Method not found"
  | invalidArguments => "Invalid params"

end Refusal

/-- The version of the exchange that is spoken when none is asked for. -/
def defaultVersion : String := "2025-06-18"

/-- What the server can do: it has tools. -/
def capabilities : Json :=
  .object [("tools", .object [])]

/-- The answer to the first request. -/
def welcome (parameters : Json) : Json :=
  let version :=
    match parameters.member? "protocolVersion" with
    | some (.string version) => version
    | _ => defaultVersion
  .object [("protocolVersion", .string version),
    ("capabilities", capabilities),
    ("serverInfo", .object [("name", .string "mftool"),
      ("version", .string "0.1.0")]),
    ("instructions", .string instructions)]

/-- The form of a record with the given fields. -/
def recordForm (fields required : List String) : Json :=
  let base := [("type", Json.string "object"),
    ("properties", .object (fields.map fun name => (name, .object [])))]
  .object <|
    if required.isEmpty then base
    else base ++ [("required", .array (required.map .string))]

def announcement (tool : Tool) : Json :=
  .object [("name", .string tool.name),
    ("description", .string tool.description),
    ("inputSchema", recordForm tool.inputs tool.required),
    ("outputSchema", recordForm tool.outputs [])]

def callResult (answer : Answer) : Json :=
  let content := ("content",
    Json.array [.object [("type", .string "text"), ("text", .string answer.text)]])
  let outcome := ("isError", Json.bool answer.isFailure)
  match answer with
  | .report report =>
    .object [content, ("structuredContent", report.toJson.sortKeys), outcome]
  | .failure _ => .object [content, outcome]

def result (engine : Engine) (method : String) (parameters : Json) :
    Except Refusal Json :=
  match method with
  | "initialize" => .ok (welcome parameters)
  | "ping" => .ok (.object [])
  | "tools/list" =>
    .ok (.object [("tools", .array (Tool.all.map announcement))])
  | "tools/call" =>
    let arguments := (parameters.member? "arguments").getD (.object [])
    match parameters.member? "name" with
    | some (.string name) =>
      match call? engine name arguments with
      | some answer => .ok (callResult answer)
      | none => .error .invalidArguments
    | _ => .error .invalidArguments
  | _ => .error .unknownMethod

def envelope (id : Json) (outcome : Except Refusal Json) : Json :=
  let body :=
    match outcome with
    | .ok value => ("result", value)
    | .error refusal =>
      ("error", .object [("code", .integer refusal.code),
        ("message", .string refusal.message)])
  .object [("jsonrpc", .string "2.0"), ("id", id), body]

/-- The line that answers a line, if there is one. -/
def respondLine? (engine : Engine) (line : String) : Option String :=
  match Json.parse line with
  | .error _ => some (envelope .null (.error .malformedText)).compact
  | .ok message =>
    match message.member? "id", message.member? "method" with
    | some id, some (.string method) =>
      let parameters := (message.member? "params").getD (.object [])
      some (envelope id (result engine method parameters)).compact
    | _, _ => none

end ModuleRecovery.ToolServer
