import ScriptSandbox.CommandLine

/-!
Sessions with clients of the Model Context Protocol. Each message is a line of JSON; a request has
an identifier and gets one answer with the same identifier, and a notification gets none. A request
whose execution breaks off gets none either, and the session goes on.
-/

namespace ScriptSandbox

def parseErrorCode : Int := -32700

def invalidRequestCode : Int := -32600

def methodNotFoundCode : Int := -32601

def invalidParametersCode : Int := -32602

def CallError.message : CallError → String
  | unknownTool => "tool not found"
  | invalidArguments => "invalid arguments"

def answerJson (id : Json) (result : Json) : Json :=
  .object [("jsonrpc", .string "2.0"), ("id", id), ("result", result)]

def failureJson (id : Json) (code : Int) (message : String) : Json :=
  .object
    [("jsonrpc", .string "2.0"), ("id", id),
      ("error",
        .object [("code", .number (.integer code)), ("message", .string message)])]

def Tool.toJson (t : Tool) : Json :=
  .object
    [("name", .string t.name), ("description", .string t.description),
      ("inputSchema",
        .object
          [("type", .string "object"),
            ("properties",
              .object (t.parameters.map fun p =>
                (p.name, .object [("description", .string p.description)]))),
            ("required",
              .ofStrings ((t.parameters.filter ToolParameter.required).map
                ToolParameter.name))])]

def Reply.toJson (r : Reply) : Json :=
  .object
    [("content", .array [.object [("type", .string "text"), ("text", .string r.text)]]),
      ("isError", .bool r.isError)]

def Sandbox.introduction (s : Sandbox) : Json :=
  .object
    [("protocolVersion", .string protocolVersion),
      ("capabilities", .object [("tools", .object [])]),
      ("serverInfo",
        .object [("name", .string programName), ("version", .string programVersion)]),
      ("instructions", .string s.instructions)]

namespace Session

/-- The name of a tool and its arguments in the parameters of a call. -/
def callDecoder : RecordDecoder (String × JsonObject) :=
  (fun name arguments => (name, arguments.getD .empty))
    <$> .required "name" .text
    <*> .defaulted "arguments" Decoder.object.nullable none

def answer? (s : Sandbox) (course : Job → Course) (id : Json) (method : String)
    (parameters : Json) : Option Json :=
  match method with
  | "initialize" => some (answerJson id s.introduction)
  | "ping" => some (answerJson id (.object []))
  | "tools/list" => some (answerJson id (.object [("tools", .array (tools.map Tool.toJson))]))
  | "tools/call" =>
    match callDecoder.decode (.ofJson parameters) with
    | .error _ => some (failureJson id invalidParametersCode CallError.invalidArguments.message)
    | .ok (tool, arguments) =>
      match s.call course tool arguments with
      | .ok (.ok reply) => some (answerJson id reply.toJson)
      | .ok (.error _) => none
      | .error e => some (failureJson id invalidParametersCode e.message)
  | _ => some (failureJson id methodNotFoundCode method)

def respond (s : Sandbox) (course : Job → Course) (line : String) : Option Json :=
  match Json.ofText line with
  | .error _ => some (failureJson .null parseErrorCode "parse error")
  | .ok (.object members) =>
    match Json.lookup? members "method", Json.lookup? members "id" with
    | some (.string method), some id =>
      answer? s course id method ((Json.lookup? members "params").getD .null)
    | some (.string _), none => none
    | _, id => some (failureJson (id.getD .null) invalidRequestCode "invalid request")
  | .ok _ => some (failureJson .null invalidRequestCode "invalid request")

def isOpening (line : String) : Bool :=
  match Json.ofText line with
  | .ok (.object members) =>
    match Json.lookup? members "method" with
    | some (.string method) => method == "initialize"
    | _ => false
  | _ => false

def ending (opened : Bool) : Exit :=
  if opened then {}
  else .failed ["Failed to start MCP server: connection closed: initialized request"]

/-- The end of a session in which a client sends these lines. -/
def ofLines (s : Sandbox) (course : Job → Course) (lines : List String) : Exit :=
  { ending (lines.any isOpening) with
    stdout := String.join ((lines.filterMap (respond s course)).map fun a => a.compact ++ "\n") }

end Session

end ScriptSandbox
