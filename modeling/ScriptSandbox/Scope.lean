import ScriptSandbox.Json.Value
import ScriptSandbox.Log
import ScriptSandbox.Policy
import ScriptSandbox.Source.Token
import ScriptSandbox.Text.Word

/-!
The names that a script finds when it starts: builtins, preloaded modules and the caller's
variables. A caller's variable is left out if no script could name it or if its name belongs to the
sandbox, so whatever a policy binds stays bound to what the policy says.
-/

namespace ScriptSandbox

structure Scope where
  builtins : List String
  modules : List Preload
  /-- The roots of the modules that may be imported, in increasing order. -/
  allowedImports : List String
  globals : JsonObject
  rejectedGlobals : List String

inductive GlobalRejection
  | notIdentifier
  | keyword
  | dunder
  | reserved
deriving DecidableEq

def GlobalRejection.message : GlobalRejection → String
  | notIdentifier => "not an identifier"
  | keyword => "keyword"
  | dunder => "dunder name"
  | reserved => "reserved name"

def Policy.rejection? (p : Policy) (name : String) : Option GlobalRejection :=
  if !Text.isWord name then some .notIdentifier
  else if isKeyword name then some .keyword
  else if ['_', '_'].isPrefixOf name.toList then some .dunder
  else if p.isReserved name then some .reserved
  else none

/-- The scope that a policy gives to a script with a caller's variables. -/
def Policy.scope (p : Policy) (globals : JsonObject) : Scope where
  builtins := p.builtins
  modules := p.preloaded
  allowedImports := p.allowedModules.toList
  globals := globals.filter fun name => (p.rejection? name).isNone
  rejectedGlobals := globals.names.filter fun name => (p.rejection? name).isSome

/-- A caller's variable that is left out, and why. -/
structure RejectedGlobal where
  name : String
  reason : GlobalRejection

/-- The caller's variables that are left out, in the order of their names. -/
def Policy.rejections (p : Policy) (globals : JsonObject) : List RejectedGlobal :=
  globals.names.filterMap fun name => (p.rejection? name).map fun reason => ⟨name, reason⟩

namespace Scope

def provides (s : Scope) (name : String) : Bool :=
  s.builtins.contains name || s.modules.any (·.name == name) || s.globals.contains name

/-- The variables that a script leaves behind, without what the sandbox gave to it. Private names
are left out too, while a caller's variable is kept. -/
def sanitizeLocals (s : Scope) (locals : JsonObject) : JsonObject :=
  locals.filter fun name =>
    name.toList.head? != some '_' && (s.globals.contains name || !s.provides name)

end Scope

instance : Loggable PolicyWarning where
  logEntry
    | .refusedBuiltin name =>
      { level := .warn, message := "Refusing to expose builtin to sandboxed code",
        fields := [("builtin", name)] }
    | .skippedPreload module =>
      { level := .warn, message := "Preloaded module is not whitelisted, skipping",
        fields := [("module", module)] }

instance : Loggable RejectedGlobal where
  logEntry r :=
    { level := .warn, message := "Dropping injected global",
      fields := [("key", r.name), ("reason", r.reason.message)] }

end ScriptSandbox
