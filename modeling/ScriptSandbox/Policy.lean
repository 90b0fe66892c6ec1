import ScriptSandbox.NameSet
import ScriptSandbox.Policy.CallPattern
import ScriptSandbox.Policy.Tables

/-!
What a script may do. `Policy.ofTables` brings the configured tables into agreement with one
another: builtins that must never be exposed are left out, a preloaded module must be allowed, and
an allowed or preloaded module is not blocked by name. `Policy.warnings` tells what was left out.
-/

namespace ScriptSandbox

structure Policy where
  allowedModules : NameSet
  preloaded : List Preload
  blockedCalls : List CallPattern
  blockedAttributes : NameSet
  blockedModuleNames : NameSet
  builtins : List String

/-- A configured entry that a policy leaves out. -/
inductive PolicyWarning
  | refusedBuiltin (name : String)
  | skippedPreload (module : String)
deriving DecidableEq

namespace PolicyTables

def allowedRoots (t : PolicyTables) : NameSet :=
  .ofList (t.allowedModules.map moduleRoot)

def allowedPreloads (t : PolicyTables) : List Preload :=
  t.preloaded.filter fun p => t.allowedRoots.contains p.root

end PolicyTables

namespace Policy

def ofTables (t : PolicyTables) : Policy where
  allowedModules := t.allowedRoots
  preloaded := t.allowedPreloads
  blockedCalls := t.blockedCalls.map CallPattern.mk
  blockedAttributes := .ofList t.blockedAttributes
  blockedModuleNames := .ofList <| t.blockedModuleNames.filter fun name =>
    !t.allowedRoots.contains name && !t.allowedPreloads.any (·.name == name)
  builtins := (t.builtins.filter fun name => !neverExposed.contains name).eraseDups

/-- What a policy leaves out of the configured tables, builtins first. -/
def warnings (t : PolicyTables) : List PolicyWarning :=
  (t.builtins.filter neverExposed.contains).map .refusedBuiltin ++
    (t.preloaded.filter fun p => !t.allowedRoots.contains p.root).map fun p =>
      .skippedPreload p.module

def allowsModule (p : Policy) (root : String) : Bool :=
  p.allowedModules.contains root

def isAlias (p : Policy) (name : String) : Bool :=
  p.preloaded.any (·.name == name)

/-- Whether a name stands for a module that a script can reach. -/
def isModuleName (p : Policy) (name : String) : Bool :=
  p.allowsModule name || p.isAlias name

/-- Whether a chain of names begins at a module that a script can reach. -/
def reachesThroughModule (p : Policy) (chain : List String) : Bool :=
  1 < chain.length && chain.head?.any p.isModuleName

/-- The first pattern that refuses a call. What is called through a module is no concern of
the patterns for plain names. -/
def blockedCall (p : Policy) (chain : List String) : Option CallPattern :=
  p.blockedCalls.find? fun pattern =>
    !(p.reachesThroughModule chain && pattern.isBare) && pattern.matchesChain chain

/-- Whether a name is an attribute that leads to the inside of the interpreter. -/
def blocksAttribute (p : Policy) (name : String) : Bool :=
  p.blockedAttributes.contains name

/-- Whether a name stands for a module that a script may not touch. -/
def blocksModuleName (p : Policy) (name : String) : Bool :=
  p.blockedModuleNames.contains name

/-- Whether a name belongs to the sandbox, so that a caller cannot bind it. -/
def isReserved (p : Policy) (name : String) : Bool :=
  p.builtins.contains name || p.isAlias name || neverExposed.contains name ||
    p.blockedCalls.any fun pattern => pattern.isBare && pattern.text == name

end Policy

end ScriptSandbox
