import ScriptSandbox.Config
import ScriptSandbox.Json.Decoder

/-!
Configurations from JSON.
-/

namespace ScriptSandbox

open RecordDecoder Decoder

def Preload.decoder : RecordDecoder Preload :=
  Preload.mk <$> required "alias" text <*> required "module" text

def PolicyTables.decoder : RecordDecoder PolicyTables :=
  let d : PolicyTables := {}
  PolicyTables.mk
    <$> defaulted "allowed_modules" text.list d.allowedModules
    <*> defaulted "preloaded" Preload.decoder.decode.list d.preloaded
    <*> defaulted "blocked_calls" text.list d.blockedCalls
    <*> defaulted "blocked_attributes" text.list d.blockedAttributes
    <*> defaulted "blocked_module_names" text.list d.blockedModuleNames
    <*> defaulted "builtins" text.list d.builtins

def Bounds.decoder : RecordDecoder Bounds :=
  Bounds.mk <$> required "min" natural <*> required "max" natural <*> required "default" natural

def RequestBounds.decoder : RecordDecoder RequestBounds :=
  let d : RequestBounds := {}
  RequestBounds.mk
    <$> defaulted "timeout_seconds" Bounds.decoder.decode d.timeoutSeconds
    <*> defaulted "memory_mb" Bounds.decoder.decode d.memoryMb
    <*> defaulted "max_code_chars" natural d.maxCodeChars

def OutputBounds.decoder : RecordDecoder OutputBounds :=
  let d : OutputBounds := {}
  OutputBounds.mk
    <$> defaulted "max_stream_bytes" natural d.maxStreamBytes
    <*> defaulted "max_locals_bytes" natural d.maxLocalsBytes

def ComplexityLimits.decoder : RecordDecoder ComplexityLimits :=
  let d : ComplexityLimits := {}
  ComplexityLimits.mk
    <$> defaulted "max_nesting_depth" natural d.maxNestingDepth
    <*> defaulted "max_cyclomatic_complexity" natural d.maxCyclomaticComplexity

def IsolationMode.decoder : Decoder IsolationMode :=
  oneOf false [("process", .process), ("thread", .thread)]

def Runtime.decoder : RecordDecoder Runtime :=
  let d : Runtime := {}
  Runtime.mk
    <$> defaulted "python" text d.interpreter
    <*> defaulted "isolation" IsolationMode.decoder d.isolation
    <*> defaulted "cpu_grace_seconds" natural d.cpuGraceSeconds
    <*> defaulted "scratch_dir" text.nullable d.scratchDir

def Config.decoder : RecordDecoder Config :=
  Config.mk
    <$> defaulted "registry" PolicyTables.decoder.decode {}
    <*> defaulted "limits" RequestBounds.decoder.decode {}
    <*> defaulted "output" OutputBounds.decoder.decode {}
    <*> defaulted "analyzer" ComplexityLimits.decoder.decode {}
    <*> defaulted "runtime" Runtime.decoder.decode {}

end ScriptSandbox
