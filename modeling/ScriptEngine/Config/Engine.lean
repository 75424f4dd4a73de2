import ScriptEngine.Config.Json
/-!
Engine settings: the priority new processes start with and the limits on a process's
frame and value stacks. Settings are read from a JSON document, either an object (unknown
keys ignored, a known key at most once) or an array giving the fields in order (missing
trailing fields allowed, extra ones not); every field has a default. The priority is a
32-bit integer and the limits are 64-bit unsigned integers, which must be positive.
-/
namespace ScriptEngine

structure Limits where
  maxFrames : Nat := 1000
  maxValues : Nat := 65536
  deriving DecidableEq, Repr

structure EngineConfig where
  defaultPriority : Int := 50
  limits : Limits := {}
  deriving DecidableEq, Repr

inductive ConfigError where
  /-- The text is not a settings document. -/
  | parse
  /-- A limit is zero. -/
  | zeroLimit (field : String)
  deriving DecidableEq, Repr

def ConfigError.message : ConfigError → String
  | .parse => "Invalid engine configuration"
  | .zeroLimit field => "Invalid engine configuration: " ++ field ++ " must be positive"

namespace Config

def readInt32 (cs : List Char) : Reading Int :=
  match readInteger cs with
  | some (v, rest) => if -2147483648 ≤ v ∧ v ≤ 2147483647 then some (v, rest) else none
  | none => none

def readUInt64 (cs : List Char) : Reading Nat :=
  match readInteger cs with
  | some (v, rest) => if 0 ≤ v then some (v.toNat, rest) else none
  | none => none

def readMaxFrames (l : Limits) (cs : List Char) : Reading Limits :=
  (readUInt64 cs).map fun (n, rest) => ({ l with maxFrames := n }, rest)

def readMaxValues (l : Limits) (cs : List Char) : Reading Limits :=
  (readUInt64 cs).map fun (n, rest) => ({ l with maxValues := n }, rest)

def limitField : String → Option (Limits → List Char → Reading Limits)
  | "max_frames" => some readMaxFrames
  | "max_values" => some readMaxValues
  | _ => none

/-- Limits from an object or an array, each limit defaulted. -/
def readLimits (cs : List Char) : Reading Limits :=
  readRecord limitField [readMaxFrames, readMaxValues] {} cs

def readDefaultPriority (c : EngineConfig) (cs : List Char) : Reading EngineConfig :=
  (readInt32 cs).map fun (p, rest) => ({ c with defaultPriority := p }, rest)

def readLimitsField (c : EngineConfig) (cs : List Char) : Reading EngineConfig :=
  (readLimits cs).map fun (l, rest) => ({ c with limits := l }, rest)

def configField : String → Option (EngineConfig → List Char → Reading EngineConfig)
  | "default_priority" => some readDefaultPriority
  | "limits" => some readLimitsField
  | _ => none

/-- Settings from an object or an array, each setting defaulted. -/
def readConfig (cs : List Char) : Reading EngineConfig :=
  readRecord configField [readDefaultPriority, readLimitsField] {} cs

end Config

namespace EngineConfig

/-- Both limits must be positive, the frame limit checked first. -/
def validate (c : EngineConfig) : Except ConfigError Unit :=
  if c.limits.maxFrames == 0 then .error (.zeroLimit "limits.max_frames")
  else if c.limits.maxValues == 0 then .error (.zeroLimit "limits.max_values")
  else .ok ()

def read (text : String) : Except ConfigError EngineConfig :=
  match Config.readDocument Config.readConfig text with
  | none => .error .parse
  | some c => do
    c.validate
    return c

/-- The settings as an indented JSON object, two spaces a level. -/
def toText (c : EngineConfig) : String :=
  "\x7b\n  \"default_priority\": " ++ toString c.defaultPriority ++
    ",\n  \"limits\": \x7b\n    \"max_frames\": " ++ toString c.limits.maxFrames ++
    ",\n    \"max_values\": " ++ toString c.limits.maxValues ++ "\n  \x7d\n\x7d"

end EngineConfig

end ScriptEngine
