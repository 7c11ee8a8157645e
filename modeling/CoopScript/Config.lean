import CoopScript.Budget
import CoopScript.Error

/-! Settings of executors and of calls. -/

namespace CoopScript

structure EngineConfig where
  stackCapacity : Nat := 65536
  preemption : Preemption := {}
  deriving DecidableEq, Inhabited

structure Config where
  engine : EngineConfig := {}
  /-- How many pauses a direct call waits through. -/
  maxPauses : Nat := 10000
  deriving DecidableEq, Inhabited

inductive ConfigError where
  /-- The document is malformed or a value has the wrong type. -/
  | malformed
  | noCapacity
  | noBudget
  deriving DecidableEq

def ConfigError.message : ConfigError → String
  | malformed => "Failed to parse configuration"
  | noCapacity => "Invalid configuration: stack_capacity must be at least 1"
  | noBudget => "Invalid configuration: preemption budget must be positive"

/-- The settings if the engine can run with them. -/
def EngineConfig.validated (c : EngineConfig) : Except ConfigError EngineConfig :=
  if c.stackCapacity = 0 then .error .noCapacity
  else if c.preemption.budget = some 0 then .error .noBudget
  else .ok c

def Config.validated (c : Config) : Except ConfigError Config := do
  return { c with engine := ← c.engine.validated }

/-- Why work that an embedder asked for was not done. -/
inductive HostError where
  | device (text : String)
  | config (e : ConfigError)
  | call (e : Failure)
  /-- A direct call was still paused after this many pauses. -/
  | paused (pauses : Nat)
  deriving DecidableEq

def HostError.message : HostError → String
  | device text => text
  | config e => "Configuration error: " ++ e.message
  | call e => "Runtime error: " ++ e.message
  | paused pauses => "Call still paused after " ++ natText pauses ++ " pauses"

end CoopScript
