/-
# Levels of logging

How much is logged, by the number of times that more was asked for.
-/

namespace Fleet

/-- How much is logged. -/
inductive LogLevel where
  | warn
  | info
  | debug
  | trace
  deriving DecidableEq, Repr, Inhabited

namespace LogLevel

/-- The level for a count of requests for more. -/
def ofCount : Nat → LogLevel
  | 0 => warn
  | 1 => info
  | 2 => debug
  | _ => trace

/-- The name of a level. -/
def name : LogLevel → String
  | warn => "WARN"
  | info => "INFO"
  | debug => "DEBUG"
  | trace => "TRACE"

end LogLevel

end Fleet
