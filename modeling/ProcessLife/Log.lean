/-! Log lines: a severity and a message. -/

namespace ProcessLife

inductive Severity where
  | error
  | warn
  | info
  | debug
  | trace
deriving DecidableEq

namespace Severity

def name : Severity → String
  | error => "ERROR"
  | warn => "WARN"
  | info => "INFO"
  | debug => "DEBUG"
  | trace => "TRACE"

/-- Larger for what is told less readily. -/
def verbosity : Severity → Nat
  | error => 1
  | warn => 2
  | info => 3
  | debug => 4
  | trace => 5

end Severity

structure LogLine where
  severity : Severity
  message : String
deriving DecidableEq

namespace LogLine

def text (line : LogLine) : String :=
  s!"{line.severity.name} {line.message}"

/-- The texts of the lines that are no more verbose than the limit. Without a limit there are
none. -/
def render (limit : Option Severity) (lines : List LogLine) : List String :=
  match limit with
  | none => []
  | some limit =>
    (lines.filter fun line => line.severity.verbosity ≤ limit.verbosity).map text

end LogLine
end ProcessLife
