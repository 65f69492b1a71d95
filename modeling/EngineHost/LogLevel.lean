/-!
How serious a log record is, and from where on records are shown.
-/
namespace EngineHost

inductive LogLevel
  | debug
  | info
  | warning
  | error
  | critical
  deriving DecidableEq, Repr

namespace LogLevel

/-- From the least serious up. -/
def all : List LogLevel :=
  [.debug, .info, .warning, .error, .critical]

def text : LogLevel → String
  | .debug => "DEBUG"
  | .info => "INFO"
  | .warning => "WARNING"
  | .error => "ERROR"
  | .critical => "CRITICAL"

def number : LogLevel → Nat
  | .debug => 10
  | .info => 20
  | .warning => 30
  | .error => 40
  | .critical => 50

def ofText? (s : String) : Option LogLevel :=
  all.find? (·.text == s)

theorem ofText?_text (l : LogLevel) : ofText? l.text = some l := by
  cases l <;> decide

end LogLevel

end EngineHost
