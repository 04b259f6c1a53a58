/-!
# Log events

What a program tells about its work. An event has a level and a target, the part of the program it
comes from.
-/

namespace InspectorProtocol.Log

inductive Level where
  | error
  | warn
  | info
  | debug
  | trace
  deriving DecidableEq, Repr

namespace Level

def name : Level → String
  | .error => "ERROR"
  | .warn => "WARN"
  | .info => "INFO"
  | .debug => "DEBUG"
  | .trace => "TRACE"

def all : List Level := [.error, .warn, .info, .debug, .trace]

/-- The place of a level; a filter that lets a level pass lets the ones before it pass too. -/
def rank : Level → Nat
  | .error => 1
  | .warn => 2
  | .info => 3
  | .debug => 4
  | .trace => 5

end Level

structure Event where
  level : Level
  target : String
  text : String

/-- The line of an event. -/
def Event.line (e : Event) : String := s!"{e.level.name} {e.target}: {e.text}\n"

end InspectorProtocol.Log
