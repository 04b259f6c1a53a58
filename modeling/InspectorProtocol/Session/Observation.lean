import InspectorProtocol.Log.Event
import InspectorProtocol.Wire.Message

/-!
# Observations

A session reports to its observer whatever it cannot hand to a caller. The default observer writes
a log line for each observation.
-/

namespace InspectorProtocol.Session

/-- How far a session's connection is. -/
inductive State where
  /-- not yet connected: the first send connects -/
  | disconnected
  | connecting
  | opened
  /-- being disposed -/
  | closing
  /-- for good -/
  | closed
  deriving DecidableEq, Repr

def State.name : State → String
  | .disconnected => "Disconnected"
  | .connecting => "Connecting"
  | .opened => "Open"
  | .closing => "Closing"
  | .closed => "Closed"

def State.ofName? (name : String) : Option State :=
  [disconnected, connecting, opened, closing, closed].find? (·.name == name)

inductive Observation where
  | stateChange (source target : State)
  /-- a response that no pending request matches -/
  | unroutedResponse (frame : Wire.Response)
  /-- a message that is neither a response nor a known event -/
  | unrecognizedMessage (text : String)
  /-- an event whose parameters do not fit -/
  | decodeFailure (method : String) (failure : Failure)
  /-- an event handler that broke off -/
  | handlerFailure (method message : String)
  /-- the transport failed; the session is closed after that -/
  | transportError (failure : Failure)

/-- How an optional id is written. -/
def idText : Option Int → String
  | none => "None"
  | some id => s!"Some({id})"

/-- The line that the default observer writes. -/
def Observation.logLine : Observation → Log.Level × String
  | .stateChange source target => (.debug, s!"Session state {source.name} -> {target.name}")
  | .unroutedResponse frame =>
    (.warn, "Dropping response with no pending request (id " ++ idText frame.id ++ ")")
  | .unrecognizedMessage text => (.trace, "Unrecognized message: " ++ text)
  | .decodeFailure method failure =>
    (.warn, s!"Failed to decode {method} event: " ++ failure.message)
  | .handlerFailure method message => (.error, s!"Handler for {method} panicked: {message}")
  | .transportError failure => (.error, "Transport failed: " ++ failure.message)

end InspectorProtocol.Session
