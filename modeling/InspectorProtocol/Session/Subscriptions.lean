import InspectorProtocol.MethodMap
import InspectorProtocol.Session.Observation

/-!
# Event subscriptions

Handlers subscribe to wire methods. A typed handler gets the payload that the method map reads from
an event's parameters, a raw one the parameters as they are. Delivering an event runs the handlers
that were subscribed when the delivery began, one after another in order of subscription; what they
do to the subscriptions counts from the next delivery on. A handler may break off with a message:
that is reported, and the others still run.
-/

namespace InspectorProtocol.Session

structure Subscription (α : Type) where
  id : Nat
  method : String
  raw : Bool
  handler : α

/-- What a handler is given. -/
inductive Argument where
  | payload (value : Value)
  | params (value : Json)

def Argument.toJson : Argument → Json
  | .payload value => value.toJson
  | .params value => value

structure Subscriptions (α : Type) where
  nextId : Nat := 0
  /-- oldest first -/
  entries : List (Subscription α) := []

namespace Subscriptions

variable {α : Type}

/-- Subscribe a handler; its id. -/
def subscribe (s : Subscriptions α) (method : String) (raw : Bool) (handler : α) :
    Nat × Subscriptions α :=
  (s.nextId, ⟨s.nextId + 1, s.entries ++ [⟨s.nextId, method, raw, handler⟩]⟩)

/-- End a subscription; whether it was there. -/
def unsubscribe (s : Subscriptions α) (id : Nat) : Bool × Subscriptions α :=
  (s.entries.any (·.id == id), { s with entries := s.entries.filter (·.id != id) })

/-- The subscriptions to a method, oldest first. -/
def subscribers (s : Subscriptions α) (method : String) : List (Subscription α) :=
  s.entries.filter (·.method == method)

def count (s : Subscriptions α) (method : String) : Nat := (s.subscribers method).length

end Subscriptions

/-- The result of delivering an event. -/
structure Delivery (σ : Type) where
  state : σ
  /-- how many handlers ran to their end -/
  delivered : Nat := 0
  observations : List Observation := []

namespace Delivery

/-- An event that no type is known for, as it is reported. -/
def unknownEventText (event : Wire.Event) : String :=
  "\x7b\"method\":" ++ Text.quoted event.method ++ ",\"params\":" ++ event.params.text ++ "\x7d"

/-- The payload of an event, and what reading it gives to report. -/
def payload? (methods : MethodMap) (bindings : Bindings) (event : Wire.Event) :
    Option Value × List Observation :=
  match methods.decodeEvent? bindings event.method event.params with
  | none => (none, [.unrecognizedMessage (unknownEventText event)])
  | some (.ok value) => (some value, [])
  | some (.error reason) =>
    (none, [.decodeFailure event.method (.ofValueError event.method reason)])

variable {α σ : Type}

/-- What a subscription gets from an event: a typed one nothing if the event has no payload. -/
def argument? (payload : Option Value) (event : Wire.Event) (s : Subscription α) :
    Option Argument :=
  if s.raw then some (.params event.params) else payload.map .payload

/-- Run one handler. `run` answers with a message if the handler breaks off. -/
def runHandler (run : Subscription α → Argument → σ → Option String × σ) (payload : Option Value)
    (event : Wire.Event) (d : Delivery σ) (s : Subscription α) : Delivery σ :=
  match argument? payload event s with
  | none => d
  | some argument =>
    match run s argument d.state with
    | (none, state) => { d with state := state, delivered := d.delivered + 1 }
    | (some message, state) =>
      { d with
        state := state
        observations := d.observations ++ [.handlerFailure event.method message] }

/-- Deliver an event to the subscriptions of `handlers`. -/
def deliver (methods : MethodMap) (bindings : Bindings)
    (run : Subscription α → Argument → σ → Option String × σ) (handlers : List (Subscription α))
    (event : Wire.Event) (state : σ) : Delivery σ :=
  let (payload, observations) := payload? methods bindings event
  handlers.foldl (runHandler run payload event) { state, observations }

end Delivery

end InspectorProtocol.Session
