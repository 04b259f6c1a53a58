import InspectorProtocol.Session.Subscriptions

/-!
# Scripted handlers

A scripted handler keeps a record of what it is given and then reacts: it breaks off, changes the
subscriptions, or starts a command. Subscriptions are known by names; a name used again stands for
the newest subscription.
-/

namespace InspectorProtocol.Session

/-- What a handler does after its record is made. -/
inductive Reaction where
  | nothing
  /-- break off, with a message if it is known -/
  | breakOff (message : Option String)
  | subscribe (name method : String) (raw : Bool) (reaction : Reaction)
  | unsubscribe (name : String)
  | send (call method : String) (params : Option Json)

/-- Whether a reaction needs the session, so that a handler with it keeps the session alive. -/
def Reaction.holdsSession : Reaction → Bool
  | .nothing | .breakOff _ => false
  | .subscribe .. | .unsubscribe _ | .send .. => true

structure Handler where
  name : String
  reaction : Reaction := .nothing

/-- A command that a handler starts. -/
structure StartedSend where
  call : String
  method : String
  params : Option Json

/-- What handlers share. -/
structure Board where
  subscriptions : Subscriptions Handler := {}
  /-- the newest subscription of each name -/
  names : List (String × Nat) := []
  /-- what handlers were given, by name, oldest first -/
  handled : List (String × Json) := []
  /-- commands that handlers have started and nobody has taken up yet -/
  started : List StartedSend := []

namespace Board

def subscribe (b : Board) (name method : String) (raw : Bool) (reaction : Reaction) : Board :=
  let (id, subscriptions) := b.subscriptions.subscribe method raw ⟨name, reaction⟩
  { b with subscriptions := subscriptions, names := (name, id) :: b.names }

/-- End the newest subscription of a name; whether it was there. -/
def unsubscribe (b : Board) (name : String) : Bool × Board :=
  match b.names.lookup name with
  | none => (false, b)
  | some id =>
    let (removed, subscriptions) := b.subscriptions.unsubscribe id
    (removed, { b with subscriptions := subscriptions })

/-- The message of a handler that broke off. -/
def breakOffMessage (message : Option String) : String := message.getD "unknown panic"

/-- Run a handler. -/
def run (s : Subscription Handler) (argument : Argument) (b : Board) : Option String × Board :=
  let b := { b with handled := b.handled ++ [(s.handler.name, argument.toJson)] }
  match s.handler.reaction with
  | .nothing => (none, b)
  | .breakOff message => (some (breakOffMessage message), b)
  | .subscribe name method raw reaction => (none, b.subscribe name method raw reaction)
  | .unsubscribe name => (none, (b.unsubscribe name).2)
  | .send call method params =>
    (none, { b with started := b.started ++ [⟨call, method, params⟩] })

/-- Deliver an event to all its subscribers. -/
def deliver (b : Board) (methods : MethodMap) (bindings : Bindings) (event : Wire.Event) :
    Delivery Board :=
  Delivery.deliver methods bindings run (b.subscriptions.subscribers event.method) event b

/-- Whether some handler keeps the session alive. -/
def holdsSession (b : Board) : Bool :=
  b.subscriptions.entries.any (·.handler.reaction.holdsSession)

end Board

end InspectorProtocol.Session
