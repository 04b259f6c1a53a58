import InspectorProtocol.Session.Step

/-!
# Scenarios

A scenario is played on a session with a scripted remote side, one step after another. After each
step everything runs until nobody can go on, and then time passes. The report of a step shows what
is new. Calls and subscriptions have names; a step that names something that is not there does
nothing, and so does a step that needs the session once its handle is dropped, or the remote side
while there is no transport.
-/

namespace InspectorProtocol.Session

/-- What stands behind the name of a call. -/
inductive CallTask where
  /-- a caller; its result is read as the given record, if there is one -/
  | send (caller : Nat) (reply : Option Binding) (cancellable : Bool)
  /-- a command whose request did not fit -/
  | refused (reason : Failure)
  | dispose (disposer : Nat)

/-- What became of a call. -/
inductive CallResult where
  | outcome (outcome : Outcome)
  | disposed

/-- One step of a scenario. -/
inductive Action where
  /-- send a command; a typed one by the request and response of its method -/
  | send (call method : String) (request : Json) (cancellable : Bool)
  | sendRaw (call method : String) (params : Option Json)
  | cancel (call : String)
  | abort (call : String)
  | dispose (call : String)
  | drop
  | receive (arrival : Arrival)
  /-- the remote side stops reading -/
  | stopReading
  | subscribe (name method : String) (raw : Bool) (reaction : Reaction)
  | unsubscribe (name : String)
  | wait

structure Play where
  world : World
  /-- calls not reported as done, newest first -/
  calls : List (String × CallTask) := []
  /-- results to report, oldest first -/
  results : List (String × CallResult) := []

/-- What a step showed. -/
structure StepReport where
  /-- the state and the number of pending requests, while the session is held -/
  session : Option (State × Nat)
  connects : List String
  sent : List String
  /-- whether the newest transport can no longer be written to -/
  sinkClosed : Option Bool
  observed : List Observation
  handled : List (String × Json)
  done : List (String × CallResult)
  /-- the answer to ending a subscription -/
  removed : Option Bool

namespace Play

/-- How many steps may follow one action; no scenario comes near it. -/
def stepLimit : Nat := 1000000

def start (world : World) : Play := { world }

/-- Begin to send a command. -/
def startSend (p : Play) (call method : String) (params : Option Json) (reply : Option Binding)
    (cancellable : Bool) : Play :=
  { p with
    world := { p.world with callers := p.world.callers ++ [{ call, method, params }] }
    calls := (call, .send p.world.callers.length reply cancellable) :: p.calls }

/-- Begin to send a typed command: its request has to fit. -/
def startTyped (p : Play) (call method : String) (request : Json) (cancellable : Bool) : Play :=
  let bindings := p.world.bindings
  match bindings.request? method with
  | none => p
  | some type =>
    match bindings.decodeRecord type request with
    | .error reason => { p with calls := (call, .refused (.ofValueError method reason)) :: p.calls }
    | .ok value =>
      p.startSend call method (some value.toJson)
        ((bindings.registration? .command method).map (·.type)) cancellable

/-- Change the newest transport. -/
def onTransport (p : Play) (change : Transport → Transport) : Play :=
  match p.world.links.length with
  | 0 => p
  | newest + 1 =>
    { p with
      world := p.world.changeLink newest fun l => { l with transport := change l.transport } }

/-- Take up the calls that handlers have started: the callers from `first` on. -/
def adopt (p : Play) (first : Nat) : Play :=
  { p with
    calls := ((p.world.callers.drop first).zipIdx first).foldl
      (fun calls (c, index) => (c.call, .send index none false) :: calls) p.calls }

/-- Give up a call. -/
def giveUp (p : Play) (call : String) : Play :=
  match p.calls.lookup call with
  | some (.send index _ _) =>
    { p with
      world := p.world.dropCaller index
      calls := p.calls.filter (·.1 != call) }
  | _ => p

/-- Do what an action says; the answer to ending a subscription. -/
def perform (p : Play) (action : Action) : Play × Option Bool :=
  let held := p.world.handleHeld
  match action with
  | .send call method request cancellable =>
    (if held then p.startTyped call method request cancellable else p, none)
  | .sendRaw call method params =>
    (if held then p.startSend call method params none false else p, none)
  | .cancel call =>
    match p.calls.lookup call with
    | some (.send _ _ true) =>
      let p := p.giveUp call
      ({ p with results := p.results ++ [(call, .outcome (.error .cancelled))] }, none)
    | _ => (p, none)
  | .abort call => (p.giveUp call, none)
  | .dispose call =>
    (if held then
      { p with
        world := { p.world with disposers := p.world.disposers ++ [.starting] }
        calls := (call, .dispose p.world.disposers.length) :: p.calls }
      else p, none)
  | .drop => ({ p with world := { p.world with handleHeld := false } }, none)
  | .receive arrival =>
    (p.onTransport fun t => { t with arrivals := t.arrivals ++ [arrival] }, none)
  | .stopReading => (p.onTransport fun t => { t with peerReads := false }, none)
  | .subscribe name method raw reaction =>
    (if held then
      { p with world := { p.world with board := p.world.board.subscribe name method raw reaction } }
      else p, none)
  | .unsubscribe name =>
    if held then
      let (removed, board) := p.world.board.unsubscribe name
      ({ p with world := { p.world with board := board } }, some removed)
    else (p, none)
  | .wait => (p, none)

/-- The result of a call, once it has one. -/
def result? (p : Play) : CallTask → Option CallResult
  | .refused reason => some (.outcome (.error reason))
  | .dispose index =>
    match p.world.disposers[index]? with
    | some .finished => some .disposed
    | _ => none
  | .send index reply _ =>
    match p.world.callers[index]?, reply with
    | some ⟨_, method, _, .finished (.ok value)⟩, some type =>
      match p.world.bindings.decodeRecord type value with
      | .ok value => some (.outcome (.ok value.toJson))
      | .error reason => some (.outcome (.error (.ofValueError method reason)))
    | some ⟨_, _, _, .finished outcome⟩, _ => some (.outcome outcome)
    | _, _ => none

/-- Collect the results of the calls that have one. -/
def collect (p : Play) : Play :=
  { p with
    results := p.results ++ p.calls.reverse.filterMap fun (call, task) =>
      (p.result? task).map (call, ·)
    calls := p.calls.filter fun (_, task) => (p.result? task).isNone }

/-- The frames written to all transports. -/
def written (w : World) : List String := w.links.flatMap (·.transport.written)

/-- Play one step, with `span` to pass after it. -/
def play (p : Play) (action : Action) (span : Nat) : StepReport × Play :=
  let before := p.world
  let (p, removed) := p.perform action
  let known := p.world.callers.length
  let p := { p with world := p.world.passTime stepLimit (p.world.now + span) }
  let p := (p.adopt known).collect
  let w := p.world
  ({ session := if w.handleHeld then some (w.state, w.requests.pending.length) else none
     connects := w.tried.drop before.tried.length
     sent := (written w).drop (written before).length
     sinkClosed := w.links.getLast?.map fun l => l.transport.sinkClosed || !l.transport.peerReads
     observed := w.observations.drop before.observations.length
     handled := w.board.handled.drop before.board.handled.length
     done := p.results
     removed },
    { p with results := [] })

end Play

end InspectorProtocol.Session
