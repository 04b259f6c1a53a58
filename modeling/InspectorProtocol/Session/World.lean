import InspectorProtocol.Session.Config
import InspectorProtocol.Session.Handler
import InspectorProtocol.Session.Requests

/-!
# The world of a session

A session is used by callers, who send commands, and by disposers; once it is connected, a link runs
a writer, a reader, and a deliverer who hands one event at a time to a pool where handlers run. The
world holds what all of these share and how far each of them is. A phase is a point between two
accesses to what is shared, so that every order of their steps is an order of phases. Two accesses
are one step only if nobody can tell: giving the lock back goes along with the access before it, and
acting on what is found for good, as that a link has ended, along with finding it.

The link is behind a lock that is handed over in the order in which it was asked for. Whoever
changes the state of the session reports the change in a step of its own, and whoever takes requests
out of the table sends their outcomes later, one in each step.
-/

namespace InspectorProtocol.Session

/-- Who acts. -/
inductive Agent where
  | caller (index : Nat)
  | disposer (index : Nat)
  | writer (link : Nat)
  | reader (link : Nat)
  | deliverer (link : Nat)
  /-- where the handlers of a link's events run -/
  | pool (link : Nat)
  /-- the writer when it takes another command although it was told to stop -/
  | lateWriter (link : Nat)
  /-- the reader when it takes another arrival although it was told to stop -/
  | lateReader (link : Nat)
  /-- the deliverer when it takes another event although it was told to stop -/
  | lateDeliverer (link : Nat)
  /-- whoever held the last handle of the session -/
  | releaser
  deriving DecidableEq, Repr

/-- How an attempt to connect will go. -/
structure Plan where
  /-- how long it takes; nothing if it never ends -/
  delay : Option Nat := some 0
  failure : Option Failure := none

/-- Where transports come from. -/
inductive Connector where
  /-- one plan per attempt; attempts beyond them succeed at once -/
  | scripted (plans : List Plan)
  /-- every attempt fails -/
  | unreachable (failure : Failure)

/-- An attempt to connect, under way. -/
structure Attempt where
  /-- when it ends, unless it never does -/
  readyAt : Option Nat
  deadline : Nat
  failure : Option Failure

inductive CallerPhase where
  /-- about to ask for the lock -/
  | arriving
  /-- waits for the lock -/
  | queued
  /-- has the lock -/
  | checking
  | connecting (attempt : Attempt)
  /-- the attempt failed -/
  | retreating (reason : Failure)
  /-- gives the lock back and fails -/
  | leaving (reason : Failure)
  /-- the link runs but the session is not open yet -/
  | opening (link : Nat)
  /-- the session is open but the link not in place yet -/
  | installing (link : Nat)
  /-- the session was disposed meanwhile: ends the link again -/
  | undoing (link : Nat)
  | registering (link : Nat)
  /-- has an id for its request -/
  | enlisting (link : Nat) (id : Int)
  | enqueueing (link : Nat) (id : Int)
  | waiting (id : Int)
  | finished (outcome : Outcome)
  /-- given up by whoever wanted the answer -/
  | dropped

namespace CallerPhase

/-- Whether a caller is done with the session. -/
def isOver : CallerPhase → Bool
  | .finished _ | .dropped => true
  | _ => false

/-- Whether a caller waits for something, so that its call can be given up. -/
def isSuspended : CallerPhase → Bool
  | .arriving | .queued | .connecting _ | .undoing _ | .enqueueing .. | .waiting _ => true
  | _ => false

end CallerPhase

/-- One use of a session to send a command. -/
structure Caller where
  /-- what the call is known as -/
  call : String
  method : String
  params : Option Json
  phase : CallerPhase := .arriving

inductive DisposerPhase where
  /-- about to change the state -/
  | starting
  | arriving
  | queued
  /-- has the lock -/
  | taking
  /-- about to fail all pending requests -/
  | sweeping (link : Option Nat)
  /-- has taken requests out of the table and not answered them yet -/
  | clearing (link : Option Nat) (ids : List Int)
  | stopping (link : Nat)
  /-- waits for the end of a link -/
  | joining (link : Nat)
  | closing
  | finished

def DisposerPhase.isOver : DisposerPhase → Bool
  | .finished => true
  | _ => false

inductive WriterPhase where
  | idle
  | writing (id : Int) (text : String)
  /-- the frame of a request could not be written -/
  | failing (id : Int) (reason : Failure)
  /-- has taken the request out of the table -/
  | rejecting (id : Int) (reason : Failure)
  | terminating
  | sweeping
  | clearing (ids : List Int)
  | stopping
  /-- ends after closing the transport's sink -/
  | closing
  | ended
  deriving Inhabited

inductive ReaderPhase where
  | idle
  | routing (text : String)
  /-- has taken the request of a response out of the table -/
  | answering (id : Int) (frame : Wire.Response)
  /-- a response was routed to nobody -/
  | reporting (frame : Wire.Response)
  | losing (reason : Failure)
  /-- was not told to stop before the loss -/
  | alerting (reason : Failure)
  | terminating
  | sweeping
  | clearing (ids : List Int)
  | stopping
  | ended
  deriving Inhabited

inductive DelivererPhase where
  | idle
  | waiting
  | ended
  deriving DecidableEq, Repr, Inhabited

/-- What the remote side does. -/
inductive Arrival where
  | text (text : String)
  | fault (reason : Failure)
  | finished

/-- What the reader does next about an arrival. -/
def ReaderPhase.ofArrival : Arrival → ReaderPhase
  | .text text => .routing text
  | .fault reason => .losing reason
  | .finished => .losing .connectionClosed

/-- The channel to the remote side. -/
structure Transport where
  /-- what has arrived and nobody has read -/
  arrivals : List Arrival := []
  /-- what was written, oldest first -/
  written : List String := []
  /-- whether the remote side still reads -/
  peerReads : Bool := true
  /-- whether the sink is closed -/
  sinkClosed : Bool := false

structure Link where
  transport : Transport := {}
  /-- commands that wait for the writer -/
  queue : List (Int × String) := []
  /-- events that wait for the deliverer -/
  events : List Wire.Event := []
  /-- the event whose handlers run -/
  running : Option Wire.Event := none
  shutdown : Bool := false
  writer : WriterPhase := .idle
  reader : ReaderPhase := .idle
  deliverer : DelivererPhase := .idle

namespace Link

def writerEnded (l : Link) : Bool :=
  match l.writer with
  | .ended => true
  | _ => false

def readerEnded (l : Link) : Bool :=
  match l.reader with
  | .ended => true
  | _ => false

/-- Whether all three of a link's agents are done. -/
def hasEnded (l : Link) : Bool := l.writerEnded && l.readerEnded && l.deliverer == .ended

end Link

/-- How far giving up the last handle is. -/
inductive Release where
  | held
  | sweeping
  | clearing (ids : List Int)
  | released
  deriving DecidableEq, Repr

structure World where
  address : String
  config : Config
  methods : MethodMap
  bindings : Bindings
  connector : Connector := .scripted []
  now : Nat := 0
  state : State := .disconnected
  requests : Requests := {}
  board : Board := {}
  /-- who has the lock -/
  holder : Option Agent := none
  /-- who waits for the lock, in order -/
  lockQueue : List Agent := []
  /-- the link behind the lock -/
  link : Option Nat := none
  links : List Link := []
  callers : List Caller := []
  disposers : List DisposerPhase := []
  /-- changes of state that were made and not reported yet, with whoever made them -/
  notices : List (Agent × Observation) := []
  /-- reports to the observer, oldest first -/
  observations : List Observation := []
  /-- addresses tried, oldest first -/
  tried : List String := []
  /-- whether a handle is held besides those of callers, disposers and handlers -/
  handleHeld : Bool := true
  release : Release := .held

namespace World

def setCaller (w : World) (index : Nat) (phase : CallerPhase) : World :=
  { w with callers := w.callers.modify index fun c => { c with phase := phase } }

def setDisposer (w : World) (index : Nat) (phase : DisposerPhase) : World :=
  { w with disposers := w.disposers.set index phase }

def changeLink (w : World) (index : Nat) (change : Link → Link) : World :=
  { w with links := w.links.modify index change }

def observe (w : World) (o : Observation) : World :=
  { w with observations := w.observations ++ [o] }

/-- Change the state if it is one of `sources`; whether it was. The report is left to do. -/
def shift (w : World) (agent : Agent) (sources : List State) (target : State) : Bool × World :=
  if !sources.contains w.state then (false, w)
  else if w.state = target then (true, w)
  else
    (true, { w with
      state := target
      notices := w.notices ++ [(agent, .stateChange w.state target)] })

/-- Ask for the lock: take it, or wait in line. -/
def askLock (w : World) (agent : Agent) : World :=
  match w.holder with
  | none => { w with holder := some agent }
  | some _ => { w with lockQueue := w.lockQueue ++ [agent] }

/-- Give the lock to the next in line. -/
def passLock (w : World) : World :=
  match w.lockQueue with
  | [] => { w with holder := none }
  | next :: rest => { w with holder := some next, lockQueue := rest }

/-- Have nothing to do with the lock any more. -/
def leaveLock (w : World) (agent : Agent) : World :=
  if w.holder = some agent then w.passLock
  else { w with lockQueue := w.lockQueue.filter (· != agent) }

/-- Tell the agents of a link to stop. -/
def stopLink (w : World) (index : Nat) : World :=
  w.changeLink index fun l => { l with shutdown := true }

/-- Take all requests out of the table. -/
def drain (w : World) : World := { w with requests := w.requests.drain.2 }

/-- Send the outcome of a request. -/
def answer (w : World) (id : Int) (outcome : Outcome) : World :=
  { w with requests := w.requests.send id outcome }

/-- Let a caller fail. -/
def failCaller (w : World) (index : Nat) (reason : Failure) : World :=
  w.setCaller index (.finished (.error reason))

end World

end InspectorProtocol.Session
