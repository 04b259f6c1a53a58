import InspectorProtocol.Wire.Message

/-!
# Pending requests

Every request gets an id of its own and waits until a response with that id comes, its frame cannot
be written, the session closes, or its caller gives up. A response without an id goes to the only
pending request, if there is just one. Whoever takes a request out of the table has its outcome to
send. Outcomes stay until their caller takes them; nobody looks at those of a caller that is gone.
-/

namespace InspectorProtocol.Session

/-- What a caller gets. -/
abbrev Outcome := Except Failure Json

structure Requests where
  nextId : Int := 1
  /-- the ids of the requests in the table, in whatever order it lists them -/
  pending : List Int := []
  /-- outcomes that were sent and that nobody has taken yet -/
  outcomes : List (Int × Outcome) := []
  /-- whether no further request is accepted -/
  closed : Bool := false

/-- Where a response went. -/
inductive Routing where
  | delivered (id : Int)
  /-- nobody waits for it; the frame is handed back -/
  | unrouted (frame : Wire.Response)

/-- The outcome that a response stands for. -/
def outcomeOf (frame : Wire.Response) : Outcome :=
  match frame.outcome with
  | .ok result => .ok result
  | .error error => .error (.remote error)

namespace Requests

/-- Use up the next id. -/
def draw (r : Requests) : Int × Requests := (r.nextId, { r with nextId := r.nextId + 1 })

/-- Put a request into the table. -/
def enlist (r : Requests) (id : Int) : Requests := { r with pending := r.pending ++ [id] }

/-- Take a request out of the table. -/
def take (r : Requests) (id : Int) : Requests := { r with pending := r.pending.filter (· != id) }

/-- Take all requests out of the table and accept no more. -/
def drain (r : Requests) : List Int × Requests :=
  (r.pending, { r with pending := [], closed := true })

def send (r : Requests) (id : Int) (outcome : Outcome) : Requests :=
  { r with outcomes := r.outcomes ++ [(id, outcome)] }

/-- Accept a request under the next id. An id is used up even if the request is refused. -/
def register (r : Requests) : Except Failure Int × Requests :=
  let (id, r) := r.draw
  if r.closed then (.error .sessionClosed, r) else (.ok id, r.enlist id)

/-- Settle one request that waits. -/
def settle (r : Requests) (id : Int) (outcome : Outcome) : Requests := (r.take id).send id outcome

/-- The request that a response is for. -/
def addressee? (r : Requests) (frame : Wire.Response) : Option Int :=
  match frame.id, r.pending with
  | some id, pending => if pending.contains id then some id else none
  | none, [id] => some id
  | none, _ => none

/-- Route a response to the request it is for. -/
def complete (r : Requests) (frame : Wire.Response) : Routing × Requests :=
  match r.addressee? frame with
  | some id => (.delivered id, r.settle id (outcomeOf frame))
  | none => (.unrouted frame, r)

/-- Fail one request, if it waits. -/
def fail (r : Requests) (id : Int) (reason : Failure) : Bool × Requests :=
  if r.pending.contains id then (true, r.settle id (.error reason)) else (false, r)

/-- Fail every request that waits and accept no more; how many waited. -/
def closeAll (r : Requests) (reason : Failure) : Nat × Requests :=
  let (ids, r) := r.drain
  (ids.length, ids.foldl (fun r id => r.send id (.error reason)) r)

/-- Forget a request whose caller gives up or has its outcome. -/
def release (r : Requests) (id : Int) : Requests :=
  { r with
    pending := r.pending.filter (· != id)
    outcomes := r.outcomes.filter (·.1 != id) }

/-- The outcome of a request, once it has one. -/
def outcome? (r : Requests) (id : Int) : Option Outcome := r.outcomes.lookup id

end Requests

end InspectorProtocol.Session
