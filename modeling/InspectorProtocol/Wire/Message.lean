import InspectorProtocol.Failure

/-!
# Messages

A command goes out under an id; a response comes back under it, or without one; an event comes
without having been asked for. `classify` tells from a text which of these it is: whatever has an
id, a result or an error is a response, whatever else has a method is an event, and all other texts
are not recognized. Null members count as absent.
-/

namespace InspectorProtocol

namespace Json

/-- The object without members. -/
def emptyObject : Json := .object []

end Json

namespace RemoteError

open Json.Decoder in
/-- An error object; every member may be left out. -/
def read (origin : Json.Origin) : Nat → Json.Decoder RemoteError
  | 0 => tooDeep "RemoteError"
  | budget + 1 => record origin "RemoteError"
      [.free "code" int64 fun code e => { e with code },
        .free "message" string fun message e => { e with message },
        .free "data" (optional (any budget)) fun data e => { e with data }] {}

def toFailure (e : RemoteError) : Failure := .remote e

end RemoteError

namespace Wire

/-- A command on its way out. -/
structure Command where
  id : Int
  method : String
  params : Option Json

namespace Command

/-- Whether parameters say nothing, so that they are left out. -/
def isEmptyParams : Json → Bool
  | .null => true
  | .object [] => true
  | _ => false

/-- A command without parameters that say nothing. -/
def make (id : Int) (method : String) (params : Option Json) : Command :=
  ⟨id, method, params.filter fun p => !isEmptyParams p⟩

/-- The text of a command: its id, its method, and its parameters if it has any. -/
def text (c : Command) : String :=
  "\x7b\"id\":" ++ toString c.id ++ ",\"method\":" ++ Json.quote c.method ++
    (match c.params with
      | none => ""
      | some params => ",\"params\":" ++ params.text) ++ "\x7d"

end Command

structure Response where
  id : Option Int := none
  method : Option String := none
  result : Option Json := none
  error : Option RemoteError := none

namespace Response

def isError (r : Response) : Bool := r.error.isSome

/-- What a waiting caller gets: the error if there is one, else the result, which is the empty
object if it is null or missing. -/
def outcome (r : Response) : Except RemoteError Json :=
  match r.error, r.result with
  | some error, _ => .error error
  | none, some .null => .ok Json.emptyObject
  | none, some result => .ok result
  | none, none => .ok Json.emptyObject

end Response

structure Event where
  method : String
  params : Json

/-- A message that came in. -/
inductive Inbound where
  | response (frame : Response)
  | event (frame : Event)
  | unrecognized (text : String)

/-- All members a message may have. -/
structure Members where
  id : Option Int := none
  method : Option String := none
  params : Option Json := none
  result : Option Json := none
  error : Option RemoteError := none

namespace Members

open Json.Decoder in
def read (origin : Json.Origin) : Nat → Json.Decoder Members
  | 0 => tooDeep "IncomingFrame"
  | budget + 1 => record origin "IncomingFrame"
      [.free "id" (optional int64) fun id m => { m with id },
        .free "method" (optional string) fun method m => { m with method },
        .free "params" (optional (any budget)) fun params m => { m with params },
        .free "result" (optional (any budget)) fun result m => { m with result },
        .free "error" (optional (RemoteError.read origin budget)) fun error m =>
          { m with error }] {}

end Members

/-- What a text is. -/
def classify (text : String) : Inbound :=
  match Json.decodeText (Members.read .text) text with
  | .error _ => .unrecognized text
  | .ok m =>
    if m.id.isSome || m.result.isSome || m.error.isSome then
      .response ⟨m.id, m.method, m.result, m.error⟩
    else match m.method with
      | some method => .event ⟨method, m.params.getD Json.emptyObject⟩
      | none => .unrecognized text

end Wire

end InspectorProtocol
