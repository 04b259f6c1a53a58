import InspectorProtocol.Address.Basic

/-!
# Connecting

What becomes of an attempt to connect that the machine answers with a fault, and which fault a
socket path has that nobody listens on.
-/

namespace InspectorProtocol.Address

/-- The longest path of a socket has one byte less. -/
def socketPathLimit : Nat := 108

/-- Why nothing can be connected to at a path where there is no socket. -/
def socketFault (path : String) : IoFault :=
  if path.toList.contains '\x00' then .socketPathWithNul
  else if socketPathLimit ≤ path.utf8ByteSize then .socketPathTooLong
  else if path.isEmpty then .invalidArgument
  else if path.toList.all (· == '/') then .connectionRefused
  else .notFound

/-- The failure to connect if the machine answers with `fault`. -/
def failureFor (address : Address) (fault : IoFault) : Failure :=
  match address with
  | .webSocket url =>
    .connection s!"WebSocket handshake with {url} failed: {(Failure.io fault).message}"
  | .tcp endpoint => .connection s!"Failed to connect to {endpoint}: {fault.message}"
  | .unix path => .connection s!"Failed to connect to {path}: {fault.message}"

/-- Why a session cannot connect to a text: it is no address, or nobody is there. -/
def unreachable (text : String) : Failure :=
  match parse text with
  | .error failure => failure
  | .ok (.unix path) => (Address.unix path).failureFor (socketFault path)
  | .ok address => address.failureFor .connectionRefused

end InspectorProtocol.Address
