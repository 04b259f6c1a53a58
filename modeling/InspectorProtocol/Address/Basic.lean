import InspectorProtocol.Address.Url
import InspectorProtocol.Failure

/-!
# Addresses

Where a session may connect to: a web socket, a TCP port or a Unix socket. The scheme tells them
apart; a text that starts with a slash is the path of a Unix socket as it stands.
-/

namespace InspectorProtocol

inductive Address where
  | webSocket (url : String)
  | tcp (endpoint : String)
  | unix (path : String)
  deriving DecidableEq, Repr

namespace Address

open Text

private def urlAfter (kind : String) (web : Bool) (text rest : String) : Except Failure Url :=
  (Url.read web rest.toList).mapError fun fault =>
    .invalidAddress s!"Invalid {kind} URL '{text}': {fault.message}"

private def tcpOf (text rest : String) : Except Failure Address := do
  let url ← urlAfter "TCP" false text rest
  match url.host, url.port with
  | none, _ => .error (.invalidAddress s!"Missing host in TCP URL '{text}'")
  | some _, none => .error (.invalidAddress s!"Missing port in TCP URL '{text}'")
  | some host, some port => .ok (.tcp s!"{host.text}:{port}")

/-- The address a text stands for. -/
def parse (text : String) : Except Failure Address :=
  match dropLead? "ws://" text, dropLead? "wss://" text, dropLead? "tcp://" text,
      dropLead? "unix://" text with
  | some rest, _, _, _ => do
    let _ ← urlAfter "WebSocket" true text rest
    return .webSocket text
  | _, some rest, _, _ => do
    let _ ← urlAfter "WebSocket" true text rest
    return .webSocket text
  | _, _, some rest, _ => tcpOf text rest
  | _, _, _, some rest => do
    let url ← urlAfter "Unix" false text rest
    return .unix (String.ofList url.path)
  | none, none, none, none =>
    if startsWith text "/" then .ok (.unix text)
    else .error (.invalidAddress
      s!"Unsupported address '{text}' (expected ws://, wss://, tcp://, or unix://)")

end Address

end InspectorProtocol
