import InspectorProtocol.Session.World

/-!
# Traffic on a link

The writer puts one frame at a time on the wire, the reader routes what arrives, and the deliverer
has handlers run in the order in which events came. A transport that fails ends the session: every
pending request fails with it. An agent that was told to stop while there is more to do may do
either.
-/

namespace InspectorProtocol.Session

namespace World

/-- The states from which a lost transport closes the session. -/
def unclosed : List State := [.disconnected, .connecting, .opened, .closing]

def setWriter (w : World) (index : Nat) (phase : WriterPhase) : World :=
  w.changeLink index fun l => { l with writer := phase }

def setReader (w : World) (index : Nat) (phase : ReaderPhase) : World :=
  w.changeLink index fun l => { l with reader := phase }

/-- Why a frame cannot be written when nobody reads it. -/
def receiverGone : Failure := .sendFailed "send failed because receiver is gone"

/-- Let an idle writer take the next command, if there is one. -/
def takeCommand (w : World) (index : Nat) (l : Link) : Option World :=
  match l.writer, l.queue with
  | .idle, (id, text) :: rest =>
    some (w.changeLink index fun l => { l with queue := rest, writer := .writing id text })
  | _, _ => none

/-- The step of a link's writer, if it can go on. -/
def stepWriter (w : World) (index : Nat) (l : Link) : Option World :=
  match l.writer with
  | .idle =>
    if l.shutdown then some (w.setWriter index .closing) else w.takeCommand index l
  | .writing id text =>
    if l.transport.peerReads then
      some (w.changeLink index fun l =>
        { l with
          transport := { l.transport with written := l.transport.written ++ [text] }
          writer := .idle })
    else
      some ((w.observe (.transportError receiverGone)).setWriter index (.failing id receiverGone))
  | .failing id reason =>
    if w.requests.pending.contains id then
      some ({ w with requests := w.requests.take id }.setWriter index (.rejecting id reason))
    else some (w.setWriter index .terminating)
  | .rejecting id reason =>
    some ((w.answer id (.error (.sendFailed reason.message))).setWriter index .terminating)
  | .terminating => some ((w.shift (.writer index) unclosed .closed).2.setWriter index .sweeping)
  | .sweeping => some (w.drain.setWriter index (.clearing w.requests.pending))
  | .clearing (id :: ids) =>
    some ((w.answer id (.error .connectionClosed)).setWriter index (.clearing ids))
  | .clearing [] => some (w.setWriter index .stopping)
  | .stopping => some ((w.stopLink index).setWriter index .closing)
  | .closing =>
    some (w.changeLink index fun l =>
      { l with
        transport := { l.transport with sinkClosed := true }, queue := [], writer := .ended })
  | .ended => none

/-- Let an idle reader take the next arrival, if there is one. -/
def takeArrival (w : World) (index : Nat) (l : Link) : Option World :=
  match l.reader, l.transport.arrivals with
  | .idle, arrival :: rest =>
    some (w.changeLink index fun l =>
      { l with
        transport := { l.transport with arrivals := rest }
        reader := ReaderPhase.ofArrival arrival })
  | _, _ => none

/-- The step of a link's reader, if it can go on. -/
def stepReader (w : World) (index : Nat) (l : Link) : Option World :=
  match l.reader with
  | .idle =>
    if l.shutdown then some (w.setReader index .ended) else w.takeArrival index l
  | .routing text =>
    match Wire.classify text with
    | .response frame =>
      match w.requests.addressee? frame with
      | some id =>
        some ({ w with requests := w.requests.take id }.setReader index (.answering id frame))
      | none => some (w.setReader index (.reporting frame))
    | .event event =>
      if l.deliverer == .ended then some (w.setReader index .ended)
      else some (w.changeLink index fun l =>
        { l with events := l.events ++ [event], reader := .idle })
    | .unrecognized text => some ((w.observe (.unrecognizedMessage text)).setReader index .idle)
  | .answering id frame => some ((w.answer id (outcomeOf frame)).setReader index .idle)
  | .reporting frame => some ((w.observe (.unroutedResponse frame)).setReader index .idle)
  | .losing reason =>
    some (w.setReader index (if l.shutdown then .ended else .alerting reason))
  | .alerting reason => some ((w.observe (.transportError reason)).setReader index .terminating)
  | .terminating => some ((w.shift (.reader index) unclosed .closed).2.setReader index .sweeping)
  | .sweeping => some (w.drain.setReader index (.clearing w.requests.pending))
  | .clearing (id :: ids) =>
    some ((w.answer id (.error .connectionClosed)).setReader index (.clearing ids))
  | .clearing [] => some (w.setReader index .stopping)
  | .stopping => some ((w.stopLink index).setReader index .ended)
  | .ended => none

/-- Let an idle deliverer take the next event, if there is one. -/
def takeEvent (w : World) (index : Nat) (l : Link) : Option World :=
  match l.deliverer, l.events with
  | .idle, event :: rest =>
    some (w.changeLink index fun l =>
      { l with events := rest, running := some event, deliverer := .waiting })
  | _, _ => none

/-- The step of a link's deliverer, if it can go on. -/
def stepDeliverer (w : World) (index : Nat) (l : Link) : Option World :=
  let finish := some (w.changeLink index fun l => { l with deliverer := .ended })
  match l.deliverer with
  | .idle =>
    if l.shutdown || (l.readerEnded && l.events.isEmpty) then finish else w.takeEvent index l
  | .waiting =>
    if l.shutdown then finish
    else if l.running.isNone then
      some (w.changeLink index fun l => { l with deliverer := .idle })
    else none
  | .ended => none

/-- Run the handlers of an event, and take up the commands they start. -/
def stepPool (w : World) (index : Nat) (l : Link) : Option World :=
  match l.running with
  | none => none
  | some event =>
    let delivery := w.board.deliver w.methods w.bindings event
    let started := delivery.state.started.map fun s : StartedSend =>
      ({ call := s.call, method := s.method, params := s.params } : Caller)
    let w := { w with
      board := { delivery.state with started := [] }
      observations := w.observations ++ delivery.observations
      callers := w.callers ++ started }
    some (w.changeLink index fun l => { l with running := none })

end World

end InspectorProtocol.Session
