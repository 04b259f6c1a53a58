import InspectorProtocol.Session.World

/-!
# Disposal

A session ends when somebody disposes of it, or when its last handle is gone. A disposer closes the
session first, so that nobody connects any more, then takes the link, fails all pending requests and
waits for the end of the link.
-/

namespace InspectorProtocol.Session

namespace World

/-- The step of a disposer in a phase, if it can go on. -/
def stepDisposer (w : World) (index : Nat) (phase : DisposerPhase) : Option World :=
  let me := Agent.disposer index
  match phase with
  | .starting =>
    some ((w.shift me [.disconnected, .connecting, .opened] .closing).2.setDisposer index .arriving)
  | .arriving => some ((w.askLock me).setDisposer index .queued)
  | .queued => if w.holder = some me then some (w.setDisposer index .taking) else none
  | .taking =>
    some ({ w with link := none }.passLock.setDisposer index (.sweeping w.link))
  | .sweeping link => some (w.drain.setDisposer index (.clearing link w.requests.pending))
  | .clearing link (id :: ids) =>
    some ((w.answer id (.error .sessionClosed)).setDisposer index (.clearing link ids))
  | .clearing (some link) [] => some (w.setDisposer index (.stopping link))
  | .clearing none [] => some (w.setDisposer index .closing)
  | .stopping link => some ((w.stopLink link).setDisposer index (.joining link))
  | .joining link =>
    if w.links[link]?.any Link.hasEnded then some (w.setDisposer index .closing) else none
  | .closing => some ((w.shift me [.closing] .closed).2.setDisposer index .finished)
  | .finished => none

/-- Whether a handle of the session is left. -/
def hasHandle (w : World) : Bool :=
  w.handleHeld || w.board.holdsSession ||
    w.callers.any (!CallerPhase.isOver ·.phase) || w.disposers.any (!DisposerPhase.isOver ·)

/-- The step after the last handle is gone, if there is one. -/
def stepRelease (w : World) : Option World :=
  match w.release with
  | .held =>
    if w.hasHandle then none
    else match w.link with
      | some link => some ({ w with link := none, release := .sweeping }.stopLink link)
      | none => some { w with release := .sweeping }
  | .sweeping => some { w.drain with release := .clearing w.requests.pending }
  | .clearing (id :: ids) =>
    some { w.answer id (.error .sessionClosed) with release := .clearing ids }
  | .clearing [] => some { w with release := .released }
  | .released => none

end World

end InspectorProtocol.Session
