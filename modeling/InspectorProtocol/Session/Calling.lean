import InspectorProtocol.Session.World

/-!
# Calling

A caller gets hold of the link, connecting if nobody has yet, registers its request under an id of
its own, hands it to the writer and waits for the answer. A caller who waits can be given up at any
time, and leaves nothing behind but a state that it was about to change.
-/

namespace InspectorProtocol.Session

namespace World

/-- Begin an attempt to connect. -/
def beginAttempt (w : World) : Attempt × World :=
  let deadline := w.now + w.config.connectTimeout
  match w.connector with
  | .unreachable failure => (⟨some w.now, deadline, some failure⟩, w)
  | .scripted plans =>
    let plan := plans.headD {}
    (⟨plan.delay.map (w.now + ·), deadline, plan.failure⟩,
      { w with connector := .scripted plans.tail, tried := w.tried ++ [w.address] })

/-- The step of a caller in a phase, if it can go on. -/
def stepCaller (w : World) (index : Nat) (c : Caller) : Option World :=
  let me := Agent.caller index
  match c.phase with
  | .arriving => some ((w.askLock me).setCaller index .queued)
  | .queued => if w.holder = some me then some (w.setCaller index .checking) else none
  | .checking =>
    match w.link, w.state with
    | some link, .opened => some (w.passLock.setCaller index (.registering link))
    | _, _ =>
      match w.shift me [.disconnected] .connecting with
      | (false, w) => some (w.passLock.failCaller index .sessionClosed)
      | (true, w) =>
        let (attempt, w) := w.beginAttempt
        some (w.setCaller index (.connecting attempt))
  | .connecting attempt =>
    if attempt.readyAt.any (· ≤ w.now) then
      match attempt.failure with
      | some reason => some (w.setCaller index (.retreating reason))
      | none =>
        let opened := { w with links := w.links ++ [({} : Link)] }
        some (opened.setCaller index (.opening w.links.length))
    else if attempt.deadline ≤ w.now then
      some (w.setCaller index (.retreating (.connectionTimeout (w.config.connectTimeout / 1000))))
    else none
  | .retreating reason =>
    some ((w.shift me [.connecting] .disconnected).2.setCaller index (.leaving reason))
  | .leaving reason => some (w.passLock.failCaller index reason)
  | .opening link =>
    match w.shift me [.connecting] .opened with
    | (true, w) => some (w.setCaller index (.installing link))
    | (false, w) => some ((w.stopLink link).setCaller index (.undoing link))
  | .installing link =>
    some ({ w with link := some link }.passLock.setCaller index (.registering link))
  | .undoing link =>
    if w.links[link]?.any Link.hasEnded then some (w.passLock.failCaller index .sessionClosed)
    else none
  | .registering link =>
    let (id, requests) := w.requests.draw
    some ({ w with requests }.setCaller index (.enlisting link id))
  | .enlisting link id =>
    if w.requests.closed then some (w.failCaller index .sessionClosed)
    else some ({ w with requests := w.requests.enlist id }.setCaller index (.enqueueing link id))
  | .enqueueing link id =>
    match w.links[link]? with
    | none => none
    | some l =>
      if l.writerEnded then
        some ({ w with requests := w.requests.release id }.failCaller index .sessionClosed)
      else if l.queue.length < max 1 w.config.queueCapacity then
        let text := (Wire.Command.make id c.method c.params).text
        some ((w.changeLink link fun l => { l with queue := l.queue ++ [(id, text)] }).setCaller
          index (.waiting id))
      else none
  | .waiting id =>
    (w.requests.outcome? id).map fun outcome =>
      { w with requests := w.requests.release id }.setCaller index (.finished outcome)
  | .finished _ | .dropped => none

/-- Give up a call that waits for something: let go of its place at the lock and of its request. A
caller that has yet to report a change of state does not wait. -/
def dropCaller (w : World) (index : Nat) : World :=
  match w.callers[index]? with
  | none => w
  | some c =>
    if !c.phase.isSuspended || w.notices.any (·.1 = .caller index) then w
    else
      let w := w.leaveLock (.caller index)
      let w := match c.phase with
        | .enqueueing _ id | .waiting id => { w with requests := w.requests.release id }
        | _ => w
      w.setCaller index .dropped

end World

end InspectorProtocol.Session
