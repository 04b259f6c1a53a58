import InspectorProtocol.Session.Calling
import InspectorProtocol.Session.Disposal
import InspectorProtocol.Session.Traffic

/-!
# Steps

One agent acts at a time. Every order of steps is possible; `settle` takes one in which the first
agent that can act does so, and `passTime` lets timers fall due.
-/

namespace InspectorProtocol.Session

namespace World

/-- The step that an agent can take: it reports a change of state before it goes on. -/
def step (w : World) (agent : Agent) : Option World :=
  match w.notices.find? (·.1 = agent) with
  | some (_, report) =>
    some { w.observe report with notices := w.notices.filter (·.1 != agent) }
  | none =>
    match agent with
    | .caller index => w.callers[index]?.bind (w.stepCaller index)
    | .disposer index => w.disposers[index]?.bind (w.stepDisposer index)
    | .writer link => w.links[link]?.bind (w.stepWriter link)
    | .reader link => w.links[link]?.bind (w.stepReader link)
    | .deliverer link => w.links[link]?.bind (w.stepDeliverer link)
    | .pool link => w.links[link]?.bind (w.stepPool link)
    | .lateWriter link => w.links[link]?.bind (w.takeCommand link)
    | .lateReader link => w.links[link]?.bind (w.takeArrival link)
    | .lateDeliverer link => w.links[link]?.bind (w.takeEvent link)
    | .releaser => w.stepRelease

/-- The agents of a link. -/
def linkAgents (link : Nat) : List Agent :=
  [.writer link, .reader link, .deliverer link, .pool link, .lateWriter link, .lateReader link,
    .lateDeliverer link]

/-- All agents there are. -/
def agents (w : World) : List Agent :=
  (List.range w.callers.length).map .caller ++ (List.range w.disposers.length).map .disposer ++
    (List.range w.links.length).flatMap linkAgents ++ [.releaser]

/-- Let agents act, the first one that can, until none can or `fuel` steps are taken. -/
def settle : Nat → World → World
  | 0, w => w
  | fuel + 1, w =>
    match w.agents.findSome? w.step with
    | some w => settle fuel w
    | none => w

/-- When a connecting caller will have something to do, if that is later than now. -/
def nextTimer? (w : World) : Option Nat :=
  let times := w.callers.flatMap fun c =>
    match c.phase with
    | .connecting attempt => attempt.deadline :: attempt.readyAt.toList
    | _ => []
  (times.filter (w.now < ·)).min?

/-- Let time pass until `finish`, and everything happen that falls due meanwhile; `fuel` bounds the
steps and the timers. -/
def passTime : Nat → Nat → World → World
  | 0, finish, w => { w with now := max w.now finish }
  | fuel + 1, finish, w =>
    let w := w.settle (fuel + 1)
    match w.nextTimer? with
    | some t =>
      if t ≤ finish then passTime fuel finish { w with now := t } else { w with now := finish }
    | none => { w with now := max w.now finish }

end World

end InspectorProtocol.Session
