import InspectorProtocol.Session.Scenario
import Mathlib.Tactic.Lemma

/-!
# Runs of a session

A run is a list of moves. A move is a step of one agent or something that happens from outside: a
new call, a call given up, a disposal, the loss of the last handle, an arrival, the time. A move
that is not possible is passed over, so every list of moves is a run, and every order of steps is
the order of some run. The worlds that scenarios play through are worlds of runs.
-/

namespace InspectorProtocol.Session

inductive Move where
  | act (agent : Agent)
  | call (call method : String) (params : Option Json)
  | giveUp (caller : Nat)
  | dispose
  | dropHandle
  | arrive (link : Nat) (arrival : Arrival)
  /-- the remote side of a link stops reading, so that writing fails from then on -/
  | stopReading (link : Nat)
  | subscribe (name method : String) (raw : Bool) (reaction : Reaction)
  | unsubscribe (name : String)
  /-- the table of requests lists them in another order -/
  | relist (ids : List Int)
  /-- the clock shows a moment -/
  | tell (time : Nat)

namespace World

/-- A session that nobody has used. -/
def start (address : String) (config : Config) (methods : MethodMap) (bindings : Bindings)
    (connector : Connector) : World :=
  { address, config, methods, bindings, connector }

def changeTransport (w : World) (link : Nat) (change : Transport → Transport) : World :=
  w.changeLink link fun l => { l with transport := change l.transport }

/-- The world after a move, if the move is possible. New calls, disposals and changes of
subscriptions need a handle. -/
def move (w : World) : Move → Option World
  | .act agent => w.step agent
  | .call call method params =>
    if w.handleHeld then some { w with callers := w.callers ++ [{ call, method, params }] }
    else none
  | .giveUp caller => some (w.dropCaller caller)
  | .dispose =>
    if w.handleHeld then some { w with disposers := w.disposers ++ [.starting] } else none
  | .dropHandle => some { w with handleHeld := false }
  | .arrive link arrival =>
    some (w.changeTransport link fun t => { t with arrivals := t.arrivals ++ [arrival] })
  | .stopReading link => some (w.changeTransport link fun t => { t with peerReads := false })
  | .subscribe name method raw reaction =>
    if w.handleHeld then some { w with board := w.board.subscribe name method raw reaction }
    else none
  | .unsubscribe name =>
    if w.handleHeld then some { w with board := (w.board.unsubscribe name).2 } else none
  | .relist ids =>
    if ids.isPerm w.requests.pending then
      some { w with requests := { w.requests with pending := ids } }
    else none
  | .tell time => some { w with now := time }

/-- The world after a list of moves; those that are not possible are passed over. -/
def run (w : World) (moves : List Move) : World :=
  moves.foldl (fun w m => (w.move m).getD w) w

lemma run_append (w : World) (first second : List Move) :
    w.run (first ++ second) = (w.run first).run second :=
  List.foldl_append

lemma run_cons {w w' : World} {m : Move} (h : w.move m = some w') (moves : List Move) :
    w.run (m :: moves) = w'.run moves := by
  simp [run, h]

lemma run_singleton {w w' : World} {m : Move} (h : w.move m = some w') : w.run [m] = w' := by
  simp [run, h]

/-- What holds in one world and is kept by every move holds in all worlds of runs from there. -/
lemma run_induction {P : World → Prop} {w : World} (hstart : P w)
    (hmove : ∀ w w' m, P w → w.move m = some w' → P w') (moves : List Move) : P (w.run moves) := by
  induction moves generalizing w with
  | nil => exact hstart
  | cons m moves ih =>
    change P (((w.move m).getD w).run moves)
    cases h : w.move m with
    | none => exact ih hstart
    | some w' => exact ih (hmove w w' m hstart h)

/-! ### Scenarios are runs -/

lemma settle_is_run (fuel : Nat) (w : World) : ∃ moves, w.settle fuel = w.run moves := by
  induction fuel generalizing w with
  | zero => exact ⟨[], rfl⟩
  | succ fuel ih =>
    unfold settle
    cases h : w.agents.findSome? w.step with
    | none => exact ⟨[], rfl⟩
    | some next =>
      obtain ⟨agent, _, hstep⟩ := List.exists_of_findSome?_eq_some h
      obtain ⟨moves, hmoves⟩ := ih next
      refine ⟨.act agent :: moves, ?_⟩
      change settle fuel next = ((w.step agent).getD w).run moves
      rw [hstep, hmoves]
      rfl

lemma passTime_is_run (fuel finish : Nat) (w : World) :
    ∃ moves, w.passTime fuel finish = w.run moves := by
  induction fuel generalizing w with
  | zero => exact ⟨[.tell (max w.now finish)], rfl⟩
  | succ fuel ih =>
    obtain ⟨moves, hsettle⟩ := w.settle_is_run (fuel + 1)
    unfold passTime
    generalize w.settle (fuel + 1) = settled at hsettle ⊢
    have hclock (time : Nat) : { settled with now := time } = w.run (moves ++ [.tell time]) := by
      rw [run_append, ← hsettle]
      rfl
    dsimp only
    split
    · rename_i time _
      split
      · obtain ⟨later, hlater⟩ := ih { settled with now := time }
        refine ⟨(moves ++ [.tell time]) ++ later, ?_⟩
        rw [hlater, run_append w _ later, ← hclock]
      · exact ⟨_, hclock finish⟩
    · exact ⟨_, hclock (max settled.now finish)⟩

end World

namespace Play

lemma startSend_is_run {p : Play} (held : p.world.handleHeld = true) (call method : String)
    (params : Option Json) (reply : Option Binding) (cancellable : Bool) :
    ∃ moves, (p.startSend call method params reply cancellable).world = p.world.run moves :=
  ⟨[.call call method params], by simp [startSend, World.run, World.move, held]⟩

lemma giveUp_is_run (p : Play) (call : String) :
    ∃ moves, (p.giveUp call).world = p.world.run moves := by
  unfold giveUp
  split
  · exact ⟨[.giveUp _], rfl⟩
  · exact ⟨[], rfl⟩

lemma onTransport_is_run (p : Play) {change : Transport → Transport} (m : Nat → Move)
    (hm : ∀ (w : World) link, w.move (m link) = some (w.changeTransport link change)) :
    ∃ moves, (p.onTransport change).world = p.world.run moves := by
  unfold onTransport
  split
  · exact ⟨[], rfl⟩
  · exact ⟨[m _], (World.run_singleton (hm _ _)).symm⟩

lemma perform_is_run (p : Play) (action : Action) :
    ∃ moves, (p.perform action).1.world = p.world.run moves := by
  have hidle : ∃ moves, p.world = p.world.run moves := ⟨[], rfl⟩
  cases held : p.world.handleHeld with
  | false =>
    cases action with
    | cancel call =>
      simp only [perform]
      split
      · exact p.giveUp_is_run call
      · exact hidle
    | abort call => exact p.giveUp_is_run call
    | drop => exact ⟨[.dropHandle], rfl⟩
    | receive arrival => exact p.onTransport_is_run (.arrive · arrival) fun _ _ => rfl
    | stopReading => exact p.onTransport_is_run .stopReading fun _ _ => rfl
    | _ => simpa [perform, held] using hidle
  | true =>
    cases action with
    | send call method request cancellable =>
      simp only [perform, held, if_true, startTyped]
      split
      · exact hidle
      · split
        · exact hidle
        · exact startSend_is_run held call method _ _ cancellable
    | sendRaw call method params =>
      simpa only [perform, held, if_true] using startSend_is_run held call method params none false
    | cancel call =>
      simp only [perform]
      split
      · exact p.giveUp_is_run call
      · exact hidle
    | abort call => exact p.giveUp_is_run call
    | dispose call => exact ⟨[.dispose], by simp [perform, World.run, World.move, held]⟩
    | drop => exact ⟨[.dropHandle], rfl⟩
    | receive arrival => exact p.onTransport_is_run (.arrive · arrival) fun _ _ => rfl
    | stopReading => exact p.onTransport_is_run .stopReading fun _ _ => rfl
    | subscribe name method raw reaction =>
      exact ⟨[.subscribe name method raw reaction], by simp [perform, World.run, World.move, held]⟩
    | unsubscribe name =>
      exact ⟨[.unsubscribe name], by simp [perform, World.run, World.move, held]⟩
    | wait => exact hidle

@[simp] lemma world_adopt (p : Play) (known : Nat) : (p.adopt known).world = p.world := rfl

@[simp] lemma world_collect (p : Play) : p.collect.world = p.world := rfl

/-- Whatever holds in every run from the world of a play holds in the world of the play one step
later. -/
theorem play_is_run (p : Play) (action : Action) (span : Nat) :
    ∃ moves, (p.play action span).2.world = p.world.run moves := by
  obtain ⟨first, hperform⟩ := p.perform_is_run action
  obtain ⟨later, hpass⟩ := World.passTime_is_run stepLimit ((p.perform action).1.world.now + span)
    (p.perform action).1.world
  refine ⟨first ++ later, ?_⟩
  rw [World.run_append, ← hperform, ← hpass]
  simp [play]

end Play

end InspectorProtocol.Session
