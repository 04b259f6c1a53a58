import InspectorProtocol.Proofs.Deeds
import InspectorProtocol.Proofs.UnknownEvents

/-!
# Announcements

An agent that changes the state announces the change in a step of its own, so others may act in
between. The changes themselves follow one upon the other. Each is announced once, by whoever made
it and before that agent goes on, but two announcements of different agents may come in another
order than the changes. Where nobody changes the state while an announcement is pending, the
observer hears of the changes as they were made.
-/

namespace InspectorProtocol.Session

/-- A change of state, and who made it. -/
structure Transition where
  agent : Agent
  step : State × State
  deriving DecidableEq

def Observation.step? : Observation → Option (State × State)
  | .stateChange source target => some (source, target)
  | _ => none

/-- Whether changes of state lead from one state to another, each going on where the one before it
came to. -/
def IsPath : State → List (State × State) → State → Prop
  | first, [], last => first = last
  | first, (source, target) :: rest, last => source = first ∧ IsPath target rest last

lemma isPath_append {first last : State} {steps more : List (State × State)} :
    IsPath first (steps ++ more) last ↔
      ∃ middle, IsPath first steps middle ∧ IsPath middle more last := by
  induction steps generalizing first with
  | nil => simp [IsPath]
  | cons step rest ih =>
    obtain ⟨source, target⟩ := step
    simp [IsPath, ih, and_assoc]

namespace World

/-- The changes that the observer was told of, oldest first. -/
def announced (w : World) : List (State × State) := w.observations.filterMap (·.step?)

/-- The change that a notice is of. -/
def noticed? (n : Agent × Observation) : Option Transition := n.2.step?.map (Transition.mk n.1)

/-- The changes that were made and not announced yet, oldest first. -/
def pending (w : World) : List Transition := w.notices.filterMap noticed?

/-- The change that an agent's step makes. -/
def swapOf (agent : Agent) (w w' : World) : List Transition :=
  if w'.state = w.state then [] else [⟨agent, (w.state, w'.state)⟩]

/-- The changes that an agent's step announces. -/
def callsOf (agent : Agent) (w w' : World) : List Transition :=
  (w'.announced.drop w.announced.length).map (Transition.mk agent)

/-- What is noted of a move, if it is the step of an agent. -/
def noted (note : Agent → World → World → List Transition) (w w' : World) : Move → List Transition
  | .act agent => note agent w w'
  | _ => []

/-- What is noted of the moves of a run, one after another. -/
def along (note : Agent → World → World → List Transition) (w : World) : List Move → List Transition
  | [] => []
  | m :: moves => noted note w ((w.move m).getD w) m ++ along note ((w.move m).getD w) moves

/-- The changes of state that agents make along a run, in order. -/
def swaps (w : World) (moves : List Move) : List Transition := w.along swapOf moves

/-- The changes of state that agents announce along a run, in order. -/
def calls (w : World) (moves : List Move) : List Transition := w.along callsOf moves

/-- Whether nobody changes the state while an announcement is pending. -/
def Undisturbed (w : World) : List Move → Prop
  | [] => True
  | m :: moves =>
    (((w.move m).getD w).state ≠ w.state → w.notices = []) ∧
      Undisturbed ((w.move m).getD w) moves

instance decidableUndisturbed (w : World) : (moves : List Move) → Decidable (w.Undisturbed moves)
  | [] => inferInstanceAs (Decidable True)
  | m :: moves =>
    have := decidableUndisturbed ((w.move m).getD w) moves
    inferInstanceAs (Decidable (_ ∧ _))

/-! ### What a step does about the state -/

/-- What of a world concerns its state and the observer's knowledge of it. -/
def news (w : World) : State × List (Agent × Observation) × List (State × State) :=
  (w.state, w.notices, w.announced)

section News

variable (w : World) (agent : Agent)

@[simp] lemma news_changeLink (index : Nat) (change : Link → Link) :
    (w.changeLink index change).news = w.news := rfl

@[simp] lemma news_askLock : (w.askLock agent).news = w.news := by
  rw [askLock_eq]
  rfl

@[simp] lemma news_passLock : w.passLock.news = w.news := by
  rw [passLock_eq]
  rfl

@[simp] lemma news_leaveLock : (w.leaveLock agent).news = w.news := by
  rw [leaveLock_eq]
  split
  · exact w.news_passLock
  · rfl

@[simp] lemma news_beginAttempt : w.beginAttempt.2.news = w.news := by
  obtain ⟨connector, tried, h⟩ := w.beginAttempt_eq
  rw [h]
  rfl

lemma news_changeState (target : State) : (w.changeState agent target).news =
    (target, w.notices ++ [(agent, .stateChange w.state target)], w.announced) := rfl

lemma news_observe {o : Observation} (h : o.step? = none) : (w.observe o).news = w.news := by
  simp [news, announced, observe, h]

end News

/-- What the step of an agent may do about the state: nothing, or change it and leave the
announcement to do. -/
inductive Stirs (w : World) (agent : Agent) (w' : World) : Prop where
  | quiet (h : w'.news = w.news)
  | swap (target : State) (hne : target ≠ w.state) (h : w'.news = (w.changeState agent target).news)

variable {w v w' : World} {agent : Agent}

lemma Stirs.quietly (h : w.Stirs agent v) (hv : w'.news = v.news) : w.Stirs agent w' := by
  cases h with
  | quiet h => exact .quiet (hv.trans h)
  | swap target hne h => exact .swap target hne (hv.trans h)

lemma stirs_shift {sources : List State} {target : State} (htarget : target ∉ sources) :
    w.Stirs agent (w.shift agent sources target).2 := by
  by_cases hstate : w.state ∈ sources
  · rw [shift_of_mem hstate htarget]
    exact .swap target (fun heq => htarget (heq ▸ hstate)) rfl
  · rw [shift_of_not_mem hstate]
    exact .quiet rfl

lemma CallerStep.stirs {phase phase' : CallerPhase} (h : w.CallerStep agent phase v phase') :
    w.Stirs agent v := by
  cases h with
  | begin h => exact .swap .connecting (by simp [h]) (news_beginAttempt _)
  | retreat _ h => exact .swap .disconnected (by simp [h]) rfl
  | succeed _ h => exact .swap .opened (by simp [h]) rfl
  | ask => exact .quiet (w.news_askLock agent)
  | reuse | refuse | leave | undone => exact .quiet w.news_passLock
  | install => exact .quiet (news_passLock _)
  | enter | fail | expire | connect | withdraw | undo => exact .quiet rfl
  | draw | enlist | shut | queue | abandon | receive => exact .quiet rfl

lemma DisposerStep.stirs {phase phase' : DisposerPhase} (h : w.DisposerStep agent phase v phase') :
    w.Stirs agent v := by
  cases h with
  | close h =>
    refine .swap .closing ?_ rfl
    rintro heq
    simp [← heq] at h
  | finish h => exact .swap .closed (by simp [h]) rfl
  | ask => exact .quiet (w.news_askLock agent)
  | take => exact .quiet (news_passLock _)
  | pass | enter | sweep | clear | cleared | stop | join | rest => exact .quiet rfl

lemma news_takeCommand {index : Nat} {l : Link} (h : w.takeCommand index l = some w') :
    w'.news = w.news := by
  unfold takeCommand at h
  split at h
  · cases h
    rfl
  · cases h

lemma news_takeArrival {index : Nat} {l : Link} (h : w.takeArrival index l = some w') :
    w'.news = w.news := by
  unfold takeArrival at h
  split at h
  · cases h
    rfl
  · cases h

lemma closed_not_mem_unclosed : State.closed ∉ unclosed := by
  simp [unclosed]

lemma stirs_stepWriter {index : Nat} {l : Link} (h : w.stepWriter index l = some w') :
    w.Stirs (.writer index) w' := by
  cases hphase : l.writer with
  | idle =>
    simp only [stepWriter, hphase] at h
    split at h
    · cases h
      exact .quiet rfl
    · exact .quiet (news_takeCommand h)
  | writing id text =>
    simp only [stepWriter, hphase] at h
    split at h
    · cases h
      exact .quiet rfl
    · cases h
      exact .quiet (w.news_observe rfl)
  | terminating =>
    simp only [stepWriter, hphase, Option.some.injEq] at h
    subst h
    exact (stirs_shift closed_not_mem_unclosed).quietly rfl
  | failing id reason =>
    simp only [stepWriter, hphase] at h
    split at h
    · cases h
      exact .quiet rfl
    · cases h
      exact .quiet rfl
  | clearing ids =>
    cases ids <;>
    · simp only [stepWriter, hphase, Option.some.injEq] at h
      subst h
      exact .quiet rfl
  | rejecting | sweeping | stopping | closing =>
    simp only [stepWriter, hphase, Option.some.injEq] at h
    subst h
    exact .quiet rfl
  | ended => simp [stepWriter, hphase] at h

lemma stirs_stepReader {index : Nat} {l : Link} (h : w.stepReader index l = some w') :
    w.Stirs (.reader index) w' := by
  cases hphase : l.reader with
  | idle =>
    simp only [stepReader, hphase] at h
    split at h
    · cases h
      exact .quiet rfl
    · exact .quiet (news_takeArrival h)
  | routing text =>
    simp only [stepReader, hphase] at h
    split at h
    · split at h
      · cases h
        exact .quiet rfl
      · cases h
        exact .quiet rfl
    · split at h
      · cases h
        exact .quiet rfl
      · cases h
        exact .quiet rfl
    · cases h
      exact .quiet (w.news_observe rfl)
  | reporting frame =>
    simp only [stepReader, hphase, Option.some.injEq] at h
    subst h
    exact .quiet (w.news_observe rfl)
  | alerting reason =>
    simp only [stepReader, hphase, Option.some.injEq] at h
    subst h
    exact .quiet (w.news_observe rfl)
  | terminating =>
    simp only [stepReader, hphase, Option.some.injEq] at h
    subst h
    exact (stirs_shift closed_not_mem_unclosed).quietly rfl
  | clearing ids =>
    cases ids <;>
    · simp only [stepReader, hphase, Option.some.injEq] at h
      subst h
      exact .quiet rfl
  | answering | losing | sweeping | stopping =>
    simp only [stepReader, hphase, Option.some.injEq] at h
    subst h
    exact .quiet rfl
  | ended => simp [stepReader, hphase] at h

lemma news_takeEvent {index : Nat} {l : Link} (h : w.takeEvent index l = some w') :
    w'.news = w.news := by
  unfold takeEvent at h
  split at h
  · cases h
    rfl
  · cases h

lemma news_stepDeliverer {index : Nat} {l : Link} (h : w.stepDeliverer index l = some w') :
    w'.news = w.news := by
  cases hphase : l.deliverer with
  | idle =>
    simp only [stepDeliverer, hphase] at h
    split at h
    · cases h
      rfl
    · exact news_takeEvent h
  | waiting =>
    simp only [stepDeliverer, hphase] at h
    split at h
    · cases h
      rfl
    · split at h <;> cases h
      rfl
  | ended => simp [stepDeliverer, hphase] at h

lemma step?_of_mem_deliver {methods : MethodMap} {bindings : Bindings} {b : Board}
    {event : Wire.Event} : ∀ o ∈ (b.deliver methods bindings event).observations,
      o.step? = none := by
  obtain ⟨messages, hmessages⟩ := observations_foldl_runHandler Board.run
    (Delivery.payload? methods bindings event).1 event (b.subscriptions.subscribers event.method)
    { state := b, observations := (Delivery.payload? methods bindings event).2 }
  have hpayload : ∀ o ∈ (Delivery.payload? methods bindings event).2, o.step? = none := by
    unfold Delivery.payload?
    split <;> simp [Observation.step?]
  intro o ho
  rcases List.mem_append.mp (hmessages ▸ ho) with hread | hran
  · exact hpayload o hread
  · obtain ⟨_, _, rfl⟩ := List.mem_map.mp hran
    rfl

lemma news_stepPool {index : Nat} {l : Link} (h : w.stepPool index l = some w') :
    w'.news = w.news := by
  unfold stepPool at h
  split at h
  · cases h
  · rename_i event _
    cases h
    have hnone : (w.board.deliver w.methods w.bindings event).observations.filterMap (·.step?) =
        [] := List.filterMap_eq_nil_iff.mpr step?_of_mem_deliver
    rw [news_changeLink]
    simp [news, announced, hnone]

lemma news_stepRelease (h : w.stepRelease = some w') : w'.news = w.news := by
  unfold stepRelease at h
  repeat' split at h
  all_goals
    cases h
    try rfl

lemma stirs_of_step (hfree : w.notices.find? (·.1 = agent) = none)
    (h : w.step agent = some w') : w.Stirs agent w' := by
  simp only [step, hfree] at h
  cases agent with
  | releaser => exact .quiet (news_stepRelease h)
  | caller =>
    obtain ⟨c, _, hstep⟩ := Option.bind_eq_some_iff.mp h
    obtain ⟨v, phase, rfl, hcaller⟩ := stepCaller_cases hstep
    exact hcaller.stirs.quietly rfl
  | disposer =>
    obtain ⟨_, _, hstep⟩ := Option.bind_eq_some_iff.mp h
    obtain ⟨v, phase, rfl, hdisposer⟩ := stepDisposer_cases hstep
    exact hdisposer.stirs.quietly rfl
  | writer =>
    obtain ⟨_, _, hstep⟩ := Option.bind_eq_some_iff.mp h
    exact stirs_stepWriter hstep
  | reader =>
    obtain ⟨_, _, hstep⟩ := Option.bind_eq_some_iff.mp h
    exact stirs_stepReader hstep
  | deliverer =>
    obtain ⟨_, _, hstep⟩ := Option.bind_eq_some_iff.mp h
    exact .quiet (news_stepDeliverer hstep)
  | pool =>
    obtain ⟨_, _, hstep⟩ := Option.bind_eq_some_iff.mp h
    exact .quiet (news_stepPool hstep)
  | lateWriter =>
    obtain ⟨_, _, hstep⟩ := Option.bind_eq_some_iff.mp h
    exact .quiet (news_takeCommand hstep)
  | lateReader =>
    obtain ⟨_, _, hstep⟩ := Option.bind_eq_some_iff.mp h
    exact .quiet (news_takeArrival hstep)
  | lateDeliverer =>
    obtain ⟨_, _, hstep⟩ := Option.bind_eq_some_iff.mp h
    exact .quiet (news_takeEvent hstep)

/-! ### What the observer hears of -/

/-- What a move does about the state and its announcement, with the changes that it makes and those
that it announces: nothing, or an agent that has nothing to announce changes the state, or one that
has announces it. -/
inductive Effect (w w' : World) : List Transition → List Transition → Prop where
  | quiet (state : w'.state = w.state) (notices : w'.notices = w.notices)
    (announced : w'.announced = w.announced) : Effect w w' [] []
  | swap {agent : Agent} {target : State} (free : w.notices.find? (·.1 = agent) = none)
    (state : w'.state = target) (changed : target ≠ w.state)
    (notices : w'.notices = w.notices ++ [(agent, .stateChange w.state target)])
    (announced : w'.announced = w.announced) : Effect w w' [⟨agent, (w.state, target)⟩] []
  | call {agent : Agent} {n : Agent × Observation}
    (found : w.notices.find? (·.1 = agent) = some n) (state : w'.state = w.state)
    (notices : w'.notices = w.notices.filter (·.1 != agent))
    (announced : w'.announced = w.announced ++ n.2.step?.toList) :
    Effect w w' [] (noticed? n).toList

variable {m : Move} {swapped called : List Transition}

lemma effect_of_news (h : w'.news = w.news) :
    Effect w w' (noted swapOf w w' m) (noted callsOf w w' m) := by
  obtain ⟨hstate, hnotices, hannounced⟩ :
      w'.state = w.state ∧ w'.notices = w.notices ∧ w'.announced = w.announced := by
    simpa [news] using h
  have hquiet : Effect w w' [] [] := .quiet hstate hnotices hannounced
  cases m with
  | act agent => simpa [noted, swapOf, callsOf, hstate, hannounced] using hquiet
  | _ => exact hquiet

lemma effect_of_swap {target : State} (hfree : w.notices.find? (·.1 = agent) = none)
    (hne : target ≠ w.state) (h : w'.news = (w.changeState agent target).news) :
    Effect w w' (noted swapOf w w' (.act agent)) (noted callsOf w w' (.act agent)) := by
  obtain ⟨hstate, hnotices, hannounced⟩ : w'.state = target ∧
      w'.notices = w.notices ++ [(agent, .stateChange w.state target)] ∧
      w'.announced = w.announced := by
    rw [news_changeState] at h
    simpa [news] using h
  have hswap := Effect.swap hfree hstate hne hnotices hannounced
  simpa [noted, swapOf, callsOf, hstate, hne, hannounced] using hswap

lemma effect_of_call {n : Agent × Observation} (hfound : w.notices.find? (·.1 = agent) = some n) :
    let w' := { w.observe n.2 with notices := w.notices.filter (·.1 != agent) }
    Effect w w' (noted swapOf w w' (.act agent)) (noted callsOf w w' (.act agent)) := by
  intro w'
  have hagent : n.1 = agent := by simpa using List.find?_some hfound
  have hannounced : w'.announced = w.announced ++ n.2.step?.toList := by
    cases hstep : n.2.step? <;> simp [w', World.announced, observe, hstep]
  have hswaps : noted swapOf w w' (.act agent) = [] := by simp [noted, swapOf, w', observe]
  have hcalls : noted callsOf w w' (.act agent) = (noticed? n).toList := by
    rw [noted, callsOf, hannounced, List.drop_left, noticed?, hagent]
    cases n.2.step? <;> rfl
  rw [hswaps, hcalls]
  exact .call hfound rfl rfl hannounced

lemma effect_of_move (w : World) (m : Move) :
    let w' := (w.move m).getD w
    Effect w w' (noted swapOf w w' m) (noted callsOf w w' m) := by
  intro w'
  cases h : w.move m with
  | none => exact effect_of_news (by simp [w', h])
  | some next =>
    have hnext : w' = next := by simp [w', h]
    rw [hnext]
    cases m with
    | act agent =>
      cases hfound : w.notices.find? (·.1 = agent) with
      | some n =>
        simp only [move, step, hfound, Option.some.injEq] at h
        subst h
        exact effect_of_call hfound
      | none =>
        cases stirs_of_step hfound h with
        | quiet h => exact effect_of_news h
        | swap target hne h => exact effect_of_swap hfound hne h
    | giveUp index =>
      cases deed_of_move h with
      | giveUp => exact effect_of_news (w.news_leaveLock _)
      | spare => exact effect_of_news rfl
      | aside _ hm => exact absurd rfl (hm index)
    | call | dispose | subscribe | unsubscribe | relist =>
      simp only [move] at h
      split at h
      · cases h
        exact effect_of_news rfl
      · cases h
    | dropHandle | arrive | stopReading | tell =>
      cases h
      exact effect_of_news rfl

/-- What holds of the changes made so far, of those announced so far, and of the world. -/
structure Heard (swaps calls : List Transition) (w : World) : Prop where
  path : IsPath .disconnected (swaps.map (·.step)) w.state
  announced : w.announced = calls.map (·.step)
  own : ∀ agent, calls.filter (·.agent = agent) ++ w.pending.filter (·.agent = agent) =
    swaps.filter (·.agent = agent)
  once : ∀ agent, (w.notices.filter (·.1 = agent)).length ≤ 1

/-- What holds besides as long as nobody has changed the state over a pending announcement. -/
structure InOrder (swaps calls : List Transition) (w : World) : Prop where
  same : calls ++ w.pending = swaps
  alone : w.notices.length ≤ 1

variable {swaps calls : List Transition}

lemma pending_append {n : Agent × Observation} (h : w'.notices = w.notices ++ [n]) :
    w'.pending = w.pending ++ (noticed? n).toList := by
  rw [pending, h, List.filterMap_append]
  cases hn : noticed? n <;> simp [pending, hn]

lemma filter_noticed (keep : Agent → Bool) (notices : List (Agent × Observation)) :
    (notices.filterMap noticed?).filter (keep ·.agent) =
      (notices.filter (keep ·.1)).filterMap noticed? := by
  induction notices with
  | nil => rfl
  | cons n rest ih =>
    obtain ⟨agent, o⟩ := n
    cases hstep : o.step? with
    | none =>
      have hnone : noticed? (agent, o) = none := by simp [noticed?, hstep]
      rw [List.filterMap_cons_none hnone, ih, List.filter_cons]
      split
      · rw [List.filterMap_cons_none hnone]
      · rfl
    | some step =>
      have hsome : noticed? (agent, o) = some ⟨agent, step⟩ := by simp [noticed?, hstep]
      rw [List.filterMap_cons_some hsome, List.filter_cons, List.filter_cons]
      split
      · rw [List.filterMap_cons_some hsome, ih]
      · exact ih

lemma Heard.only {n : Agent × Observation} (h : Heard swaps calls w)
    (hfound : w.notices.find? (·.1 = agent) = some n) :
    n.1 = agent ∧ w.notices.filter (·.1 = agent) = [n] := by
  have hagent : n.1 = agent := by simpa using List.find?_some hfound
  have hmem : n ∈ w.notices.filter (·.1 = agent) :=
    List.mem_filter.mpr ⟨List.mem_of_find?_eq_some hfound, by simpa using hagent⟩
  obtain ⟨other, hother⟩ := List.length_eq_one_iff.mp
    (Nat.le_antisymm (h.once agent) (List.length_pos_of_mem hmem))
  rw [hother] at hmem ⊢
  exact ⟨hagent, by rw [List.mem_singleton.mp hmem]⟩

/-- Whether an agent's changes are announced so far in the order in which it made them. -/
lemma Heard.own_of_effect (h : Heard swaps calls w) (heffect : Effect w w' swapped called)
    (other : Agent) :
    (calls ++ called).filter (·.agent = other) ++ w'.pending.filter (·.agent = other) =
      (swaps ++ swapped).filter (·.agent = other) := by
  rw [List.filter_append, List.filter_append, ← h.own other]
  cases heffect with
  | quiet _ hnotices =>
    have hpending : w'.pending = w.pending := by rw [pending, hnotices, pending]
    simp [hpending]
  | swap _ _ _ hnotices =>
    rw [pending_append hnotices, List.filter_append]
    simp [noticed?, Observation.step?]
  | @call agent n hfound _ hnotices =>
    obtain ⟨hagent, honly⟩ := h.only hfound
    have hcaller : ∀ c ∈ (noticed? n).toList, c.agent = agent := by
      intro c hc
      obtain ⟨_, _, rfl⟩ := Option.map_eq_some_iff.mp (Option.mem_toList.mp hc)
      exact hagent
    rw [List.filter_nil, List.append_nil, List.append_assoc]
    congr 1
    rw [pending, hnotices, filter_noticed (· = other), pending, filter_noticed (· = other)]
    by_cases heq : other = agent
    · subst heq
      have hgone : (w.notices.filter (·.1 != other)).filter (·.1 = other) = [] := by
        simp [List.filter_eq_nil_iff]
      rw [List.filter_eq_self.mpr (by simpa using hcaller), honly, hgone]
      cases hn : noticed? n <;> simp [hn]
    · have hnone : (noticed? n).toList.filter (·.agent = other) = [] := by
        rw [List.filter_eq_nil_iff]
        intro c hc
        simpa [hcaller c hc] using Ne.symm heq
      have hkept : (w.notices.filter (·.1 != agent)).filter (·.1 = other) =
          w.notices.filter (·.1 = other) := by
        rw [List.filter_filter]
        refine List.filter_congr fun x _ => ?_
        by_cases hx : x.1 = other <;> simp [hx, heq]
      rw [hnone, hkept, List.nil_append]

lemma Heard.effect (h : Heard swaps calls w) (heffect : Effect w w' swapped called) :
    Heard (swaps ++ swapped) (calls ++ called) w' := by
  have hown := h.own_of_effect heffect
  cases heffect with
  | quiet hstate hnotices hannounced =>
    rw [List.append_nil, List.append_nil] at hown ⊢
    exact ⟨hstate ▸ h.path, hannounced ▸ h.announced, hown, hnotices ▸ h.once⟩
  | swap hfree hstate hne hnotices hannounced =>
    refine ⟨?_, by simpa [hannounced] using h.announced, hown, fun other => ?_⟩
    · rw [List.map_append, isPath_append]
      exact ⟨w.state, h.path, rfl, hstate.symm⟩
    · rename_i agent target
      rw [hnotices, List.filter_append, List.length_append]
      by_cases heq : agent = other
      · have hnone : w.notices.filter (·.1 = other) = [] := by
          rw [List.filter_eq_nil_iff]
          exact heq ▸ List.find?_eq_none.mp hfree
        simp [hnone, heq]
      · have hold := h.once other
        simpa [heq] using hold
  | @call agent n hfound hstate hnotices hannounced =>
    refine ⟨by simpa [hstate] using h.path, ?_, hown, fun other => ?_⟩
    · rw [hannounced, h.announced, List.map_append, noticed?]
      cases n.2.step? <;> rfl
    · rw [hnotices]
      exact Nat.le_trans (List.filter_sublist.filter _).length_le (h.once other)

lemma InOrder.effect (h : InOrder swaps calls w) (heffect : Effect w w' swapped called)
    (hfree : w'.state ≠ w.state → w.notices = []) :
    InOrder (swaps ++ swapped) (calls ++ called) w' := by
  cases heffect with
  | quiet _ hnotices =>
    have hpending : w'.pending = w.pending := by rw [pending, hnotices, pending]
    exact ⟨by simpa [hpending] using h.same, hnotices ▸ h.alone⟩
  | swap _ hstate hne hnotices =>
    have hnone : w.notices = [] := hfree (hstate ▸ hne)
    refine ⟨?_, by simp [hnotices, hnone]⟩
    rw [pending_append hnotices, ← h.same]
    simp [noticed?, Observation.step?]
  | @call agent n hfound _ hnotices =>
    have hmem : n ∈ w.notices := List.mem_of_find?_eq_some hfound
    obtain ⟨other, hother⟩ := List.length_eq_one_iff.mp
      (Nat.le_antisymm h.alone (List.length_pos_of_mem hmem))
    obtain rfl : n = other := by simpa [hother] using hmem
    have hagent : n.1 = agent := by simpa using List.find?_some hfound
    have hnone : w'.notices = [] := by simp [hnotices, hother, hagent]
    have hpending : w'.pending = [] := by rw [pending, hnone, List.filterMap_nil]
    refine ⟨?_, by simp [hnone]⟩
    rw [← h.same, hpending, pending, hother]
    cases hn : noticed? n <;> simp [hn]

lemma heard_run (h : Heard swaps calls w) (moves : List Move) :
    Heard (swaps ++ w.swaps moves) (calls ++ w.calls moves) (w.run moves) := by
  induction moves generalizing swaps calls w with
  | nil => simpa [World.swaps, World.calls, along, run] using h
  | cons m moves ih =>
    have hnext := ih (h.effect (w.effect_of_move m))
    rw [List.append_assoc, List.append_assoc] at hnext
    exact hnext

lemma inOrder_run (h : InOrder swaps calls w) {moves : List Move} (hmoves : w.Undisturbed moves) :
    InOrder (swaps ++ w.swaps moves) (calls ++ w.calls moves) (w.run moves) := by
  induction moves generalizing swaps calls w with
  | nil => simpa [World.swaps, World.calls, along, run] using h
  | cons m moves ih =>
    obtain ⟨hfree, hrest⟩ := hmoves
    have hnext := ih (h.effect (w.effect_of_move m) hfree) hrest
    rw [List.append_assoc, List.append_assoc] at hnext
    exact hnext

/-- The changes of state follow one upon the other. Whoever makes one announces it before it makes
another, so the observer hears of each agent's changes in their order and of each once. If nobody
changes the state while an announcement is pending, it hears of all of them in their order, one
going on where the one before it came to. -/
theorem observer_hears_of_changes_in_order (address : String) (config : Config)
    (methods : MethodMap) (bindings : Bindings) (connector : Connector) (moves : List Move) :
    let start := start address config methods bindings connector
    let w := start.run moves
    w.announced = (start.calls moves).map (·.step) ∧
    IsPath .disconnected ((start.swaps moves).map (·.step)) w.state ∧
    (∀ agent, (start.calls moves).filter (·.agent = agent) ++ w.pending.filter (·.agent = agent) =
        (start.swaps moves).filter (·.agent = agent) ∧
      (w.pending.filter (·.agent = agent)).length ≤ 1) ∧
    (start.Undisturbed moves → start.calls moves ++ w.pending = start.swaps moves ∧
      ∃ last, IsPath .disconnected w.announced last) := by
  intro start w
  have hstart : Heard [] [] start := ⟨rfl, rfl, fun _ => rfl, fun _ => Nat.zero_le _⟩
  have hheard : Heard (start.swaps moves) (start.calls moves) w := heard_run hstart moves
  refine ⟨hheard.announced, hheard.path, fun agent => ⟨hheard.own agent, ?_⟩, fun hmoves => ?_⟩
  · rw [pending, filter_noticed (· = agent)]
    exact Nat.le_trans (List.length_filterMap_le _ _) (hheard.once agent)
  · have hnone : InOrder [] [] start := ⟨rfl, Nat.zero_le _⟩
    have horder : InOrder (start.swaps moves) (start.calls moves) w := inOrder_run hnone hmoves
    have hpath := hheard.path
    rw [← horder.same, List.map_append, isPath_append] at hpath
    obtain ⟨last, hcalls, _⟩ := hpath
    exact ⟨horder.same, last, hheard.announced ▸ hcalls⟩

/-- A call that begins to connect and says so, then a disposal. -/
def disposedInTime : List Move :=
  .call "a" "Network.enable" none :: List.replicate 4 (.act (.caller 0)) ++
    .dispose :: List.replicate 2 (.act (.disposer 0))

theorem disposal_in_time_is_heard_of_in_order :
    let start := start "" {} {} ⟨{}, [], ⟨0, []⟩⟩ (.scripted [])
    start.Undisturbed disposedInTime ∧
      start.swaps disposedInTime =
        [⟨.caller 0, (.disconnected, .connecting)⟩, ⟨.disposer 0, (.connecting, .closing)⟩] ∧
      start.calls disposedInTime = start.swaps disposedInTime := by
  intro start
  have hundisturbed : start.Undisturbed disposedInTime := by decide
  obtain ⟨hsame, _⟩ := (observer_hears_of_changes_in_order "" {} {} ⟨{}, [], ⟨0, []⟩⟩
    (.scripted []) disposedInTime).2.2.2 hundisturbed
  have hpending : (start.run disposedInTime).pending = [] := by decide
  rw [hpending, List.append_nil] at hsame
  exact ⟨hundisturbed, by decide, hsame⟩

/-- A disposal between the moment when a call begins to connect and the moment when it says so. -/
def disposedMeanwhile : List Move :=
  .call "a" "Network.enable" none :: List.replicate 3 (.act (.caller 0)) ++
    .dispose :: List.replicate 2 (.act (.disposer 0)) ++ [.act (.caller 0)]

/-- The observer hears of the disposal first, so what it hears is no path from the beginning. -/
theorem observer_hears_of_disposal_first :
    let w := (start "" {} {} ⟨{}, [], ⟨0, []⟩⟩ (.scripted [])).run disposedMeanwhile
    w.announced = [(.connecting, .closing), (.disconnected, .connecting)] ∧
      ¬ ∃ last, IsPath .disconnected w.announced last := by
  intro w
  refine ⟨rfl, ?_⟩
  rintro ⟨_, hfirst, _⟩
  cases hfirst

end World

end InspectorProtocol.Session
