import InspectorProtocol.Proofs.Progress

/-!
# Calls that come too late

A call that reaches a closed session is turned away: it neither connects nor registers a request.
It cannot be held up for good either. Whoever has the lock lets go of it by steps of agents and the
passing of time alone, since an attempt to connect has a deadline and a link that was told to stop
ends.
-/

namespace InspectorProtocol.Session

namespace CallerPhase

/-- Whether a caller is on its way to the link. -/
def isUnderway : CallerPhase → Bool
  | .arriving | .queued | .checking => true
  | _ => false

/-- On its way, given up, or refused since the session is closed. -/
def TurnedAway : CallerPhase → Prop
  | .arriving | .queued | .checking | .dropped => True
  | .finished outcome => outcome = .error .sessionClosed
  | _ => False

end CallerPhase

namespace World

variable {w w' : World}

/-! ### The lock is let go of -/

/-- Whoever had the lock has given it to the next in line, and everybody else is in place. -/
structure LetsGo (w : World) (a : Agent) (w' : World) : Prop where
  comes : w.ComesTo w'
  holder : w'.holder = w.lockQueue.head?
  lockQueue : w'.lockQueue = w.lockQueue.tail
  others : ∀ (index : Nat) (c : Caller), a ≠ .caller index → w.callers[index]? = some c →
    w'.callers[index]? = some c

section LetsGo

variable {v : World} {a : Agent} {index : Nat} {c : Caller}

lemma LetsGo.after (h : v.LetsGo a w') (hcomes : w.ComesTo v) (hqueue : v.lockQueue = w.lockQueue)
    (hothers : ∀ (index : Nat) (c : Caller), a ≠ .caller index → w.callers[index]? = some c →
      v.callers[index]? = some c) : w.LetsGo a w' :=
  ⟨hcomes.trans h.comes, hqueue ▸ h.holder, hqueue ▸ h.lockQueue,
    fun index c hne hc => h.others index c hne (hothers index c hne hc)⟩

lemma LetsGo.after_keepsLine (h : v.LetsGo a w') (hcomes : w.ComesTo v) (hkeeps : w.KeepsLine v) :
    w.LetsGo a w' :=
  h.after hcomes hkeeps.lockQueue fun index c _ hc => hkeeps.callers index c hc

lemma LetsGo.after_caller {phase : CallerPhase}
    (h : (v.setCaller index phase).LetsGo (.caller index) w') (hc : w.callers[index]? = some c)
    (hstep : (w.reported (.caller index)).stepCaller index c = some (v.setCaller index phase))
    (hqueue : v.lockQueue = w.lockQueue) (hcallers : v.callers = w.callers) :
    w.LetsGo (.caller index) w' := by
  refine h.after (comesTo_caller hc hstep) hqueue fun other d hne hd => ?_
  rw [getElem?_setCaller_of_ne v (fun heq => hne (by rw [heq])), hcallers, hd]

lemma letsGo_of_caller (phase : CallerPhase) (hc : w.callers[index]? = some c)
    (hstep : (w.reported (.caller index)).stepCaller index c =
      some (v.passLock.setCaller index phase))
    (hqueue : v.lockQueue = w.lockQueue) (hcallers : v.callers = w.callers) :
    w.LetsGo (.caller index) (v.passLock.setCaller index phase) := by
  refine ⟨comesTo_caller hc hstep, ?_, ?_, fun other d hne hd => ?_⟩
  · rw [← hqueue, passLock_eq]
    rfl
  · rw [← hqueue, passLock_eq]
    rfl
  · rw [getElem?_setCaller_of_ne _ (fun heq => hne (by rw [heq])), passLock_callers, hcallers, hd]

lemma letsGo_of_leaving {reason : Failure} (hc : w.callers[index]? = some c)
    (hphase : c.phase = .leaving reason) : ∃ w', w.LetsGo (.caller index) w' :=
  ⟨_, letsGo_of_caller (v := w.reported (.caller index)) (.finished (.error reason)) hc
    (by simp only [stepCaller, hphase]; rfl) rfl rfl⟩

lemma letsGo_of_installing {link : Nat} (hc : w.callers[index]? = some c)
    (hphase : c.phase = .installing link) : ∃ w', w.LetsGo (.caller index) w' :=
  ⟨_, letsGo_of_caller (v := { w.reported (.caller index) with link := some link })
    (.registering link) hc (by simp only [stepCaller, hphase]) rfl rfl⟩

lemma letsGo_of_undoing {link : Nat} (hc : w.callers[index]? = some c)
    (hphase : c.phase = .undoing link) (hstopped : isStopped w.links link = true) :
    ∃ w', w.LetsGo (.caller index) w' := by
  obtain ⟨v, hcomes, hkeeps, hended⟩ := stopped_link_ends hstopped
  have hlast : (v.reported (.caller index)).stepCaller index c = some
      ((v.reported (.caller index)).passLock.setCaller index
        (.finished (.error .sessionClosed))) := by
    have hreported : (v.reported (.caller index)).links[link]?.any Link.hasEnded = true := hended
    simp only [stepCaller, hphase, hreported, if_true]
    rfl
  exact ⟨_, (letsGo_of_caller _ (hkeeps.callers index c hc) hlast rfl rfl).after_keepsLine hcomes
    hkeeps⟩

lemma letsGo_of_opening {link : Nat} (hc : w.callers[index]? = some c)
    (hphase : c.phase = .opening link) (hlink : link < w.links.length)
    (hover : w.state.isOver = true) : ∃ w', w.LetsGo (.caller index) w' := by
  have hstate : (w.reported (.caller index)).state ∉ [State.connecting] := by
    simpa [reported] using (State.ne_of_isOver hover).2.1
  have hstep : (w.reported (.caller index)).stepCaller index c = some
      (((w.reported (.caller index)).stopLink link).setCaller index (.undoing link)) := by
    simp only [stepCaller, hphase, shift_of_not_mem hstate]
  obtain ⟨w', hgoes⟩ := letsGo_of_undoing
    (w := ((w.reported (.caller index)).stopLink link).setCaller index (.undoing link))
    (getElem?_setCaller_self hc _) rfl
    (by simp [isStopped, stopLink, changeLink, setCaller, reported, hlink])
  exact ⟨w', hgoes.after_caller hc hstep rfl rfl⟩

lemma letsGo_of_retreating {reason : Failure} (hc : w.callers[index]? = some c)
    (hphase : c.phase = .retreating reason) (hover : w.state.isOver = true) :
    ∃ w', w.LetsGo (.caller index) w' := by
  have hstate : (w.reported (.caller index)).state ∉ [State.connecting] := by
    simpa [reported] using (State.ne_of_isOver hover).2.1
  have hstep : (w.reported (.caller index)).stepCaller index c = some
      ((w.reported (.caller index)).setCaller index (.leaving reason)) := by
    simp only [stepCaller, hphase, shift_of_not_mem hstate]
  obtain ⟨w', hgoes⟩ := letsGo_of_leaving
    (w := (w.reported (.caller index)).setCaller index (.leaving reason))
    (getElem?_setCaller_self hc _) rfl
  exact ⟨w', hgoes.after_caller hc hstep rfl rfl⟩

/-- An attempt to connect ends at its deadline at the latest. -/
lemma letsGo_of_connecting {attempt : Attempt} (hc : w.callers[index]? = some c)
    (hphase : c.phase = .connecting attempt) (hover : w.state.isOver = true) :
    ∃ w', w.LetsGo (.caller index) w' := by
  let v : World := { w with now := max w.now attempt.deadline }
  have hcomes : w.ComesTo v := .single (.wait _ (Nat.le_max_left ..))
  suffices h : ∃ w', v.LetsGo (.caller index) w' by
    obtain ⟨w', hgoes⟩ := h
    exact ⟨w', hgoes.after hcomes rfl fun _ _ _ hd => hd⟩
  have hretreat (reason : Failure) (hstep : (v.reported (.caller index)).stepCaller index c = some
      ((v.reported (.caller index)).setCaller index (.retreating reason))) :
      ∃ w', v.LetsGo (.caller index) w' := by
    obtain ⟨w', hgoes⟩ := letsGo_of_retreating
      (w := (v.reported (.caller index)).setCaller index (.retreating reason))
      (getElem?_setCaller_self hc _) rfl hover
    exact ⟨w', hgoes.after_caller hc hstep rfl rfl⟩
  by_cases hready : attempt.readyAt.any (· ≤ v.now) = true
  · cases hfailure : attempt.failure with
    | some reason =>
      refine hretreat reason ?_
      have hready : attempt.readyAt.any (· ≤ (v.reported (.caller index)).now) = true := hready
      simp only [stepCaller, hphase, hready, hfailure, if_true]
    | none =>
      have hready : attempt.readyAt.any (· ≤ (v.reported (.caller index)).now) = true := hready
      let opened : World := { v.reported (.caller index) with links := w.links ++ [{}] }
      have hstep : (v.reported (.caller index)).stepCaller index c = some
          (opened.setCaller index (.opening w.links.length)) := by
        simp only [stepCaller, hphase, hready, hfailure, if_true]
        rfl
      obtain ⟨w', hgoes⟩ := letsGo_of_opening
        (w := opened.setCaller index (.opening w.links.length)) (getElem?_setCaller_self hc _) rfl
        (by simp [opened, setCaller]) hover
      exact ⟨w', hgoes.after_caller hc hstep rfl rfl⟩
  · refine hretreat (.connectionTimeout (w.config.connectTimeout / 1000)) ?_
    have hready : ¬ attempt.readyAt.any (· ≤ (v.reported (.caller index)).now) = true := hready
    have hdeadline : attempt.deadline ≤ (v.reported (.caller index)).now := Nat.le_max_right ..
    simp only [stepCaller, hphase, hready, hdeadline, if_true]
    rfl

lemma stepCaller_of_isOver (hphase : c.phase = .checking) (hover : w.state.isOver = true) :
    w.stepCaller index c =
      some (w.passLock.setCaller index (.finished (.error .sessionClosed))) := by
  obtain ⟨hdisconnected, _, hopened⟩ := State.ne_of_isOver hover
  exact stepCaller_refuse hphase hdisconnected hopened

lemma letsGo_of_checking (hc : w.callers[index]? = some c) (hphase : c.phase = .checking)
    (hover : w.state.isOver = true) : ∃ w', w.LetsGo (.caller index) w' :=
  ⟨_, letsGo_of_caller _ hc (stepCaller_of_isOver hphase hover) rfl rfl⟩

lemma letsGo_of_holder_caller (h : w.Steady) (hover : w.state.isOver = true)
    (hc : w.callers[index]? = some c) (hholder : w.holder = some (.caller index)) :
    ∃ w', w.LetsGo (.caller index) w' := by
  have hstage := (h.orderly.held _ hholder).1
  rw [stage_caller hc] at hstage
  have hfinds := h.finds index c hc
  cases hphase : c.phase with
  | queued =>
    obtain ⟨w', hgoes⟩ := letsGo_of_checking
      (w := (w.reported (.caller index)).setCaller index .checking)
      (getElem?_setCaller_self hc _) rfl hover
    exact ⟨w', hgoes.after_caller hc (stepCaller_enter hphase hholder) rfl rfl⟩
  | checking => exact letsGo_of_checking hc hphase hover
  | connecting attempt => exact letsGo_of_connecting hc hphase hover
  | retreating reason => exact letsGo_of_retreating hc hphase hover
  | leaving reason => exact letsGo_of_leaving hc hphase
  | opening link =>
    rw [hphase] at hfinds
    exact letsGo_of_opening hc hphase hfinds hover
  | installing link => exact letsGo_of_installing hc hphase
  | undoing link =>
    rw [hphase] at hfinds
    exact letsGo_of_undoing hc hphase hfinds
  | _ => exact absurd (by rw [hphase]; rfl) hstage

lemma letsGo_of_taking (hd : w.disposers[index]? = some .taking) :
    ∃ w', w.LetsGo (.disposer index) w' := by
  refine ⟨_, comesTo_disposer hd (by simp only [stepDisposer]; rfl), ?_, ?_, fun _ _ _ hd => ?_⟩
  · rw [passLock_eq]
    rfl
  · rw [passLock_eq]
    rfl
  · rw [setDisposer_callers, passLock_callers]
    exact hd

lemma letsGo_of_holder_disposer (h : w.Steady) {phase : DisposerPhase}
    (hd : w.disposers[index]? = some phase) (hholder : w.holder = some (.disposer index)) :
    ∃ w', w.LetsGo (.disposer index) w' := by
  have hstage := (h.orderly.held _ hholder).1
  rw [stage_disposer hd] at hstage
  have hlt : index < w.disposers.length := (List.getElem?_eq_some_iff.mp hd).1
  cases phase with
  | queued =>
    have hstep : (w.reported (.disposer index)).stepDisposer index .queued =
        some ((w.reported (.disposer index)).setDisposer index .taking) := by
      have hreported : (w.reported (.disposer index)).holder = some (.disposer index) := hholder
      simp only [stepDisposer, hreported, if_true]
    have htaking : ((w.reported (.disposer index)).setDisposer index .taking).disposers[index]? =
        some .taking := by
      simp [setDisposer, reported, hlt]
    obtain ⟨w', hgoes⟩ := letsGo_of_taking htaking
    exact ⟨w', hgoes.after (comesTo_disposer hd hstep) rfl fun _ _ _ hc => hc⟩
  | taking => exact letsGo_of_taking hd
  | _ => exact absurd rfl hstage

/-- Once a session is over, whoever has the lock lets go of it. -/
theorem holder_lets_go (h : w.Steady) (hover : w.state.isOver = true)
    (hholder : w.holder = some a) : ∃ w', w.LetsGo a w' := by
  have hstage := (h.orderly.held _ hholder).1
  cases a with
  | caller index =>
    cases hc : w.callers[index]? with
    | some c => exact letsGo_of_holder_caller h hover hc hholder
    | none => exact absurd (by simp [stage, hc]) hstage
  | disposer index =>
    cases hd : w.disposers[index]? with
    | some phase => exact letsGo_of_holder_disposer h hd hholder
    | none => exact absurd (by simp [stage, hd]) hstage
  | _ => exact absurd rfl hstage

end LetsGo

/-! ### The call is refused -/

/-- The call of a caller fails since the session is closed, without anything from outside. -/
def ComesToRefuse (w : World) (index : Nat) (c : Caller) : Prop :=
  ∃ w', w.ComesTo w' ∧
    w'.callers[index]? = some { c with phase := .finished (.error .sessionClosed) }

section Refusal

variable {index : Nat} {c : Caller}

lemma comesToRefuse_of_checking (hc : w.callers[index]? = some c) (hphase : c.phase = .checking)
    (hover : w.state.isOver = true) : w.ComesToRefuse index c := by
  refine ⟨_, comesTo_caller hc (stepCaller_of_isOver hphase hover), ?_⟩
  refine getElem?_setCaller_self ?_ _
  rw [passLock_callers]
  exact hc

lemma comesToRefuse_of_turn (hc : w.callers[index]? = some c) (hphase : c.phase = .queued)
    (hholder : w.holder = some (.caller index)) (hover : w.state.isOver = true) :
    w.ComesToRefuse index c := by
  obtain ⟨w', hcomes, hrefused⟩ := comesToRefuse_of_checking
    (w := (w.reported (.caller index)).setCaller index .checking)
    (getElem?_setCaller_self hc _) rfl hover
  exact ⟨w', (comesTo_caller hc (stepCaller_enter hphase hholder)).trans hcomes, hrefused⟩

lemma comesToRefuse_of_queued (h : w.Steady) (hover : w.state.isOver = true)
    (hc : w.callers[index]? = some c) (hphase : c.phase = .queued) : w.ComesToRefuse index c := by
  induction hn : w.lockQueue.length generalizing w with
  | zero =>
    refine comesToRefuse_of_turn hc hphase ?_ hover
    have hplaced := h.orderly.placed (.caller index) (by rw [stage_caller hc, hphase]; decide)
    rw [List.eq_nil_of_length_eq_zero hn] at hplaced
    exact hplaced.resolve_right List.not_mem_nil
  | succ n ih =>
    cases hholder : w.holder with
    | none =>
      rw [h.orderly.free hholder] at hn
      cases hn
    | some a =>
      by_cases hme : a = .caller index
      · exact comesToRefuse_of_turn hc hphase (hme ▸ hholder) hover
      · obtain ⟨v, hgoes⟩ := holder_lets_go h hover hholder
        obtain ⟨w', hcomes, hrefused⟩ := ih (hgoes.comes.steady h) (hgoes.comes.isOver hover)
          (hgoes.others index c hme hc) (by rw [hgoes.lockQueue, List.length_tail, hn]; rfl)
        exact ⟨w', hgoes.comes.trans hcomes, hrefused⟩

lemma comesToRefuse_of_arriving (h : w.Steady) (hover : w.state.isOver = true)
    (hc : w.callers[index]? = some c) (hphase : c.phase = .arriving) : w.ComesToRefuse index c := by
  have hcomes := comesTo_caller hc (by simp only [stepCaller, hphase]; rfl)
  obtain ⟨w', hlater, hrefused⟩ := comesToRefuse_of_queued (hcomes.steady h) (hcomes.isOver hover)
    (getElem?_setCaller_self (by rw [askLock_callers]; exact hc) .queued) rfl
  exact ⟨w', hcomes.trans hlater, hrefused⟩

/-- Once a session is over, a caller on its way to the link is not held up for good. -/
theorem comesToRefuse_of_isUnderway (h : w.Steady) (hover : w.state.isOver = true)
    (hc : w.callers[index]? = some c) (hunderway : c.phase.isUnderway = true) :
    w.ComesToRefuse index c := by
  cases hphase : c.phase with
  | arriving => exact comesToRefuse_of_arriving h hover hc hphase
  | queued => exact comesToRefuse_of_queued h hover hc hphase
  | checking => exact comesToRefuse_of_checking hc hphase hover
  | _ => simp [hphase, CallerPhase.isUnderway] at hunderway

end Refusal

/-! ### Nothing comes of the call -/

/-- A step by which a caller gets neither a link nor a request. -/
structure Fruitless (w w' : World) : Prop where
  requests : w'.requests = w.requests
  connector : w'.connector = w.connector
  tried : w'.tried = w.tried
  links : w'.links = w.links

lemma CallerStep.fruitless {v : World} {me : Agent} {phase phase' : CallerPhase}
    (h : w.CallerStep me phase v phase') (hover : w.state.isOver = true)
    (haway : phase.TurnedAway) : phase'.TurnedAway ∧ w.Fruitless v := by
  obtain ⟨hdisconnected, _, hopened⟩ := State.ne_of_isOver hover
  cases h with
  | ask =>
    rw [askLock_eq]
    exact ⟨trivial, rfl, rfl, rfl, rfl⟩
  | enter => exact ⟨trivial, rfl, rfl, rfl, rfl⟩
  | reuse link _ hstate => exact absurd hstate hopened
  | begin hstate => exact absurd hstate hdisconnected
  | refuse =>
    rw [passLock_eq]
    exact ⟨rfl, rfl, rfl, rfl, rfl⟩
  | _ => exact haway.elim

lemma fruitless_of_step {index : Nat} {c : Caller} (hover : w.state.isOver = true)
    (hc : w.callers[index]? = some c) (haway : c.phase.TurnedAway)
    (hstep : w.step (.caller index) = some w') : w.Fruitless w' := by
  unfold step at hstep
  split at hstep
  · cases hstep
    exact ⟨rfl, rfl, rfl, rfl⟩
  · simp only [hc, Option.bind_some] at hstep
    obtain ⟨v, phase, rfl, hcaller⟩ := stepCaller_cases hstep
    have hfruitless := (hcaller.fruitless hover haway).2
    exact ⟨hfruitless.requests, hfruitless.connector, hfruitless.tried, hfruitless.links⟩

/-- Whether a call has been turned away or will be. -/
def TurnsAway (w : World) (index : Nat) (c : Caller) : Prop :=
  ∃ phase : CallerPhase,
    w.callers[index]? = some { c with phase := phase } ∧ phase.TurnedAway

lemma turnsAway_deed {index : Nat} {c : Caller} {m : Move} (hover : w.state.isOver = true)
    (h : w.TurnsAway index c) (hdeed : w.Deed m w') : w'.TurnsAway index c := by
  obtain ⟨phase, hc, haway⟩ := h
  have hset {v : World} {other : Nat} {d : Caller} {phase' : CallerPhase}
      (hcallers : v.callers = w.callers) (hd : w.callers[other]? = some d)
      (hnext : other = index → phase'.TurnedAway) :
      (v.setCaller other phase').TurnsAway index c := by
    rw [← hcallers] at hc hd
    by_cases hs : index = other
    · subst hs
      obtain rfl : { c with phase := phase } = d := Option.some.inj (hc.symm.trans hd)
      exact ⟨phase', getElem?_setCaller_self hc _, hnext rfl⟩
    · exact ⟨phase, (getElem?_setCaller_of_ne v hs _).trans hc, haway⟩
  cases hdeed with
  | @caller other d _ _ hd hstep =>
    refine hset hstep.callers hd fun hs => ?_
    subst hs
    obtain rfl : { c with phase := phase } = d := Option.some.inj (hc.symm.trans hd)
    exact (hstep.fruitless hover haway).1
  | disposer hd hstep => exact ⟨phase, hstep.callers ▸ hc, haway⟩
  | giveUp hd => exact hset (leaveLock_callers w _) hd fun _ => trivial
  | spare | dispose => exact ⟨phase, hc, haway⟩
  | aside haside => exact ⟨phase, haside.keepsLine.callers _ _ hc, haway⟩

lemma turnsAway_run {index : Nat} {c : Caller} (hover : w.state.isOver = true)
    (h : w.TurnsAway index c) (moves : List Move) : (w.run moves).TurnsAway index c := by
  refine (run_induction (P := fun v => v.state.isOver = true ∧ v.TurnsAway index c) ⟨hover, h⟩
    (fun v v' m hv hmove => ?_) moves).2
  exact ⟨isOver_move hv.1 hmove, turnsAway_deed hv.1 hv.2 (deed_of_move hmove)⟩

/-! ### The life of a session -/

/-- In every run the state of a session takes only the edges of its life cycle, at most one link is
ever started, and no link disappears. Once the session is being disposed or closed it stays so, and
from then on a caller on its way to the link gets neither a link nor a request: unless it is given
up, its call can always go on to fail since the session is closed. -/
theorem session_lifecycle (address : String) (config : Config) (methods : MethodMap)
    (bindings : Bindings) (connector : Connector) (moves : List Move) :
    let w := (start address config methods bindings connector).run moves
    w.links.length ≤ 1 ∧
    (∀ m w', w.move m = some w' → w.links.length ≤ w'.links.length ∧
      (w'.state = w.state ∨ w'.state ∈ w.state.successors)) ∧
    (w.state.isOver = true → ∀ later : List Move,
      (w.run later).state.isOver = true ∧
      ∀ index c, w.callers[index]? = some c → c.phase.isUnderway = true →
        ∃ phase : CallerPhase, phase.TurnedAway ∧
          (w.run later).callers[index]? = some { c with phase := phase } ∧
          (∀ w', (w.run later).step (.caller index) = some w' → (w.run later).Fruitless w') ∧
          (phase = .dropped ∨ (w.run later).ComesToRefuse index c)) := by
  have hsteady := steady_run (steady_start address config methods bindings connector) moves
  generalize (start address config methods bindings connector).run moves = w at hsteady ⊢
  refine ⟨hsteady.single, fun m w' hmove => ?_, fun hover later => ?_⟩
  · have hdeed := deed_of_move hmove
    exact ⟨links_deed hdeed, state_deed hdeed⟩
  have hlater := isOver_run hover later
  refine ⟨hlater, fun index c hc hunderway => ?_⟩
  have haway : c.phase.TurnedAway := by
    cases hphase : c.phase <;> simp [hphase, CallerPhase.isUnderway] at hunderway <;> trivial
  obtain ⟨phase, hd, haway⟩ := turnsAway_run hover ⟨c.phase, hc, haway⟩ later
  refine ⟨phase, haway, hd, fun w' hstep => fruitless_of_step hlater hd haway hstep, ?_⟩
  have hrefuse (hunderway : phase.isUnderway = true) : (w.run later).ComesToRefuse index c :=
    comesToRefuse_of_isUnderway (c := { c with phase := phase }) (steady_run hsteady later) hlater
      hd hunderway
  cases phase with
  | arriving | queued | checking => exact .inr (hrefuse rfl)
  | dropped => exact .inl rfl
  | finished outcome =>
    obtain rfl : outcome = .error .sessionClosed := haway
    exact .inr ⟨_, .refl, hd⟩
  | _ => exact haway.elim

end World

end InspectorProtocol.Session
