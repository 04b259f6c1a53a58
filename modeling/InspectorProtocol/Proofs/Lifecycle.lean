import InspectorProtocol.Proofs.Lock

/-!
# The states of a session

A session takes its states in a fixed order, and once it closes it does not come back. It starts at
most one link: who connects has the lock, finds no link and leaves the session in another state than
disconnected, and only a session that is disconnected connects.
-/

namespace InspectorProtocol.Session

namespace State

/-- The states that may follow a state. -/
def successors : State → List State
  | .disconnected => [.connecting, .closing, .closed]
  | .connecting => [.disconnected, .opened, .closing, .closed]
  | .opened => [.closing, .closed]
  | .closing => [.closed]
  | .closed => []

/-- Whether a session is being disposed or closed for good. -/
def isOver : State → Bool
  | .closing | .closed => true
  | _ => false

lemma isOver_of_mem_successors {s t : State} (h : s.isOver = true) (ht : t ∈ s.successors) :
    t.isOver = true := by
  cases s <;> simp_all [successors, isOver]

lemma ne_of_isOver {s : State} (h : s.isOver = true) :
    s ≠ .disconnected ∧ s ≠ .connecting ∧ s ≠ .opened := by
  cases s <;> simp_all [isOver]

end State

def CallerPhase.isAttempting : CallerPhase → Bool
  | .connecting _ | .retreating _ => true
  | _ => false

/-- What a caller in a phase finds: no link while it attempts to connect, its own one while it
opens the session or takes the link back. -/
def CallerPhase.Finds (state : State) (links : List Link) : CallerPhase → Prop
  | .connecting _ | .retreating _ => links = [] ∧ state ≠ .disconnected
  | .opening link => link < links.length
  | .undoing link => isStopped links link = true
  | _ => True

namespace CallerPhase

variable {phase : CallerPhase} {state state' : State} {links links' : List Link}

lemma Finds.mono (h : phase.Finds state links)
    (hstate : state' = .disconnected → state = .disconnected) (hlinks : Continue links' links) :
    phase.Finds state' links' := by
  cases phase with
  | connecting | retreating =>
    refine ⟨List.eq_nil_of_length_eq_zero ?_, fun hs => h.2 (hstate hs)⟩
    rw [hlinks.length, h.1]
    rfl
  | opening link =>
    change link < links'.length
    rw [hlinks.length]
    exact h
  | undoing link => exact hlinks.stopped link h
  | _ => trivial

lemma Finds.grow (h : phase.Finds state links) (hphase : phase.isAttempting = false)
    (joined : List Link) : phase.Finds state' (links ++ joined) := by
  cases phase with
  | connecting | retreating => cases hphase
  | opening link => exact Nat.lt_of_lt_of_le h (by simp)
  | undoing link =>
    obtain ⟨l, hl, hstopped⟩ := (Option.any_eq_true _ _).mp h
    have hlt : link < links.length := (List.getElem?_eq_some_iff.mp hl).1
    simp [Finds, isStopped, List.getElem?_append_left hlt, hl, hstopped]
  | _ => trivial

lemma inside_of_isAttempting (h : phase.isAttempting = true) : phase.stage = .inside := by
  cases phase <;> simp [isAttempting] at h <;> rfl

end CallerPhase

namespace World

/-! ### States -/

lemma CallerStep.state {w v : World} {me : Agent} {phase phase' : CallerPhase}
    (h : w.CallerStep me phase v phase') : v.state = w.state ∨ v.state ∈ w.state.successors := by
  cases h with
  | ask => exact .inl (by rw [askLock_eq])
  | reuse | refuse | leave | install | undone => exact .inl (by rw [passLock_eq])
  | begin hstate =>
    obtain ⟨connector, tried, hattempt⟩ := (w.changeState me .connecting).beginAttempt_eq
    rw [hattempt]
    exact .inr (by simp [changeState, hstate, State.successors])
  | retreat _ hstate | succeed _ hstate =>
    exact .inr (by simp [changeState, hstate, State.successors])
  | enter | fail | expire | connect | withdraw | undo => exact .inl rfl
  | draw | enlist | shut | queue | abandon | receive => exact .inl rfl

lemma DisposerStep.state {w v : World} {me : Agent} {phase phase' : DisposerPhase}
    (h : w.DisposerStep me phase v phase') : v.state = w.state ∨ v.state ∈ w.state.successors := by
  cases h with
  | close hstate =>
    right
    simp only [List.mem_cons, List.not_mem_nil, or_false] at hstate
    rcases hstate with hs | hs | hs <;> simp [changeState, hs, State.successors]
  | ask => exact .inl (by rw [askLock_eq])
  | take => exact .inl (by rw [passLock_eq])
  | finish hstate => exact .inr (by simp [changeState, hstate, State.successors])
  | pass | enter | sweep | clear | cleared | stop | join | rest => exact .inl rfl

lemma leaveLock_state (w : World) (agent : Agent) : (w.leaveLock agent).state = w.state := by
  rw [leaveLock_eq, passLock_eq]
  split <;> rfl

lemma state_deed {w w' : World} {m : Move} (h : w.Deed m w') :
    w'.state = w.state ∨ w'.state ∈ w.state.successors := by
  cases h with
  | caller _ hstep => exact hstep.state
  | disposer _ hstep => exact hstep.state
  | giveUp => exact .inl (w.leaveLock_state _)
  | spare | dispose => exact .inl rfl
  | aside haside =>
    rcases haside.state with hsame | ⟨_, hopen, hclosed⟩
    · exact .inl hsame
    · right
      rw [hclosed]
      cases hstate : w.state with
      | closed => exact absurd hstate hopen
      | _ => simp [State.successors]

lemma isOver_move {w w' : World} {m : Move} (h : w.state.isOver = true)
    (hmove : w.move m = some w') : w'.state.isOver = true := by
  rcases state_deed (deed_of_move hmove) with hsame | hnext
  · rwa [hsame]
  · exact State.isOver_of_mem_successors h hnext

lemma isOver_run {w : World} (h : w.state.isOver = true) (moves : List Move) :
    (w.run moves).state.isOver = true :=
  run_induction (P := fun v => v.state.isOver = true) h (fun _ _ _ hv hmove => isOver_move hv hmove)
    moves

/-! ### Links -/

lemma CallerStep.links_le {w v : World} {me : Agent} {phase phase' : CallerPhase}
    (h : w.CallerStep me phase v phase') : w.links.length ≤ v.links.length := by
  cases h with
  | ask => simp [askLock_eq]
  | reuse | refuse | leave | install | undone => simp [passLock_eq]
  | begin =>
    obtain ⟨connector, tried, hattempt⟩ := (w.changeState me .connecting).beginAttempt_eq
    rw [hattempt]
    exact Nat.le_refl _
  | connect => simp
  | undo | queue => simp [stopLink, changeLink]
  | enter | fail | expire | retreat | withdraw | succeed => exact Nat.le_refl _
  | draw | enlist | shut | abandon | receive => exact Nat.le_refl _

lemma DisposerStep.links {w v : World} {me : Agent} {phase phase' : DisposerPhase}
    (h : w.DisposerStep me phase v phase') : Continue v.links w.links := by
  cases h with
  | ask => rw [askLock_eq]; exact .refl _
  | take => rw [passLock_eq]; exact .refl _
  | stop link => exact .modify link fun _ _ => rfl
  | close | finish | pass | enter | sweep | clear | cleared | join | rest => exact .refl _

lemma leaveLock_links (w : World) (agent : Agent) : (w.leaveLock agent).links = w.links := by
  rw [leaveLock_eq, passLock_eq]
  split <;> rfl

lemma links_deed {w w' : World} {m : Move} (h : w.Deed m w') :
    w.links.length ≤ w'.links.length := by
  cases h with
  | caller _ hstep => exact hstep.links_le
  | disposer _ hstep => exact Nat.le_of_eq hstep.links.length.symm
  | @giveUp index => exact Nat.le_of_eq (congrArg List.length (w.leaveLock_links _).symm)
  | spare | dispose => exact Nat.le_refl _
  | aside haside => exact Nat.le_of_eq haside.links.length.symm

/-- While a caller has the lock, nobody else attempts to connect. -/
lemma IsOrderly.eq_of_isAttempting {w : World} (h : w.IsOrderly) {index other : Nat} {c d : Caller}
    (hc : w.callers[index]? = some c) (hinside : c.phase.stage = .inside)
    (hd : w.callers[other]? = some d) (hattempting : d.phase.isAttempting = true) :
    other = index := by
  have hboth := h.eq_of_inside ((stage_caller hc).trans hinside)
    ((stage_caller hd).trans (CallerPhase.inside_of_isAttempting hattempting))
  simpa using hboth.symm

/-- At most one link is ever started. -/
structure Steady (w : World) : Prop where
  orderly : w.IsOrderly
  single : w.links.length ≤ 1
  unlinked : w.state = .disconnected → w.links = []
  finds : ∀ (index : Nat) (c : Caller), w.callers[index]? = some c → c.phase.Finds w.state w.links

namespace Steady

variable {w w' : World}

/-- What a step leads to if its caller finds what it should afterwards, and the others too. -/
lemma setCaller {v : World} {index : Nat} {c : Caller} {phase : CallerPhase}
    (hc : v.callers[index]? = some c) (horderly : (v.setCaller index phase).IsOrderly)
    (hsingle : v.links.length ≤ 1) (hunlinked : v.state = .disconnected → v.links = [])
    (hphase : phase.Finds v.state v.links)
    (hothers : ∀ (other : Nat) (d : Caller), other ≠ index → v.callers[other]? = some d →
      d.phase.Finds v.state v.links) : (v.setCaller index phase).Steady := by
  refine ⟨horderly, hsingle, hunlinked, fun other d hd => ?_⟩
  by_cases hs : other = index
  · subst hs
    rw [getElem?_setCaller_self hc] at hd
    cases hd
    exact hphase
  · rw [getElem?_setCaller_of_ne v hs] at hd
    exact hothers other d hs hd

lemma setCaller_of_continue (h : w.Steady) {v : World} {index : Nat} {c : Caller}
    {phase : CallerPhase} (hc : w.callers[index]? = some c) (hcallers : v.callers = w.callers)
    (horderly : (v.setCaller index phase).IsOrderly)
    (hstate : v.state = .disconnected → w.state = .disconnected)
    (hlinks : Continue v.links w.links) (hphase : phase.Finds v.state v.links) :
    (v.setCaller index phase).Steady := by
  have hnil (hs : v.state = .disconnected) : v.links = [] := by
    apply List.eq_nil_of_length_eq_zero
    rw [hlinks.length, h.unlinked (hstate hs)]
    rfl
  refine Steady.setCaller (by rw [hcallers, hc]) horderly ((hlinks.length ▸ h.single)) hnil
    hphase fun other d _ hd => ?_
  rw [hcallers] at hd
  exact (h.finds other d hd).mono hstate hlinks

lemma callerStep (h : w.Steady) {v : World} {index : Nat} {c : Caller} {phase : CallerPhase}
    (hc : w.callers[index]? = some c) (hstep : w.CallerStep (.caller index) c.phase v phase)
    (horderly : (v.setCaller index phase).IsOrderly) : (v.setCaller index phase).Steady := by
  have hcallers := hstep.callers
  have hfinds := h.finds index c hc
  have hothers {other : Nat} {d : Caller} (hinside : c.phase.stage = .inside) (hne : other ≠ index)
      (hd : w.callers[other]? = some d) : d.phase.isAttempting = false := by
    by_contra hattempting
    exact hne (h.orderly.eq_of_isAttempting hc hinside hd (by simpa using hattempting))
  generalize hp : c.phase = before at hstep hfinds hothers
  cases hstep with
  | ask | enter | reuse | refuse | leave | install | undone =>
    refine h.setCaller_of_continue hc hcallers horderly ?_ ?_ trivial
    · simp [askLock_eq, passLock_eq]
    · simp [askLock_eq, passLock_eq, Continue.refl]
  | begin hstate =>
    obtain ⟨connector, tried, hattempt⟩ :=
      (w.changeState (.caller index) .connecting).beginAttempt_eq
    refine h.setCaller_of_continue hc hcallers horderly (fun _ => hstate) ?_ ?_
    · rw [hattempt]
      exact Continue.refl _
    · rw [hattempt]
      exact ⟨h.unlinked hstate, by simp [changeState]⟩
  | fail | expire =>
    exact h.setCaller_of_continue hc hcallers horderly id (.refl _) hfinds
  | connect attempt =>
    obtain ⟨hnil, hstate⟩ := hfinds
    refine Steady.setCaller hc horderly (by simp [hnil]) (fun hs => absurd hs hstate) ?_ ?_
    · simp [CallerPhase.Finds]
    · intro other d hne hd
      exact (h.finds other d hd).grow (hothers rfl hne hd) _
  | retreat reason hstate =>
    refine Steady.setCaller hc horderly h.single (fun _ => hfinds.1) trivial ?_
    intro other d hne hd
    have hgrow : d.phase.Finds .disconnected (w.links ++ []) :=
      (h.finds other d hd).grow (hothers rfl hne hd) []
    rwa [List.append_nil] at hgrow
  | withdraw => exact h.setCaller_of_continue hc hcallers horderly id (.refl _) trivial
  | succeed link hstate =>
    exact h.setCaller_of_continue hc hcallers horderly (by simp [changeState]) (.refl _) trivial
  | undo link hstate =>
    refine h.setCaller_of_continue hc hcallers horderly id (.modify link fun _ _ => rfl) ?_
    have hlt : link < w.links.length := hfinds
    simp [CallerPhase.Finds, isStopped, stopLink, World.changeLink, hlt]
  | queue link =>
    exact h.setCaller_of_continue hc hcallers horderly id (.modify link fun _ hl => hl) trivial
  | draw | enlist | shut | abandon | receive =>
    exact h.setCaller_of_continue hc hcallers horderly id (.refl _) trivial

lemma of_aside (h : w.Steady) (horderly : w'.IsOrderly)
    (hcallers : ∃ joined, w'.callers = w.callers ++ joined ∧ ∀ c ∈ joined, c.phase = .arriving)
    (hstate : w'.state = .disconnected → w.state = .disconnected)
    (hlinks : Continue w'.links w.links) : w'.Steady := by
  obtain ⟨joined, hcallers, hnew⟩ := hcallers
  refine ⟨horderly, (hlinks.length ▸ h.single), fun hs => ?_, fun index c hc => ?_⟩
  · apply List.eq_nil_of_length_eq_zero
    rw [hlinks.length, h.unlinked (hstate hs)]
    rfl
  · rw [hcallers, List.getElem?_append] at hc
    split at hc
    · exact (h.finds index c hc).mono hstate hlinks
    · rw [hnew c (List.mem_of_getElem? hc)]
      trivial

lemma deed (h : w.Steady) {m : Move} (hdeed : w.Deed m w') : w'.Steady := by
  have horderly := isOrderly_deed h.orderly hdeed
  cases hdeed with
  | caller hc hstep => exact h.callerStep hc hstep horderly
  | @disposer _ _ _ v _ hstep =>
    refine h.of_aside horderly ⟨[], by simp [hstep.callers], by simp⟩ ?_ ?_
    · change v.state = _ → _
      cases hstep with
      | ask => rw [askLock_eq]; exact id
      | take => rw [passLock_eq]; exact id
      | close | finish => simp [changeState]
      | pass | enter | sweep | clear | cleared | stop | join | rest => exact id
    · exact hstep.links
  | @giveUp index c hc _ =>
    refine h.setCaller_of_continue hc (leaveLock_callers w _) horderly ?_ ?_ trivial
    · exact fun hs => (w.leaveLock_state _).symm.trans hs
    · exact (w.leaveLock_links _).symm ▸ .refl _
  | spare => exact h
  | dispose => exact h.of_aside horderly ⟨[], by simp, by simp⟩ id (.refl _)
  | aside haside =>
    refine h.of_aside horderly haside.callers (fun hs => ?_) haside.links
    rcases haside.state with hsame | ⟨_, _, hclosed⟩
    · exact hsame ▸ hs
    · rw [hclosed] at hs
      cases hs

end Steady

lemma steady_start (address : String) (config : Config) (methods : MethodMap)
    (bindings : Bindings) (connector : Connector) :
    (start address config methods bindings connector).Steady :=
  ⟨isOrderly_start _ _ _ _ _, by simp [start], fun _ => rfl, by simp [start]⟩

theorem steady_run {w : World} (h : w.Steady) (moves : List Move) : (w.run moves).Steady :=
  run_induction h (fun _ _ _ hw hmove => hw.deed (deed_of_move hmove)) moves

/-! ### Getting to the link -/

section Looking

variable {w : World} {index : Nat} {c : Caller}

lemma stepCaller_enter (hphase : c.phase = .queued) (hholder : w.holder = some (.caller index)) :
    w.stepCaller index c = some (w.setCaller index .checking) := by
  simp only [stepCaller, hphase, hholder, if_true]

lemma stepCaller_refuse (hphase : c.phase = .checking) (hdisconnected : w.state ≠ .disconnected)
    (hopened : w.state ≠ .opened) : w.stepCaller index c =
      some (w.passLock.setCaller index (.finished (.error .sessionClosed))) := by
  simp only [stepCaller, hphase]
  split
  · rename_i hstate
    exact absurd hstate hopened
  · rw [shift_of_not_mem (by simpa using hdisconnected)]
    rfl

lemma stepCaller_begin (hphase : c.phase = .checking) (hstate : w.state = .disconnected) :
    w.stepCaller index c =
      some ((w.changeState (.caller index) .connecting).beginAttempt.2.setCaller index
        (.connecting (w.changeState (.caller index) .connecting).beginAttempt.1)) := by
  simp only [stepCaller, hphase]
  split
  · rename_i hopened
    rw [hstate] at hopened
    cases hopened
  · rw [shift_of_mem (by simp [hstate]) (by simp)]

end Looking

end World

end InspectorProtocol.Session
