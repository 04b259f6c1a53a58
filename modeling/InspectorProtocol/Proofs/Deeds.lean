import InspectorProtocol.Proofs.Hands

/-!
# What each move does

Every move is one of a few deeds: a caller or a disposer goes from one phase to the next, a caller
is given up, a disposer comes, or something happens aside that leaves everybody in place. The
relations below say what a deed does to the state, the lock, the links and the requests, guards
included. What holds in all runs is proved from them and not from the steps.
-/

namespace InspectorProtocol.Session

/-- Whether the agents of a link were told to stop. -/
def isStopped (links : List Link) (index : Nat) : Bool := links[index]?.any (·.shutdown)

/-- The same number of links, of which those that were told to stop stay so. -/
structure Continue (later links : List Link) : Prop where
  length : later.length = links.length
  stopped : ∀ index, isStopped links index = true → isStopped later index = true

lemma Continue.refl (links : List Link) : Continue links links := ⟨rfl, fun _ h => h⟩

lemma Continue.trans {last later links : List Link} (h : Continue last later)
    (h' : Continue later links) : Continue last links :=
  ⟨h.length.trans h'.length, fun index hl => h.stopped index (h'.stopped index hl)⟩

lemma Continue.modify {links : List Link} (index : Nat) {change : Link → Link}
    (h : ∀ l, l.shutdown = true → (change l).shutdown = true) :
    Continue (links.modify index change) links := by
  refine ⟨List.length_modify .., fun other hother => ?_⟩
  obtain ⟨l, hl, hstopped⟩ := (Option.any_eq_true _ _).mp hother
  by_cases hs : index = other
  · simp [isStopped, hl, hs, h l hstopped]
  · simp [isStopped, hl, hs, hstopped]

def CallerPhase.isConnecting : CallerPhase → Bool
  | .connecting _ => true
  | _ => false

/-- Forget the request that a caller waited for, if it did for any. -/
def Requests.forgo (r : Requests) : Option Int → Requests
  | some id => r.release id
  | none => r

namespace World

/-- Change the state; the report is left to do. -/
def changeState (w : World) (agent : Agent) (target : State) : World :=
  { w with state := target, notices := w.notices ++ [(agent, .stateChange w.state target)] }

/-- Whether giving up a call has an effect. -/
def canGiveUp (w : World) (index : Nat) : Bool :=
  w.callers[index]?.any (·.phase.isSuspended) && !w.notices.any (·.1 = .caller index)

/-! ### Helpers as changes of a few fields -/

section Helpers

variable (w : World) (agent : Agent)

lemma passLock_eq :
    w.passLock = { w with holder := w.lockQueue.head?, lockQueue := w.lockQueue.tail } := by
  unfold passLock
  split
  · rename_i hnobody
    simp only [hnobody, List.head?_nil, List.tail_nil]
  · rename_i next rest hqueue
    simp [hqueue]

lemma askLock_eq :
    w.askLock agent =
      { w with
        holder := some (w.holder.getD agent)
        lockQueue := if w.holder = none then w.lockQueue else w.lockQueue ++ [agent] } := by
  unfold askLock
  split
  · rename_i hfree
    simp [hfree]
  · rename_i other hheld
    simp [hheld]

lemma leaveLock_eq :
    w.leaveLock agent =
      if w.holder = some agent then w.passLock
      else { w with lockQueue := w.lockQueue.filter (· != agent) } := rfl

lemma beginAttempt_eq : ∃ connector tried,
    w.beginAttempt.2 = { w with connector := connector, tried := tried } := by
  unfold beginAttempt
  split
  · exact ⟨w.connector, w.tried, rfl⟩
  · exact ⟨_, _, rfl⟩

variable {w agent} {sources : List State} {target : State}

lemma shift_of_mem (h : w.state ∈ sources) (htarget : target ∉ sources) :
    w.shift agent sources target = (true, w.changeState agent target) := by
  have hne : w.state ≠ target := fun heq => htarget (heq ▸ h)
  simp [shift, h, hne, changeState]

lemma shift_of_not_mem (h : w.state ∉ sources) : w.shift agent sources target = (false, w) := by
  simp [shift, h]

end Helpers

lemma getElem?_setCaller_self {w : World} {index : Nat} {c : Caller}
    (h : w.callers[index]? = some c) (phase : CallerPhase) :
    (w.setCaller index phase).callers[index]? = some { c with phase := phase } := by
  simp [setCaller, h]

lemma getElem?_setCaller_of_ne (w : World) {index other : Nat} (h : other ≠ index)
    (phase : CallerPhase) : (w.setCaller index phase).callers[other]? = w.callers[other]? := by
  simp [setCaller, Ne.symm h]

/-! ### Deeds -/

/-- What the step of a caller in a phase does, and the phase that it leads to. -/
inductive CallerStep (w : World) (me : Agent) : CallerPhase → World → CallerPhase → Prop where
  | ask : CallerStep w me .arriving (w.askLock me) .queued
  | enter (h : w.holder = some me) : CallerStep w me .queued w .checking
  | reuse (link : Nat) (hlink : w.link = some link) (h : w.state = .opened) :
    CallerStep w me .checking w.passLock (.registering link)
  | refuse (h : w.state ≠ .disconnected) :
    CallerStep w me .checking w.passLock (.finished (.error .sessionClosed))
  | begin (h : w.state = .disconnected) :
    CallerStep w me .checking (w.changeState me .connecting).beginAttempt.2
      (.connecting (w.changeState me .connecting).beginAttempt.1)
  | fail (attempt : Attempt) (reason : Failure) (h : attempt.failure = some reason) :
    CallerStep w me (.connecting attempt) w (.retreating reason)
  | expire (attempt : Attempt) :
    CallerStep w me (.connecting attempt) w
      (.retreating (.connectionTimeout (w.config.connectTimeout / 1000)))
  | connect (attempt : Attempt) :
    CallerStep w me (.connecting attempt) { w with links := w.links ++ [{}] }
      (.opening w.links.length)
  | retreat (reason : Failure) (h : w.state = .connecting) :
    CallerStep w me (.retreating reason) (w.changeState me .disconnected) (.leaving reason)
  | withdraw (reason : Failure) (h : w.state ≠ .connecting) :
    CallerStep w me (.retreating reason) w (.leaving reason)
  | leave (reason : Failure) :
    CallerStep w me (.leaving reason) w.passLock (.finished (.error reason))
  | succeed (link : Nat) (h : w.state = .connecting) :
    CallerStep w me (.opening link) (w.changeState me .opened) (.installing link)
  | undo (link : Nat) (h : w.state ≠ .connecting) :
    CallerStep w me (.opening link) (w.stopLink link) (.undoing link)
  | install (link : Nat) :
    CallerStep w me (.installing link) { w with link := some link }.passLock (.registering link)
  | undone (link : Nat) :
    CallerStep w me (.undoing link) w.passLock (.finished (.error .sessionClosed))
  | draw (link : Nat) :
    CallerStep w me (.registering link) { w with requests := w.requests.draw.2 }
      (.enlisting link w.requests.nextId)
  | enlist (link : Nat) (id : Int) (h : w.requests.closed = false) :
    CallerStep w me (.enlisting link id) { w with requests := w.requests.enlist id }
      (.enqueueing link id)
  | shut (link : Nat) (id : Int) (h : w.requests.closed = true) :
    CallerStep w me (.enlisting link id) w (.finished (.error .sessionClosed))
  | queue (link : Nat) (id : Int) (text : String) :
    CallerStep w me (.enqueueing link id)
      (w.changeLink link fun l => { l with queue := l.queue ++ [(id, text)] }) (.waiting id)
  | abandon (link : Nat) (id : Int) :
    CallerStep w me (.enqueueing link id) { w with requests := w.requests.release id }
      (.finished (.error .sessionClosed))
  | receive (id : Int) (outcome : Outcome) (h : w.requests.outcome? id = some outcome) :
    CallerStep w me (.waiting id) { w with requests := w.requests.release id } (.finished outcome)

/-- What the step of a disposer in a phase does, and the phase that it leads to. -/
inductive DisposerStep (w : World) (me : Agent) :
    DisposerPhase → World → DisposerPhase → Prop where
  | close (h : w.state ∈ [.disconnected, .connecting, .opened]) :
    DisposerStep w me .starting (w.changeState me .closing) .arriving
  | pass (h : w.state ∉ [.disconnected, .connecting, .opened]) :
    DisposerStep w me .starting w .arriving
  | ask : DisposerStep w me .arriving (w.askLock me) .queued
  | enter (h : w.holder = some me) : DisposerStep w me .queued w .taking
  | take : DisposerStep w me .taking { w with link := none }.passLock (.sweeping w.link)
  | sweep (link : Option Nat) :
    DisposerStep w me (.sweeping link) w.drain (.clearing link w.requests.pending)
  | clear (link : Option Nat) (id : Int) (ids : List Int) :
    DisposerStep w me (.clearing link (id :: ids)) (w.answer id (.error .sessionClosed))
      (.clearing link ids)
  | cleared (link : Option Nat) :
    DisposerStep w me (.clearing link []) w
      (match link with
        | some link => .stopping link
        | none => .closing)
  | stop (link : Nat) : DisposerStep w me (.stopping link) (w.stopLink link) (.joining link)
  | join (link : Nat) : DisposerStep w me (.joining link) w .closing
  | finish (h : w.state = .closing) :
    DisposerStep w me .closing (w.changeState me .closed) .finished
  | rest (h : w.state ≠ .closing) : DisposerStep w me .closing w .finished

/-- Nobody moves, except that new callers may come. The state may change only by the loss of a
link, which closes the session. -/
structure Aside (w w' : World) : Prop where
  callers : ∃ joined, w'.callers = w.callers ++ joined ∧ ∀ c ∈ joined, c.phase = .arriving
  disposers : w'.disposers = w.disposers
  holder : w'.holder = w.holder
  lockQueue : w'.lockQueue = w.lockQueue
  state : w'.state = w.state ∨ (w.links ≠ [] ∧ w.state ≠ .closed ∧ w'.state = .closed)
  link : w'.link = w.link ∨ w'.link = none
  links : Continue w'.links w.links
  notices : ∀ n ∈ w'.notices, n ∈ w.notices ∨ ∀ index, n.1 ≠ .caller index
  connector : w'.connector = w.connector

/-- What a move does. -/
inductive Deed (w : World) : Move → World → Prop where
  | caller {index : Nat} {c : Caller} {v : World} {phase : CallerPhase}
    (hc : w.callers[index]? = some c) (h : w.CallerStep (.caller index) c.phase v phase) :
    Deed w (.act (.caller index)) (v.setCaller index phase)
  | disposer {index : Nat} {phase phase' : DisposerPhase} {v : World}
    (hd : w.disposers[index]? = some phase)
    (h : w.DisposerStep (.disposer index) phase v phase') :
    Deed w (.act (.disposer index)) (v.setDisposer index phase')
  | giveUp {index : Nat} {c : Caller} (hc : w.callers[index]? = some c)
    (h : w.canGiveUp index = true) :
    Deed w (.giveUp index)
      ({ w.leaveLock (.caller index) with
        requests := w.requests.forgo c.phase.awaited }.setCaller index .dropped)
  | spare {index : Nat} (h : w.canGiveUp index = false) : Deed w (.giveUp index) w
  | dispose : Deed w .dispose { w with disposers := w.disposers ++ [.starting] }
  | aside {m : Move} {w' : World} (h : w.Aside w') (hm : ∀ index, m ≠ .giveUp index)
    (hh : w.Handles m w') : Deed w m w'

/-! ### Every move is a deed -/

lemma stepCaller_cases {w w' : World} {index : Nat} {c : Caller}
    (h : w.stepCaller index c = some w') : ∃ v phase,
      w' = v.setCaller index phase ∧ w.CallerStep (.caller index) c.phase v phase := by
  cases hphase : c.phase with
  | arriving =>
    simp only [stepCaller, hphase, Option.some.injEq] at h
    exact ⟨_, _, h.symm, .ask⟩
  | queued =>
    simp only [stepCaller, hphase] at h
    split at h
    · rename_i hholder
      cases h
      exact ⟨_, _, rfl, .enter hholder⟩
    · cases h
  | checking =>
    simp only [stepCaller, hphase] at h
    split at h
    · rename_i link hlink hstate
      cases h
      exact ⟨_, _, rfl, .reuse link hlink hstate⟩
    · by_cases hstate : w.state = .disconnected
      · rw [shift_of_mem (by simp [hstate]) (by simp)] at h
        cases h
        exact ⟨_, _, rfl, .begin hstate⟩
      · rw [shift_of_not_mem (by simpa using hstate)] at h
        cases h
        exact ⟨_, _, rfl, .refuse hstate⟩
  | connecting attempt =>
    simp only [stepCaller, hphase] at h
    split at h
    · split at h
      · rename_i reason hfailure
        cases h
        exact ⟨_, _, rfl, .fail attempt reason hfailure⟩
      · cases h
        exact ⟨_, _, rfl, .connect attempt⟩
    · split at h
      · cases h
        exact ⟨_, _, rfl, .expire attempt⟩
      · cases h
  | retreating reason =>
    simp only [stepCaller, hphase, Option.some.injEq] at h
    subst h
    by_cases hstate : w.state = .connecting
    · rw [shift_of_mem (by simp [hstate]) (by simp)]
      exact ⟨_, _, rfl, .retreat reason hstate⟩
    · rw [shift_of_not_mem (by simpa using hstate)]
      exact ⟨_, _, rfl, .withdraw reason hstate⟩
  | leaving reason =>
    simp only [stepCaller, hphase, Option.some.injEq] at h
    exact ⟨_, _, h.symm, .leave reason⟩
  | opening link =>
    simp only [stepCaller, hphase] at h
    by_cases hstate : w.state = .connecting
    · rw [shift_of_mem (by simp [hstate]) (by simp)] at h
      cases h
      exact ⟨_, _, rfl, .succeed link hstate⟩
    · rw [shift_of_not_mem (by simpa using hstate)] at h
      cases h
      exact ⟨_, _, rfl, .undo link hstate⟩
  | installing link =>
    simp only [stepCaller, hphase, Option.some.injEq] at h
    exact ⟨_, _, h.symm, .install link⟩
  | undoing link =>
    simp only [stepCaller, hphase] at h
    split at h
    · cases h
      exact ⟨_, _, rfl, .undone link⟩
    · cases h
  | registering link =>
    simp only [stepCaller, hphase, Option.some.injEq] at h
    exact ⟨_, _, h.symm, .draw link⟩
  | enlisting link id =>
    simp only [stepCaller, hphase] at h
    split at h
    · rename_i hclosed
      cases h
      exact ⟨_, _, rfl, .shut link id hclosed⟩
    · rename_i hopen
      cases h
      exact ⟨_, _, rfl, .enlist link id (Bool.not_eq_true _ ▸ hopen)⟩
  | enqueueing link id =>
    simp only [stepCaller, hphase] at h
    split at h
    · cases h
    · split at h
      · cases h
        exact ⟨_, _, rfl, .abandon link id⟩
      · split at h
        · cases h
          exact ⟨_, _, rfl, .queue link id _⟩
        · cases h
  | waiting id =>
    simp only [stepCaller, hphase, Option.map_eq_some_iff] at h
    obtain ⟨outcome, houtcome, rfl⟩ := h
    exact ⟨_, _, rfl, .receive id outcome houtcome⟩
  | finished outcome => simp [stepCaller, hphase] at h
  | dropped => simp [stepCaller, hphase] at h

lemma stepDisposer_cases {w w' : World} {index : Nat} {phase : DisposerPhase}
    (h : w.stepDisposer index phase = some w') : ∃ v phase',
      w' = v.setDisposer index phase' ∧ w.DisposerStep (.disposer index) phase v phase' := by
  cases phase with
  | starting =>
    simp only [stepDisposer, Option.some.injEq] at h
    subst h
    by_cases hstate : w.state ∈ [.disconnected, .connecting, .opened]
    · rw [shift_of_mem hstate (by simp)]
      exact ⟨_, _, rfl, .close hstate⟩
    · rw [shift_of_not_mem hstate]
      exact ⟨_, _, rfl, .pass hstate⟩
  | arriving =>
    simp only [stepDisposer, Option.some.injEq] at h
    exact ⟨_, _, h.symm, .ask⟩
  | queued =>
    simp only [stepDisposer] at h
    split at h
    · rename_i hholder
      cases h
      exact ⟨_, _, rfl, .enter hholder⟩
    · cases h
  | taking =>
    simp only [stepDisposer, Option.some.injEq] at h
    exact ⟨_, _, h.symm, .take⟩
  | sweeping link =>
    simp only [stepDisposer, Option.some.injEq] at h
    exact ⟨_, _, h.symm, .sweep link⟩
  | clearing link ids =>
    cases ids with
    | nil =>
      cases link with
      | none =>
        cases h
        exact ⟨_, _, rfl, .cleared none⟩
      | some link =>
        cases h
        exact ⟨_, _, rfl, .cleared (some link)⟩
    | cons id ids =>
      simp only [stepDisposer, Option.some.injEq] at h
      exact ⟨_, _, h.symm, .clear link id ids⟩
  | stopping link =>
    simp only [stepDisposer, Option.some.injEq] at h
    exact ⟨_, _, h.symm, .stop link⟩
  | joining link =>
    simp only [stepDisposer] at h
    split at h
    · cases h
      exact ⟨_, _, rfl, .join link⟩
    · cases h
  | closing =>
    simp only [stepDisposer, Option.some.injEq] at h
    subst h
    by_cases hstate : w.state = .closing
    · rw [shift_of_mem (by simp [hstate]) (by simp)]
      exact ⟨_, _, rfl, .finish hstate⟩
    · rw [shift_of_not_mem (by simpa using hstate)]
      exact ⟨_, _, rfl, .rest hstate⟩
  | finished => simp [stepDisposer] at h

namespace Aside

variable {w v : World}

lemma refl (w : World) : w.Aside w :=
  ⟨⟨[], by simp⟩, rfl, rfl, rfl, .inl rfl, .inl rfl, .refl _, fun _ h => .inl h, rfl⟩

lemma changeLink (h : w.Aside v) (index : Nat) {change : Link → Link}
    (hchange : ∀ l, l.shutdown = true → (change l).shutdown = true) :
    w.Aside (v.changeLink index change) :=
  { h with links := (Continue.modify index hchange).trans h.links }

lemma stopLink (h : w.Aside v) (index : Nat) : w.Aside (v.stopLink index) :=
  h.changeLink index fun _ _ => rfl

lemma observe (h : w.Aside v) (o : Observation) : w.Aside (v.observe o) := { h with }

lemma setRequests (w : World) (requests : Requests) : w.Aside { w with requests } :=
  { refl w with }

lemma joins {joined : List Caller} (h : w.Aside v) (hcallers : v.callers = w.callers)
    (hnew : ∀ c ∈ joined, c.phase = .arriving) :
    w.Aside { v with callers := v.callers ++ joined } :=
  { h with callers := ⟨joined, by rw [hcallers], hnew⟩ }

lemma terminate (hlinks : w.links ≠ []) {agent : Agent} (hagent : ∀ index, agent ≠ .caller index) :
    w.Aside (w.shift agent unclosed .closed).2 := by
  by_cases hstate : w.state ∈ unclosed
  · rw [shift_of_mem hstate (by simp [unclosed])]
    refine { refl w with state := .inr ⟨hlinks, ?_, rfl⟩, notices := ?_ }
    · rintro hclosed
      simp [unclosed, hclosed] at hstate
    · intro n hn
      rcases List.mem_append.mp hn with hold | hnew
      · exact .inl hold
      · rw [List.mem_singleton.mp hnew]
        exact .inr hagent
  · rw [shift_of_not_mem hstate]
    exact refl w

end Aside

namespace CallerStep

variable {w v : World} {me : Agent} {phase phase' : CallerPhase}

lemma callers (h : w.CallerStep me phase v phase') : v.callers = w.callers := by
  cases h with
  | ask | reuse | refuse | begin | leave | undo | install | undone => simp [stopLink, changeState]
  | _ => rfl

lemma disposers (h : w.CallerStep me phase v phase') : v.disposers = w.disposers := by
  cases h with
  | ask => rw [askLock_eq]
  | reuse | refuse | leave | install | undone => rw [passLock_eq]
  | begin =>
    obtain ⟨connector, tried, hattempt⟩ := (w.changeState me .connecting).beginAttempt_eq
    rw [hattempt]
    rfl
  | _ => rfl

lemma errand (h : w.CallerStep me phase v phase') : v.errand = w.errand := by
  cases h with
  | ask => exact w.askLock_errand me
  | reuse | refuse | leave | undone => exact w.passLock_errand
  | begin => exact beginAttempt_errand _
  | connect attempt => exact errand_connect w
  | undo link => exact stopLink_errand
  | install link => exact passLock_errand _
  | queue link id text => exact errand_changeLink fun _ _ => ⟨rfl, rfl⟩
  | _ => rfl

end CallerStep

namespace DisposerStep

variable {w v : World} {me : Agent} {phase phase' : DisposerPhase}

lemma callers (h : w.DisposerStep me phase v phase') : v.callers = w.callers := by
  cases h with
  | ask | take => simp
  | _ => rfl

lemma disposers (h : w.DisposerStep me phase v phase') : v.disposers = w.disposers := by
  cases h with
  | ask => rw [askLock_eq]
  | take => rw [passLock_eq]
  | _ => rfl

lemma errand (h : w.DisposerStep me phase v phase') : v.errand = w.errand := by
  cases h with
  | ask => exact w.askLock_errand me
  | take => exact passLock_errand _
  | stop => exact stopLink_errand
  | _ => rfl

lemma handling (h : w.DisposerStep me phase v phase') :
    Handling w.requests phase.errand v.requests phase'.errand := by
  cases h with
  | ask =>
    rw [askLock_requests]
    exact .idle
  | take =>
    rw [passLock_requests]
    exact .start
  | sweep => exact .drain
  | clear link id ids => exact .send id ids _
  | cleared link => cases link <;> exact .finish
  | _ => exact .idle

lemma errand_setDisposer {index : Nat} (hd : w.disposers[index]? = some phase)
    (h : w.DisposerStep me phase v phase') :
    (v.setDisposer index phase').errand =
      Function.update w.errand (.disposer index) phase'.errand := by
  have hindex : index < v.disposers.length :=
    h.disposers ▸ (List.getElem?_eq_some_iff.mp hd).1
  rw [World.errand_setDisposer hindex, h.errand]

lemma handles {index : Nat} (hd : w.disposers[index]? = some phase)
    (h : w.DisposerStep me phase v phase') :
    w.Handles (.act (.disposer index)) (v.setDisposer index phase') := by
  have hown : w.errand (.disposer index) = phase.errand := by simp [World.errand, hd]
  exact .act _ _ (hown ▸ h.handling) (h.errand_setDisposer hd)

end DisposerStep

lemma ne_nil_of_getElem? {links : List Link} {index : Nat} {l : Link}
    (h : links[index]? = some l) : links ≠ [] := by
  rintro rfl
  simp at h

lemma aside_takeCommand {w w' : World} {index : Nat} {l : Link} {agent : Agent}
    (hl : w.links[index]? = some l) (hagent : w.errand agent = .none)
    (h : w.takeCommand index l = some w') : w.Aside w' ∧ w.Handles (.act agent) w' := by
  unfold takeCommand at h
  split at h
  · rename_i hidle _
    cases h
    refine ⟨(Aside.refl w).changeLink index fun _ hstopped => hstopped, .idle hagent rfl ?_⟩
    exact errand_changeLink_of hl ⟨by rw [hidle]; rfl, rfl⟩
  · cases h

lemma aside_takeArrival {w w' : World} {index : Nat} {l : Link} {agent : Agent}
    (hl : w.links[index]? = some l) (hagent : w.errand agent = .none)
    (h : w.takeArrival index l = some w') : w.Aside w' ∧ w.Handles (.act agent) w' := by
  unfold takeArrival at h
  split at h
  · rename_i arrival _ hidle _
    cases h
    refine ⟨(Aside.refl w).changeLink index fun _ hstopped => hstopped, .idle hagent rfl ?_⟩
    exact errand_changeLink_of hl ⟨rfl, by rw [hidle]; cases arrival <;> rfl⟩
  · cases h

lemma aside_takeEvent {w w' : World} {index : Nat} {l : Link} {agent : Agent}
    (hagent : w.errand agent = .none) (h : w.takeEvent index l = some w') :
    w.Aside w' ∧ w.Handles (.act agent) w' := by
  unfold takeEvent at h
  split at h
  · cases h
    exact ⟨(Aside.refl w).changeLink index fun _ hstopped => hstopped,
      .idle hagent rfl (errand_changeLink fun _ _ => ⟨rfl, rfl⟩)⟩
  · cases h

lemma aside_stepWriter {w w' : World} {index : Nat} {l : Link} (hl : w.links[index]? = some l)
    (h : w.stepWriter index l = some w') : w.Aside w' ∧ w.Handles (.act (.writer index)) w' := by
  have hown {phase : WriterPhase} (hphase : l.writer = phase) :
      w.errand (.writer index) = phase.errand := by simp [errand, hl, hphase]
  have hwriter {phase phase' : WriterPhase} {v : World} (hphase : l.writer = phase)
      (hv : w.Aside v) (herrand : v.errand = w.errand)
      (hh : Handling w.requests phase.errand v.requests phase'.errand) :
      w.Aside (v.setWriter index phase') ∧
        w.Handles (.act (.writer index)) (v.setWriter index phase') := by
    have hindex : index < v.links.length :=
      hv.links.length ▸ (List.getElem?_eq_some_iff.mp hl).1
    refine ⟨hv.changeLink index fun _ hstopped => hstopped, ?_⟩
    exact .act _ phase'.errand (hown hphase ▸ hh) (by rw [errand_setWriter hindex, herrand])
  cases hphase : l.writer with
  | idle =>
    simp only [stepWriter, hphase] at h
    split at h
    · cases h
      exact hwriter hphase (.refl w) rfl .idle
    · exact aside_takeCommand hl (hown hphase) h
  | writing id text =>
    simp only [stepWriter, hphase] at h
    split at h
    · cases h
      exact ⟨(Aside.refl w).changeLink index fun _ hstopped => hstopped,
        .idle (hown hphase) rfl (errand_changeLink_of hl ⟨by rw [hphase]; rfl, rfl⟩)⟩
    · cases h
      exact hwriter hphase ((Aside.refl w).observe _) rfl .idle
  | failing id reason =>
    simp only [stepWriter, hphase] at h
    split at h
    · rename_i hpending
      cases h
      exact hwriter hphase (.setRequests w _) rfl (.take id (by simpa using hpending))
    · cases h
      exact hwriter hphase (.refl w) rfl .idle
  | rejecting id reason =>
    simp only [stepWriter, hphase, Option.some.injEq] at h
    subst h
    exact hwriter hphase (.setRequests w _) rfl (.answer id _)
  | terminating =>
    simp only [stepWriter, hphase, Option.some.injEq] at h
    subst h
    refine hwriter hphase (.terminate (ne_nil_of_getElem? hl) (by simp)) (by simp) ?_
    rw [shift_requests]
    exact .start
  | sweeping =>
    simp only [stepWriter, hphase, Option.some.injEq] at h
    subst h
    exact hwriter hphase (.setRequests w _) rfl .drain
  | clearing ids =>
    cases ids with
    | nil =>
      simp only [stepWriter, hphase, Option.some.injEq] at h
      subst h
      exact hwriter hphase (.refl w) rfl .finish
    | cons id ids =>
      simp only [stepWriter, hphase, Option.some.injEq] at h
      subst h
      exact hwriter hphase (.setRequests w _) rfl (.send id ids _)
  | stopping =>
    simp only [stepWriter, hphase, Option.some.injEq] at h
    subst h
    exact hwriter hphase ((Aside.refl w).stopLink index) stopLink_errand .idle
  | closing =>
    simp only [stepWriter, hphase, Option.some.injEq] at h
    subst h
    exact ⟨(Aside.refl w).changeLink index fun _ hstopped => hstopped,
      .idle (hown hphase) rfl (errand_changeLink_of hl ⟨by rw [hphase]; rfl, rfl⟩)⟩
  | ended => simp [stepWriter, hphase] at h

lemma aside_stepReader {w w' : World} {index : Nat} {l : Link} (hl : w.links[index]? = some l)
    (h : w.stepReader index l = some w') : w.Aside w' ∧ w.Handles (.act (.reader index)) w' := by
  have hown {phase : ReaderPhase} (hphase : l.reader = phase) :
      w.errand (.reader index) = phase.errand := by simp [errand, hl, hphase]
  have hreader {phase phase' : ReaderPhase} {v : World} (hphase : l.reader = phase)
      (hv : w.Aside v) (herrand : v.errand = w.errand)
      (hh : Handling w.requests phase.errand v.requests phase'.errand) :
      w.Aside (v.setReader index phase') ∧
        w.Handles (.act (.reader index)) (v.setReader index phase') := by
    have hindex : index < v.links.length :=
      hv.links.length ▸ (List.getElem?_eq_some_iff.mp hl).1
    refine ⟨hv.changeLink index fun _ hstopped => hstopped, ?_⟩
    exact .act _ phase'.errand (hown hphase ▸ hh) (by rw [errand_setReader hindex, herrand])
  cases hphase : l.reader with
  | idle =>
    simp only [stepReader, hphase] at h
    split at h
    · cases h
      exact hreader hphase (.refl w) rfl .idle
    · exact aside_takeArrival hl (hown hphase) h
  | routing text =>
    simp only [stepReader, hphase] at h
    split at h
    · split at h
      · rename_i id hid
        cases h
        exact hreader hphase (.setRequests w _) rfl
          (.take id (Requests.addressee?_eq_some.mp hid).1)
      · cases h
        exact hreader hphase (.refl w) rfl .idle
    · split at h
      · cases h
        exact hreader hphase (.refl w) rfl .idle
      · cases h
        exact ⟨(Aside.refl w).changeLink index fun _ hstopped => hstopped,
          .idle (hown hphase) rfl (errand_changeLink_of hl ⟨rfl, by rw [hphase]; rfl⟩)⟩
    · cases h
      exact hreader hphase ((Aside.refl w).observe _) rfl .idle
  | answering id frame =>
    simp only [stepReader, hphase, Option.some.injEq] at h
    subst h
    exact hreader hphase (.setRequests w _) rfl (.answer id _)
  | reporting frame =>
    simp only [stepReader, hphase, Option.some.injEq] at h
    subst h
    exact hreader hphase ((Aside.refl w).observe _) rfl .idle
  | losing reason =>
    simp only [stepReader, hphase, Option.some.injEq] at h
    subst h
    split
    · exact hreader hphase (.refl w) rfl .idle
    · exact hreader hphase (.refl w) rfl .idle
  | alerting reason =>
    simp only [stepReader, hphase, Option.some.injEq] at h
    subst h
    exact hreader hphase ((Aside.refl w).observe _) rfl .idle
  | terminating =>
    simp only [stepReader, hphase, Option.some.injEq] at h
    subst h
    refine hreader hphase (.terminate (ne_nil_of_getElem? hl) (by simp)) (by simp) ?_
    rw [shift_requests]
    exact .start
  | sweeping =>
    simp only [stepReader, hphase, Option.some.injEq] at h
    subst h
    exact hreader hphase (.setRequests w _) rfl .drain
  | clearing ids =>
    cases ids with
    | nil =>
      simp only [stepReader, hphase, Option.some.injEq] at h
      subst h
      exact hreader hphase (.refl w) rfl .finish
    | cons id ids =>
      simp only [stepReader, hphase, Option.some.injEq] at h
      subst h
      exact hreader hphase (.setRequests w _) rfl (.send id ids _)
  | stopping =>
    simp only [stepReader, hphase, Option.some.injEq] at h
    subst h
    exact hreader hphase ((Aside.refl w).stopLink index) stopLink_errand .idle
  | ended => simp [stepReader, hphase] at h

lemma aside_stepDeliverer {w w' : World} {index : Nat} {l : Link}
    (h : w.stepDeliverer index l = some w') :
    w.Aside w' ∧ w.Handles (.act (.deliverer index)) w' := by
  have hchange {change : Link → Link}
      (hstops : ∀ l, l.shutdown = true → (change l).shutdown = true)
      (herrand : ∀ l, (change l).writer.errand = l.writer.errand ∧
        (change l).reader.errand = l.reader.errand) :
      w.Aside (w.changeLink index change) ∧
        w.Handles (.act (.deliverer index)) (w.changeLink index change) :=
    ⟨(Aside.refl w).changeLink index hstops,
      .idle rfl rfl (errand_changeLink fun l _ => herrand l)⟩
  cases hphase : l.deliverer with
  | idle =>
    simp only [stepDeliverer, hphase] at h
    split at h
    · cases h
      exact hchange (fun _ hstopped => hstopped) fun _ => ⟨rfl, rfl⟩
    · exact aside_takeEvent rfl h
  | waiting =>
    simp only [stepDeliverer, hphase] at h
    split at h
    · cases h
      exact hchange (fun _ hstopped => hstopped) fun _ => ⟨rfl, rfl⟩
    · split at h
      · cases h
        exact hchange (fun _ hstopped => hstopped) fun _ => ⟨rfl, rfl⟩
      · cases h
  | ended => simp [stepDeliverer, hphase] at h

lemma aside_stepPool {w w' : World} {index : Nat} {l : Link}
    (h : w.stepPool index l = some w') : w.Aside w' ∧ w.Handles (.act (.pool index)) w' := by
  unfold stepPool at h
  split at h
  · cases h
  · cases h
    refine ⟨Aside.changeLink ?_ index fun _ hstopped => hstopped,
      .idle rfl rfl (errand_changeLink fun _ _ => ⟨rfl, rfl⟩)⟩
    refine { Aside.refl w with callers := ⟨_, rfl, fun c hc => ?_⟩ }
    obtain ⟨s, _, rfl⟩ := List.mem_map.mp hc
    rfl

lemma aside_stepRelease {w w' : World} (h : w.stepRelease = some w') :
    w.Aside w' ∧ w.Handles (.act .releaser) w' := by
  have hreleaser {phase : Release} {v : World} (hphase : w.release = phase)
      (herrand : v.errand = Function.update w.errand .releaser v.release.errand)
      (hh : Handling w.requests phase.errand v.requests v.release.errand) :
      w.Handles (.act .releaser) v := by
    have hown : w.errand .releaser = phase.errand := by simp [errand, hphase]
    exact .act _ _ (hown ▸ hh) herrand
  cases hphase : w.release with
  | held =>
    simp only [stepRelease, hphase] at h
    split at h
    · cases h
    · split at h
      · cases h
        have hfreed : w.Aside { w with link := none, release := .sweeping } :=
          { Aside.refl w with link := .inr rfl }
        refine ⟨hfreed.stopLink _, hreleaser hphase ?_ .start⟩
        rw [stopLink_errand]
        exact w.errand_setRelease _
      · cases h
        exact ⟨{ Aside.refl w with }, hreleaser hphase (w.errand_setRelease _) .start⟩
  | sweeping =>
    simp only [stepRelease, hphase, Option.some.injEq] at h
    subst h
    exact ⟨{ Aside.refl w with }, hreleaser hphase (w.errand_setRelease _) .drain⟩
  | clearing ids =>
    cases ids with
    | nil =>
      simp only [stepRelease, hphase, Option.some.injEq] at h
      subst h
      exact ⟨{ Aside.refl w with }, hreleaser hphase (w.errand_setRelease _) .finish⟩
    | cons id ids =>
      simp only [stepRelease, hphase, Option.some.injEq] at h
      subst h
      exact ⟨{ Aside.refl w with }, hreleaser hphase (w.errand_setRelease _) (.send id ids _)⟩
  | released => simp [stepRelease, hphase] at h

lemma deed_of_step {w w' : World} {agent : Agent} (h : w.step agent = some w') :
    w.Deed (.act agent) w' := by
  have haside (hw : w.Aside w' ∧ w.Handles (.act agent) w') : w.Deed (.act agent) w' :=
    .aside hw.1 (by simp) hw.2
  unfold step at h
  split at h
  · rename_i n hnotice
    cases h
    have hreport : ∃ n ∈ w.notices, n.1 = agent :=
      ⟨_, List.mem_of_find?_eq_some hnotice, by simpa using List.find?_some hnotice⟩
    refine haside ⟨{ Aside.refl w with notices := fun n hn => .inl ?_ },
      .report agent hreport rfl rfl⟩
    exact (List.mem_filter.mp hn).1
  · split at h
    all_goals first
      | exact haside (aside_stepRelease h)
      | obtain ⟨found, hfound, hstep⟩ := Option.bind_eq_some_iff.mp h
    · obtain ⟨v, phase, rfl, hcaller⟩ := stepCaller_cases hstep
      exact .caller hfound hcaller
    · obtain ⟨v, phase, rfl, hdisposer⟩ := stepDisposer_cases hstep
      exact .disposer hfound hdisposer
    · exact haside (aside_stepWriter hfound hstep)
    · exact haside (aside_stepReader hfound hstep)
    · exact haside (aside_stepDeliverer hstep)
    · exact haside (aside_stepPool hstep)
    · exact haside (aside_takeCommand hfound rfl hstep)
    · exact haside (aside_takeArrival hfound rfl hstep)
    · exact haside (aside_takeEvent rfl hstep)

lemma dropCaller_eq {w : World} {index : Nat} {c : Caller} (hc : w.callers[index]? = some c)
    (h : w.canGiveUp index = true) :
    w.dropCaller index = { w.leaveLock (.caller index) with
      requests := w.requests.forgo c.phase.awaited }.setCaller index .dropped := by
  simp only [canGiveUp, hc, Option.any_some, Bool.and_eq_true, Bool.not_eq_true'] at h
  have hkept : { w.leaveLock (.caller index) with requests := w.requests } =
      w.leaveLock (.caller index) := by
    rw [← leaveLock_requests w (.caller index)]
  simp only [dropCaller, hc, h.1, h.2, Bool.not_true, Bool.or_self, Bool.false_eq_true, if_false]
  cases c.phase with
  | enqueueing | waiting => simp [CallerPhase.awaited, Requests.forgo]
  | _ => simp only [CallerPhase.awaited, Requests.forgo, hkept]

lemma deed_of_giveUp (w : World) (index : Nat) : w.Deed (.giveUp index) (w.dropCaller index) := by
  cases hcan : w.canGiveUp index with
  | true =>
    obtain ⟨c, hc, _⟩ := (Option.any_eq_true _ _).mp ((Bool.and_eq_true _ _).mp hcan).1
    rw [dropCaller_eq hc hcan]
    exact .giveUp hc hcan
  | false =>
    have hstays : w.dropCaller index = w := by
      unfold dropCaller
      cases hc : w.callers[index]? with
      | none => rfl
      | some c =>
        have hkept : (!c.phase.isSuspended || w.notices.any (·.1 = .caller index)) = true := by
          simpa [canGiveUp, hc, imp_iff_not_or] using hcan
        simp only [hkept, if_true]
    rw [hstays]
    exact .spare hcan

/-- Every move is a deed. -/
theorem deed_of_move {w w' : World} {m : Move} (h : w.move m = some w') : w.Deed m w' := by
  cases m with
  | act agent => exact deed_of_step h
  | call call method params =>
    simp only [move] at h
    split at h
    · cases h
      exact .aside ((Aside.refl w).joins rfl (by simp)) (by simp) (.still (by simp) rfl rfl)
    · cases h
  | giveUp index =>
    cases h
    exact deed_of_giveUp w index
  | dispose =>
    simp only [move] at h
    split at h
    · cases h
      exact .dispose
    · cases h
  | subscribe | unsubscribe =>
    simp only [move] at h
    split at h
    · cases h
      exact .aside { Aside.refl w with } (by simp) (.still (by simp) rfl rfl)
    · cases h
  | relist ids =>
    simp only [move] at h
    split at h
    · rename_i hperm
      cases h
      exact .aside (.setRequests w _) (by simp) (.relist ids (List.isPerm_iff.mp hperm) rfl rfl)
    · cases h
  | arrive | stopReading =>
    cases h
    exact .aside ((Aside.refl w).changeLink _ fun _ hstopped => hstopped) (by simp)
      (.still (by simp) rfl (errand_changeLink fun _ _ => ⟨rfl, rfl⟩))
  | dropHandle | tell =>
    cases h
    exact .aside { Aside.refl w with } (by simp) (.still (by simp) rfl rfl)

end World

end InspectorProtocol.Session
