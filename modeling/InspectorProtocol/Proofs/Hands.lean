import InspectorProtocol.Proofs.Correlation
import InspectorProtocol.Proofs.SessionRuns
import Mathlib.Logic.Function.Basic

/-!
# Requests in hand

Whoever takes a request out of the table has it in hand until it sends the outcome. An agent either
answers one request or sweeps the table: it takes all requests out, sends their outcomes one after
another, and is done. Nobody else touches what an agent has in hand.
-/

namespace InspectorProtocol.Session

namespace CallerPhase

/-- The id that a caller in a phase has drawn. -/
def claim : CallerPhase → Option Int
  | .enlisting _ id | .enqueueing _ id | .waiting id => some id
  | _ => none

/-- The request that a caller in a phase has registered and waits for. -/
def awaited : CallerPhase → Option Int
  | .enqueueing _ id | .waiting id => some id
  | _ => none

lemma claim_of_awaited {phase : CallerPhase} {id : Int} (h : phase.awaited = some id) :
    phase.claim = some id := by
  cases phase <;> simp_all [awaited, claim]

end CallerPhase

/-! ### Errands -/

/-- What an agent is about to do with requests. -/
inductive Errand where
  | none
  /-- has taken one request out of the table -/
  | answer (id : Int)
  /-- is about to take all requests out of the table -/
  | sweep
  /-- has taken all requests out of the table, and these are left -/
  | clear (ids : List Int)

namespace Errand

def inHand : Errand → List Int
  | .answer id => [id]
  | .clear ids => ids
  | .none | .sweep => []

def isSweep : Errand → Bool
  | .sweep | .clear _ => true
  | .none | .answer _ => false

end Errand

def DisposerPhase.errand : DisposerPhase → Errand
  | .sweeping _ => .sweep
  | .clearing _ ids => .clear ids
  | _ => .none

def WriterPhase.errand : WriterPhase → Errand
  | .rejecting id _ => .answer id
  | .sweeping => .sweep
  | .clearing ids => .clear ids
  | _ => .none

def ReaderPhase.errand : ReaderPhase → Errand
  | .answering id _ => .answer id
  | .sweeping => .sweep
  | .clearing ids => .clear ids
  | _ => .none

def Release.errand : Release → Errand
  | .sweeping => .sweep
  | .clearing ids => .clear ids
  | _ => .none

lemma Requests.isSome_outcome?_send {r : Requests} {id other : Int} {outcome : Outcome} :
    ((r.send other outcome).outcome? id).isSome ↔ (r.outcome? id).isSome ∨ id = other := by
  rw [outcome?, outcome?, send, List.lookup_append, Option.isSome_or, Bool.or_eq_true,
    List.lookup_isSome_iff (l := [_])]
  simp only [List.mem_singleton, exists_eq_left, beq_iff_eq]

/-- What the step of an agent can do to the table and about its errand. -/
inductive Handling (r : Requests) : Errand → Requests → Errand → Prop where
  | idle : Handling r .none r .none
  | take (id : Int) (h : id ∈ r.pending) : Handling r .none (r.take id) (.answer id)
  | answer (id : Int) (outcome : Outcome) : Handling r (.answer id) (r.send id outcome) .none
  | start : Handling r .none r .sweep
  | drain : Handling r .sweep r.drain.2 (.clear r.pending)
  | send (id : Int) (ids : List Int) (outcome : Outcome) :
    Handling r (.clear (id :: ids)) (r.send id outcome) (.clear ids)
  | finish : Handling r (.clear []) r .none

namespace Handling

variable {r r' : Requests} {errand errand' : Errand}

lemma nextId (h : Handling r errand r' errand') : r'.nextId = r.nextId := by
  cases h <;> rfl

lemma pending_nil (h : Handling r errand r' errand') (hr : r.pending = []) : r'.pending = [] := by
  cases h with
  | take id hid => simp [hr] at hid
  | drain => rfl
  | idle | answer | start | send | finish => exact hr

/-- Whoever finds the table closed leaves it closed, and whoever has closed it took everything. -/
lemma closed (h : Handling r errand r' errand') :
    (r.closed = true → r'.closed = true) ∧
      (r'.closed = true → r.closed = true ∨ r'.pending = []) ∧
      ∀ ids, errand' = .clear ids → r'.closed = true ∨ ∃ ids, errand = .clear ids := by
  cases h with
  | drain => exact ⟨fun _ => rfl, fun _ => .inr rfl, fun _ _ => .inl rfl⟩
  | send => exact ⟨fun hc => hc, .inl, fun _ _ => .inr ⟨_, rfl⟩⟩
  | idle | take | answer | start | finish =>
    exact ⟨fun hc => hc, .inl, fun _ hclear => by cases hclear⟩

/-- A request goes from the table into a hand, and from there it gets its outcome. -/
lemma attends (h : Handling r errand r' errand') {id : Int}
    (hid : id ∈ r.pending ∨ id ∈ errand.inHand ∨ (r.outcome? id).isSome) :
    id ∈ r'.pending ∨ id ∈ errand'.inHand ∨ (r'.outcome? id).isSome := by
  cases h with
  | idle | start | finish => exact hid
  | take other hother =>
    by_cases hs : id = other
    · exact .inr (.inl (by simp [Errand.inHand, hs]))
    · exact hid.imp (fun hpending => by simp [Requests.take, hpending, hs])
        (.imp_left fun hhand => by cases hhand)
  | drain =>
    rcases hid with hpending | hhand | hready
    · exact .inr (.inl hpending)
    · cases hhand
    · exact .inr (.inr hready)
  | answer other outcome =>
    rw [Requests.isSome_outcome?_send]
    rcases hid with hpending | hhand | hready
    · exact .inl hpending
    · exact .inr (.inr (.inr (List.mem_singleton.mp hhand)))
    · exact .inr (.inr (.inl hready))
  | send other ids outcome =>
    rw [Requests.isSome_outcome?_send]
    rcases hid with hpending | hhand | hready
    · exact .inl hpending
    · rcases List.mem_cons.mp hhand with hs | hlater
      · exact .inr (.inr (.inr hs))
      · exact .inr (.inl hlater)
    · exact .inr (.inr (.inl hready))

end Handling

namespace World

/-- The id that a caller has drawn. -/
def claims (w : World) (index : Nat) : Option Int := w.callers[index]?.bind (·.phase.claim)

/-- The request that a caller has registered and waits for. -/
def awaits (w : World) (index : Nat) : Option Int := w.callers[index]?.bind (·.phase.awaited)

def errand (w : World) : Agent → Errand
  | .disposer index => w.disposers[index]?.elim .none DisposerPhase.errand
  | .writer link => w.links[link]?.elim .none (·.writer.errand)
  | .reader link => w.links[link]?.elim .none (·.reader.errand)
  | .releaser => w.release.errand
  | _ => .none

/-- The requests that an agent has taken out of the table and has yet to send the outcomes of. -/
def hands (w : World) (agent : Agent) : List Int := (w.errand agent).inHand

/-- Whether an agent fails all requests: a disposer, a writer whose frame could not be written, a
reader whose stream failed or ended, or whoever gave up the last handle. -/
def isSweeping (w : World) (agent : Agent) : Bool := (w.errand agent).isSweep

/-- What a move can do to the requests and about the errands. -/
inductive Handles (w : World) : Move → World → Prop where
  | still {m : Move} {w' : World} (hm : ∀ agent, m ≠ .act agent) (hr : w'.requests = w.requests)
    (he : w'.errand = w.errand) : Handles w m w'
  | report (agent : Agent) {w' : World} (h : ∃ n ∈ w.notices, n.1 = agent)
    (hr : w'.requests = w.requests) (he : w'.errand = w.errand) : Handles w (.act agent) w'
  | relist {w' : World} (ids : List Int) (h : ids.Perm w.requests.pending)
    (hr : w'.requests = { w.requests with pending := ids }) (he : w'.errand = w.errand) :
    Handles w (.relist ids) w'
  | act (agent : Agent) (next : Errand) {w' : World}
    (h : Handling w.requests (w.errand agent) w'.requests next)
    (he : w'.errand = Function.update w.errand agent next) : Handles w (.act agent) w'

/-! ### What the helpers leave alone -/

section Frame

variable (w : World)

@[simp] lemma setDisposer_requests (index : Nat) (phase : DisposerPhase) :
    (w.setDisposer index phase).requests = w.requests := rfl

@[simp] lemma setDisposer_callers (index : Nat) (phase : DisposerPhase) :
    (w.setDisposer index phase).callers = w.callers := rfl

@[simp] lemma setCaller_requests (index : Nat) (phase : CallerPhase) :
    (w.setCaller index phase).requests = w.requests := rfl

@[simp] lemma setCaller_errand (index : Nat) (phase : CallerPhase) :
    (w.setCaller index phase).errand = w.errand := rfl

@[simp] lemma failCaller_requests (index : Nat) (reason : Failure) :
    (w.failCaller index reason).requests = w.requests := rfl

@[simp] lemma changeLink_requests (index : Nat) (change : Link → Link) :
    (w.changeLink index change).requests = w.requests := rfl

@[simp] lemma changeLink_callers (index : Nat) (change : Link → Link) :
    (w.changeLink index change).callers = w.callers := rfl

@[simp] lemma observe_requests (o : Observation) : (w.observe o).requests = w.requests := rfl

@[simp] lemma observe_callers (o : Observation) : (w.observe o).callers = w.callers := rfl

@[simp] lemma shift_requests (agent : Agent) (sources : List State) (target : State) :
    (w.shift agent sources target).2.requests = w.requests := by
  unfold shift
  split
  · rfl
  · split <;> rfl

@[simp] lemma shift_callers (agent : Agent) (sources : List State) (target : State) :
    (w.shift agent sources target).2.callers = w.callers := by
  unfold shift
  split
  · rfl
  · split <;> rfl

@[simp] lemma shift_errand (agent : Agent) (sources : List State) (target : State) :
    (w.shift agent sources target).2.errand = w.errand := by
  unfold shift
  split
  · rfl
  · split <;> rfl

@[simp] lemma askLock_requests (agent : Agent) : (w.askLock agent).requests = w.requests := by
  unfold askLock
  split <;> rfl

@[simp] lemma askLock_callers (agent : Agent) : (w.askLock agent).callers = w.callers := by
  unfold askLock
  split <;> rfl

@[simp] lemma askLock_errand (agent : Agent) : (w.askLock agent).errand = w.errand := by
  unfold askLock
  split <;> rfl

@[simp] lemma passLock_requests : w.passLock.requests = w.requests := by
  unfold passLock
  split <;> rfl

@[simp] lemma passLock_callers : w.passLock.callers = w.callers := by
  unfold passLock
  split <;> rfl

@[simp] lemma passLock_errand : w.passLock.errand = w.errand := by
  unfold passLock
  split <;> rfl

@[simp] lemma leaveLock_requests (agent : Agent) : (w.leaveLock agent).requests = w.requests := by
  unfold leaveLock
  split
  · exact w.passLock_requests
  · rfl

@[simp] lemma leaveLock_callers (agent : Agent) : (w.leaveLock agent).callers = w.callers := by
  unfold leaveLock
  split
  · exact w.passLock_callers
  · rfl

@[simp] lemma leaveLock_errand (agent : Agent) : (w.leaveLock agent).errand = w.errand := by
  unfold leaveLock
  split
  · exact w.passLock_errand
  · rfl

@[simp] lemma beginAttempt_requests : w.beginAttempt.2.requests = w.requests := by
  unfold beginAttempt
  split <;> rfl

@[simp] lemma beginAttempt_callers : w.beginAttempt.2.callers = w.callers := by
  unfold beginAttempt
  split <;> rfl

@[simp] lemma beginAttempt_errand : w.beginAttempt.2.errand = w.errand := by
  unfold beginAttempt
  split <;> rfl

end Frame

/-! ### How errands change -/

section Errands

variable {w : World} {index : Nat}

lemma errand_changeLink {change : Link → Link}
    (h : ∀ l ∈ w.links[index]?, (change l).writer.errand = l.writer.errand ∧
      (change l).reader.errand = l.reader.errand) :
    (w.changeLink index change).errand = w.errand := by
  have hkept (link : Nat) : (w.changeLink index change).errand (.writer link) =
      w.errand (.writer link) ∧
      (w.changeLink index change).errand (.reader link) = w.errand (.reader link) := by
    simp only [errand, changeLink, List.getElem?_modify]
    cases hl : w.links[link]? with
    | none => exact ⟨rfl, rfl⟩
    | some l =>
      by_cases hs : index = link
      · subst hs
        simpa using h l hl
      · simp [hs]
  funext agent
  cases agent with
  | writer link => exact (hkept link).1
  | reader link => exact (hkept link).2
  | _ => rfl

lemma errand_changeLink_of {l : Link} {change : Link → Link} (hl : w.links[index]? = some l)
    (h : (change l).writer.errand = l.writer.errand ∧
      (change l).reader.errand = l.reader.errand) :
    (w.changeLink index change).errand = w.errand :=
  errand_changeLink fun _ hother => Option.some.inj (hl.symm.trans hother) ▸ h

@[simp] lemma stopLink_errand : (w.stopLink index).errand = w.errand :=
  errand_changeLink fun _ _ => ⟨rfl, rfl⟩

lemma errand_setWriter (h : index < w.links.length) (phase : WriterPhase) :
    (w.setWriter index phase).errand = Function.update w.errand (.writer index) phase.errand := by
  funext agent
  by_cases hs : agent = .writer index
  · subst hs
    simp [errand, setWriter, changeLink, h]
  · rw [Function.update_of_ne hs]
    cases agent with
    | writer link =>
      have hne : index ≠ link := fun heq => hs (heq ▸ rfl)
      simp [errand, setWriter, changeLink, hne]
    | reader link =>
      simp only [errand, setWriter, changeLink, List.getElem?_modify]
      cases w.links[link]? with
      | none => rfl
      | some l => by_cases hi : index = link <;> simp [hi]
    | _ => rfl

lemma errand_setReader (h : index < w.links.length) (phase : ReaderPhase) :
    (w.setReader index phase).errand = Function.update w.errand (.reader index) phase.errand := by
  funext agent
  by_cases hs : agent = .reader index
  · subst hs
    simp [errand, setReader, changeLink, h]
  · rw [Function.update_of_ne hs]
    cases agent with
    | reader link =>
      have hne : index ≠ link := fun heq => hs (heq ▸ rfl)
      simp [errand, setReader, changeLink, hne]
    | writer link =>
      simp only [errand, setReader, changeLink, List.getElem?_modify]
      cases w.links[link]? with
      | none => rfl
      | some l => by_cases hi : index = link <;> simp [hi]
    | _ => rfl

lemma errand_setDisposer (h : index < w.disposers.length) (phase : DisposerPhase) :
    (w.setDisposer index phase).errand =
      Function.update w.errand (.disposer index) phase.errand := by
  funext agent
  by_cases hs : agent = .disposer index
  · subst hs
    simp [errand, setDisposer, h]
  · rw [Function.update_of_ne hs]
    cases agent with
    | disposer other =>
      have hne : index ≠ other := fun heq => hs (heq ▸ rfl)
      simp [errand, setDisposer, hne]
    | _ => rfl

lemma errand_setRelease (w : World) (phase : Release) :
    { w with release := phase }.errand = Function.update w.errand .releaser phase.errand := by
  funext agent
  cases agent with
  | releaser => simp [errand]
  | _ => rfl

lemma elim_append_singleton {α : Type} (xs : List α) {x : α} (index : Nat) {f : α → Errand}
    (h : f x = .none) : (xs ++ [x])[index]?.elim .none f = xs[index]?.elim .none f := by
  rw [List.getElem?_append]
  split
  · rfl
  · rename_i hbeyond
    rw [List.getElem?_eq_none (Nat.le_of_not_lt hbeyond), List.getElem?_singleton]
    split
    · exact h
    · rfl

lemma errand_connect (w : World) :
    { w with links := w.links ++ [({} : Link)] }.errand = w.errand := by
  funext agent
  cases agent with
  | writer link => exact elim_append_singleton w.links link rfl
  | reader link => exact elim_append_singleton w.links link rfl
  | _ => rfl

lemma errand_dispose (w : World) :
    { w with disposers := w.disposers ++ [DisposerPhase.starting] }.errand = w.errand := by
  funext agent
  cases agent with
  | disposer index => exact elim_append_singleton w.disposers index rfl
  | _ => rfl

end Errands

lemma Handles.idle {w w' : World} {agent : Agent} (h : w.errand agent = .none)
    (hr : w'.requests = w.requests) (he : w'.errand = w.errand) : w.Handles (.act agent) w' := by
  refine .act agent .none ?_ ?_
  · rw [h, hr]
    exact .idle
  · rw [he, ← h, Function.update_eq_self]

namespace Handles

variable {w w' : World} {m : Move}

lemma nextId (h : w.Handles m w') : w'.requests.nextId = w.requests.nextId := by
  cases h with
  | still _ hr | report _ _ hr | relist _ _ hr => rw [hr]
  | act _ _ hhandling => exact hhandling.nextId

lemma pending_nil (h : w.Handles m w') (hw : w.requests.pending = []) :
    w'.requests.pending = [] := by
  cases h with
  | still _ hr | report _ _ hr => rw [hr, hw]
  | relist ids hperm hr =>
    rw [hw, List.perm_nil] at hperm
    rw [hr, hperm]
  | act _ _ hhandling => exact hhandling.pending_nil hw

lemma closed (h : w.Handles m w') (hw : w.requests.closed = true) :
    w'.requests.closed = true := by
  cases h with
  | still _ hr | report _ _ hr | relist _ _ hr => rwa [hr]
  | act _ _ hhandling => exact hhandling.closed.1 hw

end Handles

/-! ### Who waits -/

lemma claims_of_awaits {w : World} {index : Nat} {id : Int} (h : w.awaits index = some id) :
    w.claims index = some id := by
  obtain ⟨c, hc, hphase⟩ := Option.bind_eq_some_iff.mp h
  simp [claims, hc, CallerPhase.claim_of_awaited hphase]

lemma claims_congr {w w' : World} (h : w'.callers = w.callers) : w'.claims = w.claims := by
  funext index
  simp only [claims, h]

lemma awaits_congr {w w' : World} (h : w'.callers = w.callers) : w'.awaits = w.awaits := by
  funext index
  simp only [awaits, h]

lemma bind_append_arriving {α : Type} (callers : List Caller) {joined : List Caller}
    {f : Caller → Option α} (h : ∀ c ∈ joined, f c = none) (index : Nat) :
    (callers ++ joined)[index]?.bind f = callers[index]?.bind f := by
  rw [List.getElem?_append]
  split
  · rfl
  · rename_i hbeyond
    rw [List.getElem?_eq_none (Nat.le_of_not_lt hbeyond)]
    cases hget : joined[index - callers.length]? with
    | none => rfl
    | some c => exact h c (List.mem_of_getElem? hget)

lemma claims_join {w w' : World} {joined : List Caller} (hc : w'.callers = w.callers ++ joined)
    (hnew : ∀ c ∈ joined, c.phase = .arriving) : w'.claims = w.claims := by
  funext index
  rw [claims, hc]
  exact bind_append_arriving w.callers (fun c hc => by rw [hnew c hc]; rfl) index

lemma awaits_join {w w' : World} {joined : List Caller} (hc : w'.callers = w.callers ++ joined)
    (hnew : ∀ c ∈ joined, c.phase = .arriving) : w'.awaits = w.awaits := by
  funext index
  rw [awaits, hc]
  exact bind_append_arriving w.callers (fun c hc => by rw [hnew c hc]; rfl) index

lemma claims_setCaller {w : World} {index : Nat} {c : Caller} (h : w.callers[index]? = some c)
    (phase : CallerPhase) :
    (w.setCaller index phase).claims = Function.update w.claims index phase.claim := by
  funext other
  by_cases hs : other = index
  · subst hs
    simp [claims, setCaller, h]
  · simp [claims, setCaller, Ne.symm hs, hs]

lemma awaits_setCaller {w : World} {index : Nat} {c : Caller} (h : w.callers[index]? = some c)
    (phase : CallerPhase) :
    (w.setCaller index phase).awaits = Function.update w.awaits index phase.awaited := by
  funext other
  by_cases hs : other = index
  · subst hs
    simp [awaits, setCaller, h]
  · simp [awaits, setCaller, Ne.symm hs, hs]

end World

end InspectorProtocol.Session
