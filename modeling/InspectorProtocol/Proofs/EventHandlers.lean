import InspectorProtocol.Session.Handler
import Mathlib.Data.List.Induction
import Mathlib.Data.List.Nodup
import Mathlib.Tactic.Lemma

/-!
# Event handlers over a history

A hub keeps what happened beside the subscriptions: who subscribed, which subscriptions were ended,
and which handlers ran. What handlers do is arbitrary, changes of the subscriptions included. The
subscriptions there are can be read off the history, and an event runs the handlers of those that
were there when its delivery began. A board of scripted handlers is such a hub.
-/

namespace InspectorProtocol.Session

/-- What may be done to subscriptions besides delivering events. -/
inductive Change (α : Type) where
  | subscribe (method : String) (raw : Bool) (handler : α)
  | unsubscribe (id : Nat)

/-- A handler that runs, with what it is given. -/
abbrev Call (α : Type) := Subscription α × Argument

inductive Happening (α : Type) where
  | subscribed (s : Subscription α)
  | unsubscribed (id : Nat) (found : Bool)
  /-- a handler ran to its end, or broke off with a message -/
  | ran (call : Call α) (message : Option String)

namespace Happening

variable {α : Type}

def subscribed? : Happening α → Option (Subscription α)
  | .subscribed s => some s
  | _ => none

def ran? : Happening α → Option (Call α × Option String)
  | .ran call message => some (call, message)
  | _ => none

/-- Whether the subscription with this id was ended. -/
def hasEnded (id : Nat) : Happening α → Bool
  | .unsubscribed other true => other == id
  | _ => false

end Happening

/-- Whether a subscription was made and not ended since. -/
def IsLive {α : Type} (history : List (Happening α)) (s : Subscription α) : Prop :=
  ∃ before after, history = before ++ .subscribed s :: after ∧
    ∀ found, .unsubscribed s.id found ∉ after

/-- Subscriptions, what happened to them, and what handlers remember besides. -/
structure Hub (α σ : Type) where
  subscriptions : Subscriptions α := {}
  /-- oldest first -/
  history : List (Happening α) := []
  memory : σ

/-- What a handler does when it runs: the changes that it makes, the message it breaks off with, if
it does, and what is remembered then. It may look at everything there is, so this covers changes
that depend on the outcomes of earlier ones. -/
abbrev Conduct (α σ : Type) :=
  Call α → Subscriptions α → σ → List (Change α) × Option String × σ

/-- What may be done to a hub. -/
inductive Operation (α : Type) where
  | change (c : Change α)
  | deliver (methods : MethodMap) (bindings : Bindings) (event : Wire.Event)

namespace Hub

variable {α σ : Type}

def note (h : Hub α σ) (x : Happening α) : Hub α σ := { h with history := h.history ++ [x] }

def change (h : Hub α σ) : Change α → Hub α σ
  | .subscribe method raw handler =>
    let (id, subscriptions) := h.subscriptions.subscribe method raw handler
    { h with subscriptions }.note (.subscribed ⟨id, method, raw, handler⟩)
  | .unsubscribe id =>
    let (found, subscriptions) := h.subscriptions.unsubscribe id
    { h with subscriptions }.note (.unsubscribed id found)

def run (conduct : Conduct α σ) (s : Subscription α) (argument : Argument) (h : Hub α σ) :
    Option String × Hub α σ :=
  let (changes, message, memory) := conduct (s, argument) h.subscriptions h.memory
  (message, ({ changes.foldl change h with memory }).note (.ran (s, argument) message))

def deliver (conduct : Conduct α σ) (methods : MethodMap) (bindings : Bindings)
    (event : Wire.Event) (h : Hub α σ) : Delivery (Hub α σ) :=
  Delivery.deliver methods bindings (run conduct) (h.subscriptions.subscribers event.method) event h

def perform (conduct : Conduct α σ) (h : Hub α σ) : Operation α → Hub α σ
  | .change c => h.change c
  | .deliver methods bindings event => (h.deliver conduct methods bindings event).state

/-- The hub after a list of operations, from one without subscriptions. -/
def after (conduct : Conduct α σ) (memory : σ) (operations : List (Operation α)) : Hub α σ :=
  operations.foldl (perform conduct) { memory }

end Hub

namespace Delivery

variable {α : Type}

/-- The calls that an event makes for: the subscriptions that get something from it, in order. -/
def calls (payload : Option Value) (event : Wire.Event) (snapshot : List (Subscription α)) :
    List (Call α) :=
  snapshot.filterMap fun s => (argument? payload event s).map (s, ·)

/-- What is reported of a handler that ran, if it broke off. -/
def failureReport (event : Wire.Event) (ran : Call α × Option String) : Option Observation :=
  ran.2.map (.handlerFailure event.method)

lemma calls_cons (payload : Option Value) (event : Wire.Event) (s : Subscription α)
    (rest : List (Subscription α)) :
    calls payload event (s :: rest) =
      ((argument? payload event s).map (s, ·)).toList ++ calls payload event rest := by
  unfold calls
  cases h : argument? payload event s <;> simp [h]

lemma mem_calls {payload : Option Value} {event : Wire.Event} {snapshot : List (Subscription α)}
    {s : Subscription α} {argument : Argument} :
    (s, argument) ∈ calls payload event snapshot ↔ s ∈ snapshot ∧
      (s.raw = true ∧ argument = .params event.params ∨
        s.raw = false ∧ ∃ value, payload = some value ∧ argument = .payload value) := by
  have hargument : argument? payload event s = some argument ↔
      (s.raw = true ∧ argument = .params event.params ∨
        s.raw = false ∧ ∃ value, payload = some value ∧ argument = .payload value) := by
    unfold argument?
    cases s.raw with
    | true => simp [eq_comm]
    | false => simp [eq_comm]
  rw [← hargument, calls, List.mem_filterMap]
  constructor
  · rintro ⟨t, ht, hmap⟩
    obtain ⟨a, ha, heq⟩ := Option.map_eq_some_iff.mp hmap
    cases heq
    exact ⟨ht, ha⟩
  · rintro ⟨hs, ha⟩
    exact ⟨s, hs, by rw [ha]; rfl⟩

lemma map_calls_sublist (payload : Option Value) (event : Wire.Event)
    (snapshot : List (Subscription α)) :
    ((calls payload event snapshot).map (·.1)).Sublist snapshot := by
  induction snapshot with
  | nil => exact .slnil
  | cons s rest ih =>
    rw [calls_cons]
    cases argument? payload event s with
    | none => exact ih.cons s
    | some argument => exact ih.cons_cons s

lemma payload?_eq_some {methods : MethodMap} {bindings : Bindings} {event : Wire.Event}
    {value : Value} : (payload? methods bindings event).1 = some value ↔
      ∃ entry, methods.lookup event.method = some entry ∧ entry.kind = .event ∧
        bindings.decodeRecord entry.type event.params = .ok value := by
  unfold payload? MethodMap.decodeEvent?
  cases hentry : methods.lookup event.method with
  | none => simp
  | some entry =>
    obtain ⟨kind, domain, type⟩ := entry
    cases kind with
    | command => simp
    | event => cases hread : bindings.decodeRecord type event.params <;> simp [hread]

end Delivery

/-! ### What is live -/

section Live

variable {α : Type} {history : List (Happening α)} {s : Subscription α}

lemma isLive_append_singleton {x : Happening α} :
    IsLive (history ++ [x]) s ↔
      x = .subscribed s ∨ (IsLive history s ∧ ∀ found, x ≠ .unsubscribed s.id found) := by
  constructor
  · rintro ⟨before, after, heq, hafter⟩
    induction after using List.reverseRecOn with
    | nil => exact .inl (List.cons.inj (List.append_inj' heq rfl).2).1
    | append_singleton later y _ =>
      have hcut : history ++ [x] = (before ++ .subscribed s :: later) ++ [y] := by simp [heq]
      obtain ⟨hhistory, hlast⟩ := List.append_inj' hcut rfl
      cases hlast
      refine .inr ⟨⟨before, later, hhistory, fun found hmem => ?_⟩, fun found hx => ?_⟩
      · exact hafter found (List.mem_append_left _ hmem)
      · exact hafter found (List.mem_append_right _ (hx ▸ List.mem_singleton_self _))
  · rintro (rfl | ⟨⟨before, after, rfl, hafter⟩, hx⟩)
    · exact ⟨history, [], rfl, by simp⟩
    · refine ⟨before, after ++ [x], by simp, fun found hmem => ?_⟩
      rcases List.mem_append.mp hmem with hmem | hmem
      · exact hafter found hmem
      · exact hx found (List.mem_singleton.mp hmem).symm

end Live

namespace Hub

variable {α σ : Type}

/-- The subscriptions ever made, oldest first. -/
def made (h : Hub α σ) : List (Subscription α) := h.history.filterMap Happening.subscribed?

/-- The calls that were made after an earlier moment, each with how it ended. -/
def ranSince (h : Hub α σ) (earlier : Hub α σ) : List (Call α × Option String) :=
  (h.history.drop earlier.history.length).filterMap Happening.ran?

/-- The subscriptions there are agree with the history, in which ids go up and no subscription is
ended twice. -/
structure Faithful (h : Hub α σ) : Prop where
  ascending : h.made.Pairwise (·.id < ·.id)
  below : ∀ s ∈ h.made, s.id < h.subscriptions.nextId
  inOrder : h.subscriptions.entries.Sublist h.made
  live : ∀ s, s ∈ h.subscriptions.entries ↔ IsLive h.history s
  once : ∀ id, h.history.countP (·.hasEnded id) ≤ 1
  gone : ∀ id, h.history.any (·.hasEnded id) = true →
    id < h.subscriptions.nextId ∧ ∀ s ∈ h.subscriptions.entries, s.id ≠ id

lemma faithful_start (memory : σ) : ({ memory } : Hub α σ).Faithful := by
  have hnone (s : Subscription α) : ¬ IsLive [] s := by
    rintro ⟨before, after, heq, _⟩
    simp at heq
  refine ⟨.nil, by simp [made], .slnil, ?_, by simp, by simp⟩
  simpa using hnone

namespace Faithful

variable {h : Hub α σ}

lemma ids_nodup (hf : h.Faithful) : (h.subscriptions.entries.map (·.id)).Nodup := by
  refine List.pairwise_map.mpr ?_
  exact (hf.ascending.sublist hf.inOrder).imp fun hlt => Nat.ne_of_lt hlt

lemma note_ran (hf : h.Faithful) (call : Call α) (message : Option String) (memory : σ) :
    ({ h with memory }.note (.ran call message)).Faithful := by
  have hmade : ({ h with memory }.note (.ran call message)).made = h.made := by
    simp [made, note, Happening.subscribed?]
  refine ⟨?_, ?_, ?_, fun s => ?_, fun id => ?_, fun id hended => ?_⟩
  · rw [hmade]
    exact hf.ascending
  · rw [hmade]
    exact hf.below
  · rw [hmade]
    exact hf.inOrder
  · simpa [note, isLive_append_singleton] using hf.live s
  · simpa [note, Happening.hasEnded] using hf.once id
  · exact hf.gone id (by simpa [note, Happening.hasEnded] using hended)

lemma subscribe (hf : h.Faithful) (method : String) (raw : Bool) (handler : α) :
    (h.change (.subscribe method raw handler)).Faithful := by
  set s : Subscription α := ⟨h.subscriptions.nextId, method, raw, handler⟩ with hs
  have hafter : h.change (.subscribe method raw handler) =
      { h with
        subscriptions := ⟨h.subscriptions.nextId + 1, h.subscriptions.entries ++ [s]⟩
        history := h.history ++ [.subscribed s] } := rfl
  have hmade : (h.change (.subscribe method raw handler)).made = h.made ++ [s] := by
    simp [hafter, made, Happening.subscribed?]
  refine ⟨?_, ?_, ?_, fun t => ?_, fun id => ?_, fun id hended => ?_⟩
  · rw [hmade, List.pairwise_append]
    exact ⟨hf.ascending, List.pairwise_singleton _ _, by simpa [hs] using hf.below⟩
  · rw [hmade]
    intro t ht
    rcases List.mem_append.mp ht with ht | ht
    · exact Nat.lt_succ_of_lt (hf.below t ht)
    · rw [List.mem_singleton.mp ht]
      exact Nat.lt_succ_self _
  · rw [hmade]
    exact hf.inOrder.append (.refl _)
  · simp only [hafter, List.mem_append, List.mem_singleton, isLive_append_singleton, hf.live,
      Happening.subscribed.injEq, ne_eq, reduceCtorEq, not_false_eq_true, implies_true, and_true]
    exact ⟨fun ht => ht.symm.imp_left Eq.symm, fun ht => ht.symm.imp_right Eq.symm⟩
  · simpa [hafter, Happening.hasEnded] using hf.once id
  · obtain ⟨hlt, hnone⟩ := hf.gone id (by simpa [hafter, Happening.hasEnded] using hended)
    refine ⟨Nat.lt_succ_of_lt hlt, fun t ht => ?_⟩
    rcases List.mem_append.mp ht with ht | ht
    · exact hnone t ht
    · rw [List.mem_singleton.mp ht]
      exact Nat.ne_of_gt hlt

lemma unsubscribe (hf : h.Faithful) (id : Nat) : (h.change (.unsubscribe id)).Faithful := by
  set found := h.subscriptions.entries.any (·.id == id) with hfound
  have hafter : h.change (.unsubscribe id) =
      { h with
        subscriptions :=
          { h.subscriptions with entries := h.subscriptions.entries.filter (·.id != id) }
        history := h.history ++ [.unsubscribed id found] } := rfl
  have hmade : (h.change (.unsubscribe id)).made = h.made := by
    simp [hafter, made, Happening.subscribed?]
  have hended (other : Nat) :
      (Happening.unsubscribed id found : Happening α).hasEnded other = (found && id == other) := by
    cases found <;> rfl
  refine ⟨?_, ?_, ?_, fun t => ?_, fun other => ?_, fun other hother => ?_⟩
  · rw [hmade]
    exact hf.ascending
  · rw [hmade]
    exact hf.below
  · rw [hmade]
    exact List.filter_sublist.trans hf.inOrder
  · rw [hafter, List.mem_filter, isLive_append_singleton, hf.live, bne_iff_ne]
    constructor
    · rintro ⟨ht, hne⟩
      exact .inr ⟨ht, fun _ heq => hne (Happening.unsubscribed.inj heq).1.symm⟩
    · rintro (heq | ⟨ht, hne⟩)
      · cases heq
      · exact ⟨ht, fun heq => hne found (by rw [heq])⟩
  · rw [hafter, List.countP_append, List.countP_singleton, hended]
    by_cases hnow : found = true ∧ id = other
    · -- the id is found only while nobody has ended its subscription
      obtain ⟨s, hs, hid⟩ : ∃ s ∈ h.subscriptions.entries, s.id = id := by
        simpa [hfound] using hnow.1
      have hnever : h.history.countP (·.hasEnded other) = 0 := by
        rw [List.countP_eq_zero]
        intro x hx hx'
        exact (hf.gone other (List.any_eq_true.mpr ⟨x, hx, hx'⟩)).2 s hs (hid.trans hnow.2)
      simp [hnever, hnow.1, hnow.2]
    · have hbool : (found && id == other) = false := by simpa using hnow
      simpa [hbool] using hf.once other
  · simp only [hafter, List.any_append, List.any_cons, List.any_nil, hended, Bool.or_false,
      Bool.or_eq_true] at hother
    rcases hother with hbefore | hnow
    · obtain ⟨hlt, hnone⟩ := hf.gone other hbefore
      exact ⟨hlt, fun t ht => hnone t (List.mem_filter.mp ht).1⟩
    · obtain ⟨hany, rfl⟩ : found = true ∧ id = other := by simpa using hnow
      obtain ⟨s, hs, hid⟩ : ∃ s ∈ h.subscriptions.entries, s.id = id := by
        simpa [hfound] using hany
      refine ⟨hid ▸ hf.below s (hf.inOrder.subset hs), fun t ht => ?_⟩
      simpa using (List.mem_filter.mp ht).2

lemma change (hf : h.Faithful) (c : Change α) : (h.change c).Faithful := by
  cases c with
  | subscribe method raw handler => exact hf.subscribe method raw handler
  | unsubscribe id => exact hf.unsubscribe id

lemma changes (hf : h.Faithful) (cs : List (Change α)) : (cs.foldl Hub.change h).Faithful := by
  induction cs generalizing h with
  | nil => exact hf
  | cons c rest ih => exact ih (hf.change c)

lemma run (hf : h.Faithful) (conduct : Conduct α σ) (s : Subscription α) (argument : Argument) :
    (h.run conduct s argument).2.Faithful :=
  (hf.changes _).note_ran _ _ _

end Faithful

/-! ### What a delivery does -/

/-- What happens from one moment of a delivery to another: handlers run, and nothing else counts. -/
structure Proceeds (event : Wire.Event) (d d' : Delivery (Hub α σ))
    (ran : List (Call α × Option String)) : Prop where
  history : ∃ block, d'.state.history = d.state.history ++ block ∧
    block.filterMap Happening.ran? = ran
  delivered : d'.delivered = d.delivered + ran.countP (·.2.isNone)
  observations : d'.observations = d.observations ++ ran.filterMap (Delivery.failureReport event)
  faithful : d.state.Faithful → d'.state.Faithful

namespace Proceeds

variable {event : Wire.Event} {d d' d'' : Delivery (Hub α σ)}
  {ran ran' : List (Call α × Option String)}

lemma refl (event : Wire.Event) (d : Delivery (Hub α σ)) : Proceeds event d d [] :=
  ⟨⟨[], by simp⟩, rfl, by simp, id⟩

lemma trans (h : Proceeds event d d' ran) (h' : Proceeds event d' d'' ran') :
    Proceeds event d d'' (ran ++ ran') := by
  obtain ⟨block, hhistory, hblock⟩ := h.history
  obtain ⟨block', hhistory', hblock'⟩ := h'.history
  refine ⟨⟨block ++ block', ?_, ?_⟩, ?_, ?_, fun hf => h'.faithful (h.faithful hf)⟩
  · rw [hhistory', hhistory, List.append_assoc]
  · rw [List.filterMap_append, hblock, hblock']
  · rw [h'.delivered, h.delivered, List.countP_append, Nat.add_assoc]
  · rw [h'.observations, h.observations, List.filterMap_append, List.append_assoc]

end Proceeds

lemma history_changes (h : Hub α σ) (cs : List (Change α)) :
    ∃ block, (cs.foldl change h).history = h.history ++ block ∧
      block.filterMap Happening.ran? = [] := by
  induction cs generalizing h with
  | nil => exact ⟨[], by simp⟩
  | cons c rest ih =>
    obtain ⟨block, hhistory, hblock⟩ := ih (h.change c)
    obtain ⟨x, hx, hran⟩ : ∃ x, (h.change c).history = h.history ++ [x] ∧ x.ran? = none := by
      cases c with
      | subscribe => exact ⟨_, rfl, rfl⟩
      | unsubscribe => exact ⟨_, rfl, rfl⟩
    refine ⟨x :: block, ?_, ?_⟩
    · rw [List.foldl_cons, hhistory, hx, List.append_assoc, List.singleton_append]
    · rw [List.filterMap_cons_none hran, hblock]

lemma history_run (conduct : Conduct α σ) (s : Subscription α) (argument : Argument)
    (h : Hub α σ) :
    ∃ block, (h.run conduct s argument).2.history = h.history ++ block ∧
      block.filterMap Happening.ran? = [((s, argument), (h.run conduct s argument).1)] := by
  obtain ⟨block, hhistory, hblock⟩ :=
    h.history_changes (conduct (s, argument) h.subscriptions h.memory).1
  refine ⟨block ++ [.ran (s, argument) (h.run conduct s argument).1], ?_, ?_⟩
  · rw [← List.append_assoc, ← hhistory]
    rfl
  · rw [List.filterMap_append, hblock]
    rfl

lemma proceeds_runHandler (conduct : Conduct α σ) (payload : Option Value) (event : Wire.Event)
    (d : Delivery (Hub α σ)) (s : Subscription α) :
    ∃ ran, Proceeds event d (Delivery.runHandler (run conduct) payload event d s) ran ∧
      ran.map (·.1) = ((Delivery.argument? payload event s).map (s, ·)).toList := by
  unfold Delivery.runHandler
  cases hargument : Delivery.argument? payload event s with
  | none => exact ⟨[], .refl event d, rfl⟩
  | some argument =>
    obtain ⟨block, hhistory, hblock⟩ := history_run conduct s argument d.state
    have hfaithful (hf : d.state.Faithful) := hf.run conduct s argument
    rcases hrun : d.state.run conduct s argument with ⟨message, state⟩
    rw [hrun] at hhistory hblock hfaithful
    refine ⟨[((s, argument), message)], ?_, rfl⟩
    simp only [hrun]
    cases message with
    | none => exact ⟨⟨block, hhistory, hblock⟩, rfl, by simp [Delivery.failureReport], hfaithful⟩
    | some message => exact ⟨⟨block, hhistory, hblock⟩, rfl, rfl, hfaithful⟩

lemma proceeds_foldl (conduct : Conduct α σ) (payload : Option Value) (event : Wire.Event)
    (snapshot : List (Subscription α)) (d : Delivery (Hub α σ)) :
    ∃ ran, Proceeds event d
        (snapshot.foldl (Delivery.runHandler (run conduct) payload event) d) ran ∧
      ran.map (·.1) = Delivery.calls payload event snapshot := by
  induction snapshot generalizing d with
  | nil => exact ⟨[], .refl event d, rfl⟩
  | cons s rest ih =>
    obtain ⟨first, hfirst, hcall⟩ := proceeds_runHandler conduct payload event d s
    obtain ⟨others, hothers, hcalls⟩ :=
      ih (Delivery.runHandler (run conduct) payload event d s)
    refine ⟨first ++ others, hfirst.trans hothers, ?_⟩
    rw [List.map_append, hcall, hcalls, Delivery.calls_cons]

/-- A delivery makes the calls that the event makes for when it begins, whatever handlers do. -/
lemma proceeds_deliver (conduct : Conduct α σ) (methods : MethodMap) (bindings : Bindings)
    (event : Wire.Event) (h : Hub α σ) :
    Proceeds event { state := h, observations := (Delivery.payload? methods bindings event).2 }
        (h.deliver conduct methods bindings event)
        ((h.deliver conduct methods bindings event).state.ranSince h) ∧
      ((h.deliver conduct methods bindings event).state.ranSince h).map (·.1) =
        Delivery.calls (Delivery.payload? methods bindings event).1 event
          (h.subscriptions.subscribers event.method) := by
  obtain ⟨ran, hproceeds, hcalls⟩ :=
    proceeds_foldl conduct (Delivery.payload? methods bindings event).1 event
      (h.subscriptions.subscribers event.method)
      { state := h, observations := (Delivery.payload? methods bindings event).2 }
  have hran : (h.deliver conduct methods bindings event).state.ranSince h = ran := by
    obtain ⟨block, hhistory, hblock⟩ := hproceeds.history
    have hafter : (h.deliver conduct methods bindings event).state.history = h.history ++ block :=
      hhistory
    rw [ranSince, hafter, List.drop_left, hblock]
  rw [hran]
  exact ⟨hproceeds, hcalls⟩

lemma faithful_after (conduct : Conduct α σ) (memory : σ) (operations : List (Operation α)) :
    (after conduct memory operations).Faithful := by
  induction operations using List.reverseRecOn with
  | nil => exact faithful_start memory
  | append_singleton operations operation ih =>
    rw [after, List.foldl_append]
    cases operation with
    | change c => exact ih.change c
    | deliver methods bindings event =>
      exact (proceeds_deliver conduct methods bindings event _).1.faithful ih

/-- What the delivery of an event to a hub amounts to. -/
structure IsDelivery (h : Hub α σ) (methods : MethodMap) (bindings : Bindings)
    (event : Wire.Event) (d : Delivery (Hub α σ)) : Prop where
  /-- handlers run in order of subscription -/
  inOrder : ((d.state.ranSince h).map (·.1.1)).Sublist h.made
  atMostOnce : ((d.state.ranSince h).map (·.1.1.id)).Nodup
  /-- those run that are subscribed when the delivery begins, raw ones in any case -/
  reached : ∀ s argument, (s, argument) ∈ (d.state.ranSince h).map (·.1) ↔
    IsLive h.history s ∧ s.method = event.method ∧
      (s.raw = true ∧ argument = .params event.params ∨
        s.raw = false ∧ ∃ entry value, methods.lookup event.method = some entry ∧
          entry.kind = .event ∧ bindings.decodeRecord entry.type event.params = .ok value ∧
          argument = .payload value)
  delivered : d.delivered = (d.state.ranSince h).countP (·.2.isNone)
  /-- after what reading the parameters gives to report, one report for each that broke off -/
  observations : d.observations = (Delivery.payload? methods bindings event).2 ++
    (d.state.ranSince h).filterMap (Delivery.failureReport event)

/-- After any operations, and whatever handlers do, an event runs the handlers that are live then.
Another conduct of the handlers changes neither which of them run nor what they are given. Ending a
subscription takes away the one with its id, and that happens once. -/
theorem event_handlers_run_as_subscribed (conduct : Conduct α σ) (memory : σ)
    (operations : List (Operation α)) :
    let h := after conduct memory operations
    (∀ methods bindings event, h.IsDelivery methods bindings event
      (h.deliver conduct methods bindings event)) ∧
    (∀ methods bindings event (other : Conduct α σ),
      ((h.deliver other methods bindings event).state.ranSince h).map (·.1) =
        ((h.deliver conduct methods bindings event).state.ranSince h).map (·.1)) ∧
    (∀ id, let (found, later) := h.subscriptions.unsubscribe id
      (found = true ↔ ∃ s, IsLive h.history s ∧ s.id = id) ∧
      (found = false → later = h.subscriptions) ∧
      ∀ s, IsLive h.history s → s.id = id → ∃ before after,
        h.subscriptions.entries = before ++ s :: after ∧ later.entries = before ++ after) ∧
    (∀ s, s ∈ h.subscriptions.entries ↔ IsLive h.history s) ∧
    ∀ id, h.history.countP (·.hasEnded id) ≤ 1 := by
  intro h
  have hf : h.Faithful := faithful_after conduct memory operations
  refine ⟨fun methods bindings event => ?_, fun methods bindings event other => ?_, fun id => ?_,
    hf.live, hf.once⟩
  · obtain ⟨hproceeds, hcalls⟩ := proceeds_deliver conduct methods bindings event h
    have hran : ((h.deliver conduct methods bindings event).state.ranSince h).map (·.1.1) =
        (((h.deliver conduct methods bindings event).state.ranSince h).map (·.1)).map (·.1) := by
      rw [List.map_map]
      rfl
    have hsublist := Delivery.map_calls_sublist (Delivery.payload? methods bindings event).1 event
      (h.subscriptions.subscribers event.method)
    have hentries := hsublist.trans List.filter_sublist
    refine ⟨?_, ?_, fun s argument => ?_, ?_, hproceeds.observations⟩
    · rw [hran, hcalls]
      exact hentries.trans hf.inOrder
    · have hids := (hentries.map (·.id)).nodup hf.ids_nodup
      rw [← hcalls, ← hran, List.map_map] at hids
      exact hids
    · rw [hcalls, Delivery.mem_calls]
      simp only [Subscriptions.subscribers, List.mem_filter, beq_iff_eq, hf.live,
        Delivery.payload?_eq_some, and_assoc]
      refine and_congr_right fun _ => and_congr_right fun _ => or_congr_right ?_
      refine and_congr_right fun _ => ?_
      constructor
      · rintro ⟨value, ⟨entry, hentry, hkind, hvalue⟩, hargument⟩
        exact ⟨entry, value, hentry, hkind, hvalue, hargument⟩
      · rintro ⟨entry, value, hentry, hkind, hvalue, hargument⟩
        exact ⟨value, ⟨entry, hentry, hkind, hvalue⟩, hargument⟩
    · simpa using hproceeds.delivered
  · rw [(proceeds_deliver other methods bindings event h).2,
      (proceeds_deliver conduct methods bindings event h).2]
  · have hfound : h.subscriptions.entries.any (·.id == id) = true ↔
        ∃ s, IsLive h.history s ∧ s.id = id := by
      simp [hf.live]
    refine ⟨hfound, fun hnone => ?_, fun s hs hid => ?_⟩
    · have hkept : h.subscriptions.entries.filter (·.id != id) = h.subscriptions.entries := by
        rw [List.filter_eq_self]
        simpa [bne_iff_ne] using hnone
      rw [hkept]
    · obtain ⟨before, later, hsplit⟩ := List.append_of_mem ((hf.live s).mpr hs)
      refine ⟨before, later, hsplit, ?_⟩
      have hids := hf.ids_nodup
      rw [hsplit, List.map_append, List.map_cons, List.nodup_middle, List.nodup_cons,
        ← List.map_append] at hids
      have hothers : ∀ t ∈ before ++ later, (t.id != id) = true := by
        intro t ht
        refine bne_iff_ne.mpr fun heq => hids.1 ?_
        rw [hid, ← heq]
        exact List.mem_map_of_mem ht
      rw [hsplit, List.filter_append, List.filter_cons_of_neg (by simp [hid]),
        ← List.filter_append, List.filter_eq_self.mpr hothers]

end Hub

/-! ### Boards are hubs -/

namespace Board

/-- What scripted handlers do; they remember the rest of their board. -/
def conduct : Conduct Handler Board := fun (s, argument) subscriptions b =>
  let changes : List (Change Handler) :=
    match s.handler.reaction with
    | .subscribe name method raw reaction => [.subscribe method raw ⟨name, reaction⟩]
    | .unsubscribe name => (b.names.lookup name).toList.map .unsubscribe
    | _ => []
  let (message, b) := run s argument { b with subscriptions }
  (changes, message, b)

def ofHub (h : Hub Handler Board) : Board := { h.memory with subscriptions := h.subscriptions }

lemma run_ofHub (s : Subscription Handler) (argument : Argument) (h : Hub Handler Board) :
    run s argument (ofHub h) =
      ((h.run conduct s argument).1, ofHub (h.run conduct s argument).2) := by
  obtain ⟨id, method, raw, name, reaction⟩ := s
  cases reaction with
  | unsubscribe target =>
    cases hname : h.memory.names.lookup target <;>
      simp [run, ofHub, Hub.run, conduct, unsubscribe, hname, Hub.change, Hub.note]
  | _ => rfl

/-- The delivery of an event to a board is its delivery to any hub that the board stands for. -/
theorem deliver_ofHub (h : Hub Handler Board) (methods : MethodMap) (bindings : Bindings)
    (event : Wire.Event) :
    (ofHub h).deliver methods bindings event =
      let d := h.deliver conduct methods bindings event
      { state := ofHub d.state, delivered := d.delivered, observations := d.observations } := by
  have hfoldl (payload : Option Value) (snapshot : List (Subscription Handler))
      (d : Delivery (Hub Handler Board)) :
      snapshot.foldl (Delivery.runHandler run payload event)
          ⟨ofHub d.state, d.delivered, d.observations⟩ =
        let d := snapshot.foldl (Delivery.runHandler (Hub.run conduct) payload event) d
        ⟨ofHub d.state, d.delivered, d.observations⟩ := by
    induction snapshot generalizing d with
    | nil => rfl
    | cons s rest ih =>
      rw [List.foldl_cons, List.foldl_cons, ← ih]
      congr 1
      unfold Delivery.runHandler
      cases Delivery.argument? payload event s with
      | none => rfl
      | some argument =>
        simp only [run_ofHub]
        obtain ⟨message, state⟩ := d.state.run conduct s argument
        cases message <;> rfl
  exact hfoldl _ _ ⟨h, 0, (Delivery.payload? methods bindings event).2⟩

end Board

end InspectorProtocol.Session
