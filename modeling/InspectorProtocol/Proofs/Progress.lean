import InspectorProtocol.Proofs.Lifecycle
import Mathlib.Logic.Relation

/-!
# What comes to pass by itself

Agents act and time passes without anything from outside. An agent always gets to the step of its
phase, after its reports. The agents of a link that was told to stop get nearer to their ends with
each step, counting the requests that one of them may have to answer before, so the link ends.
-/

namespace InspectorProtocol.Session

namespace WriterPhase

/-- How far a writer that was told to stop is from its end. -/
def distance : WriterPhase → Nat
  | .ended => 0
  | .closing => 1
  | .idle | .stopping => 2
  | .clearing ids => 3 + ids.length
  | .sweeping => 4
  | .terminating => 5
  | .rejecting .. => 6
  | .failing .. => 7
  | .writing .. => 8

end WriterPhase

namespace ReaderPhase

/-- How far a reader that was told to stop is from its end. -/
def distance : ReaderPhase → Nat
  | .ended => 0
  | .idle | .stopping => 1
  | .clearing ids => 2 + ids.length
  | .answering .. | .reporting _ => 2
  | .routing _ | .sweeping => 3
  | .terminating => 4
  | .alerting _ => 5
  | .losing _ => 6

end ReaderPhase

/-- How far the agents of a link that was told to stop are from their ends. -/
def Link.distance (l : Link) : Nat :=
  l.writer.distance + l.reader.distance + if l.deliverer = .ended then 0 else 1

lemma Requests.length_pending_take (r : Requests) (id : Int) :
    (r.take id).pending.length ≤ r.pending.length := List.length_filter_le ..

namespace World

/-- What happens without anything from outside: an agent acts, or time passes. -/
inductive Proceeds (w : World) : World → Prop where
  | act (agent : Agent) {w' : World} (h : w.step agent = some w') : Proceeds w w'
  | wait (time : Nat) (h : w.now ≤ time) : Proceeds w { w with now := time }

/-- What comes to pass without anything from outside. -/
abbrev ComesTo : World → World → Prop := Relation.ReflTransGen Proceeds

lemma ComesTo.is_run {w w' : World} (h : w.ComesTo w') : ∃ moves, w' = w.run moves := by
  induction h with
  | refl => exact ⟨[], rfl⟩
  | tail _ hlast ih =>
    obtain ⟨moves, rfl⟩ := ih
    cases hlast with
    | act agent hstep =>
      refine ⟨moves ++ [.act agent], ?_⟩
      rw [run_append]
      exact (run_singleton (m := .act agent) hstep).symm
    | wait time =>
      refine ⟨moves ++ [.tell time], ?_⟩
      rw [run_append]
      rfl

lemma ComesTo.steady {w w' : World} (h : w.ComesTo w') (hw : w.Steady) : w'.Steady := by
  obtain ⟨moves, rfl⟩ := h.is_run
  exact steady_run hw moves

lemma ComesTo.isOver {w w' : World} (h : w.ComesTo w') (hw : w.state.isOver = true) :
    w'.state.isOver = true := by
  obtain ⟨moves, rfl⟩ := h.is_run
  exact isOver_run hw moves

/-! ### Reports -/

/-- The world once an agent has made its reports. -/
def reported (w : World) (agent : Agent) : World :=
  { w with
    observations := w.observations ++ ((w.notices.find? (·.1 = agent)).map (·.2)).toList
    notices := w.notices.filter (·.1 != agent) }

variable {w w' : World}

lemma step_of_notice {agent : Agent} {notice : Agent × Observation}
    (h : w.notices.find? (·.1 = agent) = some notice) :
    w.step agent = some (w.reported agent) := by
  simp [step, h, reported, observe]

lemma comesTo_reported (w : World) (agent : Agent) : w.ComesTo (w.reported agent) := by
  cases hnotice : w.notices.find? (·.1 = agent) with
  | some notice => exact .single (.act agent (step_of_notice hnotice))
  | none =>
    have hkept : w.notices.filter (·.1 != agent) = w.notices := by
      rw [List.filter_eq_self]
      intro n hn
      simpa using List.find?_eq_none.mp hnotice n hn
    have hsame : w.reported agent = w := by simp [reported, hnotice, hkept]
    rw [hsame]

lemma find?_notices_reported (w : World) (agent : Agent) :
    (w.reported agent).notices.find? (·.1 = agent) = none := by
  rw [List.find?_eq_none]
  intro n hn
  simpa using (List.mem_filter.mp hn).2

lemma comesTo_step (agent : Agent) (h : (w.reported agent).step agent = some w') :
    w.ComesTo w' :=
  (comesTo_reported w agent).tail (.act agent h)

lemma comesTo_caller {index : Nat} {c : Caller} (hc : w.callers[index]? = some c)
    (h : (w.reported (.caller index)).stepCaller index c = some w') : w.ComesTo w' := by
  refine comesTo_step (.caller index) ?_
  have hcaller : (w.reported (.caller index)).callers[index]? = some c := hc
  simp only [step, find?_notices_reported, hcaller, Option.bind_some, h]

lemma comesTo_disposer {index : Nat} {phase : DisposerPhase}
    (hd : w.disposers[index]? = some phase)
    (h : (w.reported (.disposer index)).stepDisposer index phase = some w') : w.ComesTo w' := by
  refine comesTo_step (.disposer index) ?_
  have hdisposer : (w.reported (.disposer index)).disposers[index]? = some phase := hd
  simp only [step, find?_notices_reported, hdisposer, Option.bind_some, h]

/-! ### The end of a link -/

/-- Everybody stays in place, but new callers may come. -/
structure KeepsLine (w w' : World) : Prop where
  callers : ∀ (index : Nat) (c : Caller), w.callers[index]? = some c →
    w'.callers[index]? = some c
  holder : w'.holder = w.holder
  lockQueue : w'.lockQueue = w.lockQueue

namespace KeepsLine

lemma refl (w : World) : w.KeepsLine w := ⟨fun _ _ hc => hc, rfl, rfl⟩

lemma trans {v : World} (h : w.KeepsLine v) (h' : v.KeepsLine w') : w.KeepsLine w' :=
  ⟨fun index c hc => h'.callers index c (h.callers index c hc), h'.holder.trans h.holder,
    h'.lockQueue.trans h.lockQueue⟩

lemma reported (w : World) (agent : Agent) : w.KeepsLine (w.reported agent) :=
  ⟨fun _ _ hc => hc, rfl, rfl⟩

end KeepsLine

lemma Aside.keepsLine (h : w.Aside w') : w.KeepsLine w' := by
  obtain ⟨joined, hcallers, _⟩ := h.callers
  refine ⟨fun index c hc => ?_, h.holder, h.lockQueue⟩
  rw [hcallers, List.getElem?_append_left (List.getElem?_eq_some_iff.mp hc).1, hc]

section Links

variable {index : Nat} {l : Link}

@[simp] lemma shift_links (w : World) (agent : Agent) (sources : List State) (target : State) :
    (w.shift agent sources target).2.links = w.links := by
  unfold shift
  split
  · rfl
  · split <;> rfl

/-- How far a link is from its end, with the requests that are still to be answered. -/
def distance (w : World) (l : Link) : Nat := l.distance + w.requests.pending.length

/-- A link that was told to stop is closer to its end than some distance. -/
def Closer (w : World) (index bound : Nat) : Prop :=
  ∃ l, w.links[index]? = some l ∧ l.shutdown = true ∧ w.distance l < bound

variable {v : World}

lemma closer_changeLink (hl : v.links[index]? = some l) {change : Link → Link} {bound : Nat}
    (hstop : (change l).shutdown = true) (hcloser : v.distance (change l) < bound) :
    (v.changeLink index change).Closer index bound :=
  ⟨change l, by simp [changeLink, hl], hstop, hcloser⟩

lemma closer_setWriter (hl : v.links[index]? = some l) (hstop : l.shutdown = true)
    {phase : WriterPhase} (hcloser : phase.distance + v.requests.pending.length <
      l.writer.distance + w.requests.pending.length) :
    (v.setWriter index phase).Closer index (w.distance l) :=
  closer_changeLink hl hstop (by simp only [distance, Link.distance]; omega)

lemma closer_setReader (hl : v.links[index]? = some l) (hstop : l.shutdown = true)
    {phase : ReaderPhase} (hcloser : phase.distance + v.requests.pending.length <
      l.reader.distance + w.requests.pending.length) :
    (v.setReader index phase).Closer index (w.distance l) :=
  closer_changeLink hl hstop (by simp only [distance, Link.distance]; omega)

lemma stopLink_of_shutdown (hl : w.links[index]? = some l) (hstop : l.shutdown = true) :
    (w.stopLink index).links[index]? = some l := by
  simp only [stopLink, changeLink, List.getElem?_modify_eq, hl, Option.map_eq_map, Option.map_some,
    ← hstop]

lemma closer_of_stepWriter (hl : w.links[index]? = some l) (hstop : l.shutdown = true)
    (h : l.writer ≠ .ended) :
    ∃ w', w.stepWriter index l = some w' ∧ w'.Closer index (w.distance l) := by
  have hgoes {v : World} {phase phase' : WriterPhase} (hphase : l.writer = phase)
      (hlinks : v.links[index]? = some l) (hcloser : phase'.distance + v.requests.pending.length <
        phase.distance + w.requests.pending.length) :
      (v.setWriter index phase').Closer index (w.distance l) :=
    closer_setWriter hlinks hstop (hphase ▸ hcloser)
  cases hphase : l.writer with
  | idle =>
    simp only [stepWriter, hphase, hstop, if_true]
    exact ⟨_, rfl, hgoes hphase hl (by simp [WriterPhase.distance])⟩
  | writing id text =>
    cases hreads : l.transport.peerReads with
    | true =>
      simp only [stepWriter, hphase, hreads, if_true]
      exact ⟨_, rfl, closer_changeLink hl hstop
        (by simp [distance, Link.distance, hphase, WriterPhase.distance])⟩
    | false =>
      simp only [stepWriter, hphase, hreads, Bool.false_eq_true, if_false]
      exact ⟨_, rfl, hgoes hphase hl (by simp [WriterPhase.distance])⟩
  | failing id reason =>
    simp only [stepWriter, hphase]
    split
    · have hfewer := w.requests.length_pending_take id
      exact ⟨_, rfl, hgoes hphase hl (by simp only [WriterPhase.distance]; omega)⟩
    · exact ⟨_, rfl, hgoes hphase hl (by simp [WriterPhase.distance])⟩
  | rejecting id reason =>
    simp only [stepWriter, hphase]
    exact ⟨_, rfl, hgoes hphase hl (by simp [WriterPhase.distance, answer, Requests.send])⟩
  | terminating =>
    simp only [stepWriter, hphase]
    exact ⟨_, rfl, hgoes hphase (by simpa using hl) (by simp [WriterPhase.distance])⟩
  | sweeping =>
    simp only [stepWriter, hphase]
    refine ⟨_, rfl, hgoes hphase hl ?_⟩
    simp only [WriterPhase.distance, drain, Requests.drain, List.length_nil]
    omega
  | clearing ids =>
    cases ids with
    | nil =>
      simp only [stepWriter, hphase]
      exact ⟨_, rfl, hgoes hphase hl (by simp [WriterPhase.distance])⟩
    | cons id ids =>
      simp only [stepWriter, hphase]
      exact ⟨_, rfl, hgoes hphase hl (by simp [WriterPhase.distance, answer, Requests.send])⟩
  | stopping =>
    simp only [stepWriter, hphase]
    exact ⟨_, rfl, hgoes hphase (stopLink_of_shutdown hl hstop)
      (by simp [WriterPhase.distance, stopLink])⟩
  | closing =>
    simp only [stepWriter, hphase]
    exact ⟨_, rfl, closer_changeLink hl hstop
      (by simp [distance, Link.distance, hphase, WriterPhase.distance])⟩
  | ended => exact absurd hphase h

lemma closer_of_stepReader (hl : w.links[index]? = some l) (hstop : l.shutdown = true)
    (h : l.reader ≠ .ended) :
    ∃ w', w.stepReader index l = some w' ∧ w'.Closer index (w.distance l) := by
  have hgoes {v : World} {phase phase' : ReaderPhase} (hphase : l.reader = phase)
      (hlinks : v.links[index]? = some l) (hcloser : phase'.distance + v.requests.pending.length <
        phase.distance + w.requests.pending.length) :
      (v.setReader index phase').Closer index (w.distance l) :=
    closer_setReader hlinks hstop (hphase ▸ hcloser)
  cases hphase : l.reader with
  | idle =>
    simp only [stepReader, hphase, hstop, if_true]
    exact ⟨_, rfl, hgoes hphase hl (by simp [ReaderPhase.distance])⟩
  | routing text =>
    cases hmessage : Wire.classify text with
    | response frame =>
      cases haddressee : w.requests.addressee? frame with
      | some id =>
        have hfewer := w.requests.length_pending_take id
        simp only [stepReader, hphase, hmessage, haddressee]
        exact ⟨_, rfl, hgoes hphase hl (by simp only [ReaderPhase.distance]; omega)⟩
      | none =>
        simp only [stepReader, hphase, hmessage, haddressee]
        exact ⟨_, rfl, hgoes hphase hl (by simp [ReaderPhase.distance])⟩
    | event event =>
      by_cases hended : l.deliverer = .ended
      · simp only [stepReader, hphase, hmessage, beq_iff_eq, hended, if_true]
        exact ⟨_, rfl, hgoes hphase hl (by simp [ReaderPhase.distance])⟩
      · simp only [stepReader, hphase, hmessage, beq_iff_eq, hended, if_false]
        exact ⟨_, rfl, closer_changeLink hl hstop
          (by simp [distance, Link.distance, hphase, ReaderPhase.distance])⟩
    | unrecognized text =>
      simp only [stepReader, hphase, hmessage]
      exact ⟨_, rfl, hgoes hphase hl (by simp [ReaderPhase.distance])⟩
  | answering id frame =>
    simp only [stepReader, hphase]
    exact ⟨_, rfl, hgoes hphase hl (by simp [ReaderPhase.distance, answer, Requests.send])⟩
  | reporting frame =>
    simp only [stepReader, hphase]
    exact ⟨_, rfl, hgoes hphase hl (by simp [ReaderPhase.distance])⟩
  | losing reason =>
    simp only [stepReader, hphase, hstop, if_true]
    exact ⟨_, rfl, hgoes hphase hl (by simp [ReaderPhase.distance])⟩
  | alerting reason =>
    simp only [stepReader, hphase]
    exact ⟨_, rfl, hgoes hphase hl (by simp [ReaderPhase.distance])⟩
  | terminating =>
    simp only [stepReader, hphase]
    exact ⟨_, rfl, hgoes hphase (by simpa using hl) (by simp [ReaderPhase.distance])⟩
  | sweeping =>
    simp only [stepReader, hphase]
    refine ⟨_, rfl, hgoes hphase hl ?_⟩
    simp only [ReaderPhase.distance, drain, Requests.drain, List.length_nil]
    omega
  | clearing ids =>
    cases ids with
    | nil =>
      simp only [stepReader, hphase]
      exact ⟨_, rfl, hgoes hphase hl (by simp [ReaderPhase.distance])⟩
    | cons id ids =>
      simp only [stepReader, hphase]
      exact ⟨_, rfl, hgoes hphase hl (by simp [ReaderPhase.distance, answer, Requests.send])⟩
  | stopping =>
    simp only [stepReader, hphase]
    exact ⟨_, rfl, hgoes hphase (stopLink_of_shutdown hl hstop)
      (by simp [ReaderPhase.distance, stopLink])⟩
  | ended => exact absurd hphase h

lemma closer_of_stepDeliverer (hl : w.links[index]? = some l) (hstop : l.shutdown = true)
    (h : l.deliverer ≠ .ended) :
    ∃ w', w.stepDeliverer index l = some w' ∧ w'.Closer index (w.distance l) := by
  refine ⟨w.changeLink index fun l => { l with deliverer := .ended }, ?_, ?_⟩
  · cases hphase : l.deliverer with
    | ended => exact absurd hphase h
    | _ => simp only [stepDeliverer, hphase, hstop, Bool.true_or, if_true]
  · exact closer_changeLink hl hstop (by simp [distance, Link.distance, h])

/-- While a stopped link has not ended, one of its agents brings it closer to its end. -/
lemma comesTo_closer (hl : w.links[index]? = some l) (hstop : l.shutdown = true)
    (h : l.hasEnded = false) :
    ∃ w', w.ComesTo w' ∧ w.KeepsLine w' ∧ w'.Closer index (w.distance l) := by
  have hreported (agent : Agent) : (w.reported agent).links[index]? = some l := hl
  have hkeeps {agent : Agent} {w' : World} (haside : (w.reported agent).Aside w') :
      w.KeepsLine w' := (KeepsLine.reported w agent).trans haside.keepsLine
  by_cases hwriter : l.writer = .ended
  · by_cases hreader : l.reader = .ended
    · have hdeliverer : l.deliverer ≠ .ended := by
        rintro hended
        simp [Link.hasEnded, Link.writerEnded, Link.readerEnded, hwriter, hreader, hended] at h
      obtain ⟨w', hstep, hcloser⟩ :=
        closer_of_stepDeliverer (hreported (.deliverer index)) hstop hdeliverer
      have haside := (aside_stepDeliverer hstep).1
      refine ⟨w', comesTo_step (.deliverer index) ?_, hkeeps haside, hcloser⟩
      simp only [step, find?_notices_reported, hreported, Option.bind_some, hstep]
    · obtain ⟨w', hstep, hcloser⟩ := closer_of_stepReader (hreported (.reader index)) hstop hreader
      refine ⟨w', comesTo_step (.reader index) ?_,
        hkeeps (aside_stepReader (hreported _) hstep).1, hcloser⟩
      simp only [step, find?_notices_reported, hreported, Option.bind_some, hstep]
  · obtain ⟨w', hstep, hcloser⟩ := closer_of_stepWriter (hreported (.writer index)) hstop hwriter
    refine ⟨w', comesTo_step (.writer index) ?_,
      hkeeps (aside_stepWriter (hreported _) hstep).1, hcloser⟩
    simp only [step, find?_notices_reported, hreported, Option.bind_some, hstep]

/-- A link that was told to stop ends, whatever its agents are doing. -/
theorem stopped_link_ends (h : isStopped w.links index = true) :
    ∃ w', w.ComesTo w' ∧ w.KeepsLine w' ∧ w'.links[index]?.any Link.hasEnded = true := by
  obtain ⟨l, hl, hstop⟩ := (Option.any_eq_true _ _).mp h
  clear h
  induction hd : w.distance l using Nat.strongRecOn generalizing w l with
  | ind n ih =>
    cases hended : l.hasEnded with
    | true => exact ⟨w, .refl, .refl w, by simp [hl, hended]⟩
    | false =>
      obtain ⟨v, hcomes, hkeeps, l', hl', hstop', hcloser⟩ := comesTo_closer hl hstop hended
      obtain ⟨w', hcomes', hkeeps', hend⟩ := ih (v.distance l') (hd ▸ hcloser) l' hl' hstop' rfl
      exact ⟨w', hcomes.trans hcomes', hkeeps.trans hkeeps', hend⟩

end Links

end World

end InspectorProtocol.Session
