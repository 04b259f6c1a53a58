import InspectorProtocol.Proofs.Deeds

/-!
# Who has the lock

Whoever works on the link of a session has the lock, and nobody else does; those who wait for it
stand in line, each once. So there are never two callers that connect.
-/

namespace InspectorProtocol.Session

/-- Where somebody is as to the lock. -/
inductive Stage where
  | outside
  | waiting
  /-- works on the link -/
  | inside
  deriving DecidableEq

def CallerPhase.stage : CallerPhase → Stage
  | .queued => .waiting
  | .checking | .connecting _ | .retreating _ | .leaving _ | .opening _ | .installing _
  | .undoing _ => .inside
  | .arriving | .registering _ | .enlisting .. | .enqueueing .. | .waiting _ | .finished _
  | .dropped => .outside

def DisposerPhase.stage : DisposerPhase → Stage
  | .queued => .waiting
  | .taking => .inside
  | .starting | .arriving | .sweeping _ | .clearing .. | .stopping _ | .joining _ | .closing
  | .finished => .outside

/-- Whoever is not outside has the lock or stands in line for it, and nobody else does. -/
structure Orderly (holder : Option Agent) (queue : List Agent) (stage : Agent → Stage) : Prop where
  queued : ∀ a ∈ queue, stage a = .waiting
  held : ∀ a, holder = some a → stage a ≠ .outside ∧ a ∉ queue
  placed : ∀ a, stage a ≠ .outside → holder = some a ∨ a ∈ queue
  free : holder = none → queue = []
  nodup : queue.Nodup

namespace Orderly

variable {holder : Option Agent} {queue : List Agent} {stage : Agent → Stage} {a b : Agent}

lemma holder_of_inside (h : Orderly holder queue stage) (ha : stage a = .inside) :
    holder = some a := by
  rcases h.placed a (by simp [ha]) with hholder | hqueue
  · exact hholder
  · have hwaiting := h.queued a hqueue
    rw [ha] at hwaiting
    cases hwaiting

lemma eq_of_inside (h : Orderly holder queue stage) (ha : stage a = .inside)
    (hb : stage b = .inside) : a = b :=
  Option.some.inj ((h.holder_of_inside ha).symm.trans (h.holder_of_inside hb))

lemma not_mem_of_outside (h : Orderly holder queue stage) (ha : stage a = .outside) :
    a ∉ queue := by
  intro hqueue
  have hwaiting := h.queued a hqueue
  rw [ha] at hwaiting
  cases hwaiting

lemma ask (h : Orderly holder queue stage) (ha : stage a = .outside) :
    Orderly (some (holder.getD a)) (if holder = none then queue else queue ++ [a])
      (Function.update stage a .waiting) := by
  have hout := h.not_mem_of_outside ha
  have hothers : ∀ b ∈ queue, Function.update stage a .waiting b = .waiting := by
    intro b hb
    rw [Function.update_of_ne (ne_of_mem_of_not_mem hb hout)]
    exact h.queued b hb
  cases hholder : holder with
  | none =>
    have hnobody := h.free hholder
    refine ⟨by simp [hnobody], ?_, ?_, by simp, by simp [hnobody]⟩
    · intro b hb
      obtain rfl : a = b := Option.some.inj hb
      simp [hnobody]
    · intro b hb
      by_cases hs : b = a
      · exact .inl (by simp [hs])
      · rw [Function.update_of_ne hs] at hb
        rcases h.placed b hb with hheld | hwaits
        · rw [hholder] at hheld
          cases hheld
        · rw [hnobody] at hwaits
          cases hwaits
  | some other =>
    have hother := h.held other hholder
    have hne : other ≠ a := by
      rintro rfl
      exact hother.1 ha
    simp only [Option.getD_some, reduceCtorEq, if_false]
    refine ⟨?_, ?_, ?_, by simp, ?_⟩
    · intro b hb
      rcases List.mem_append.mp hb with hold | hnew
      · exact hothers b hold
      · rw [List.mem_singleton.mp hnew, Function.update_self]
    · intro b hb
      obtain rfl : other = b := Option.some.inj hb
      rw [Function.update_of_ne hne]
      simpa [hne] using hother
    · intro b hb
      by_cases hs : b = a
      · exact .inr (by simp [hs])
      · rw [Function.update_of_ne hs] at hb
        rcases h.placed b hb with hheld | hwaits
        · exact .inl (hholder.symm.trans hheld)
        · exact .inr (List.mem_append_left _ hwaits)
    · exact h.nodup.append (List.nodup_singleton a) (by simpa using hout)

lemma enter (h : Orderly holder queue stage) (hholder : holder = some a) {s : Stage}
    (hs : s ≠ .outside) : Orderly holder queue (Function.update stage a s) := by
  have hnot := (h.held a hholder).2
  refine ⟨?_, ?_, ?_, h.free, h.nodup⟩
  · intro b hb
    rw [Function.update_of_ne (ne_of_mem_of_not_mem hb hnot)]
    exact h.queued b hb
  · intro b hb
    obtain rfl : a = b := Option.some.inj (hholder.symm.trans hb)
    exact ⟨by simpa using hs, hnot⟩
  · intro b hb
    by_cases heq : b = a
    · exact .inl (heq ▸ hholder)
    · rw [Function.update_of_ne heq] at hb
      exact h.placed b hb

lemma pass (h : Orderly holder queue stage) (hholder : holder = some a) :
    Orderly queue.head? queue.tail (Function.update stage a .outside) := by
  have hnot := (h.held a hholder).2
  have hother {b : Agent} (hb : b ∈ queue) : b ≠ a := ne_of_mem_of_not_mem hb hnot
  refine ⟨?_, ?_, ?_, ?_, h.nodup.tail⟩
  · intro b hb
    have hmem := List.mem_of_mem_tail hb
    rw [Function.update_of_ne (hother hmem)]
    exact h.queued b hmem
  · intro b hb
    have hmem := List.mem_of_mem_head? hb
    rw [Function.update_of_ne (hother hmem), h.queued b hmem]
    refine ⟨by simp, ?_⟩
    obtain ⟨rest, hqueue⟩ := List.head?_eq_some_iff.mp hb
    have hnodup := h.nodup
    rw [hqueue] at hnodup ⊢
    exact (List.nodup_cons.mp hnodup).1
  · intro b hb
    have hne : b ≠ a := by
      rintro rfl
      simp at hb
    rw [Function.update_of_ne hne] at hb
    rcases h.placed b hb with hheld | hwaits
    · exact absurd (Option.some.inj (hheld.symm.trans hholder)) hne
    · cases hqueue : queue with
      | nil =>
        rw [hqueue] at hwaits
        cases hwaits
      | cons next rest =>
        rw [hqueue] at hwaits
        rcases List.mem_cons.mp hwaits with rfl | hlater
        · exact .inl rfl
        · exact .inr hlater
  · intro hnobody
    rw [List.head?_eq_none_iff.mp hnobody]
    rfl

lemma withdraw (h : Orderly holder queue stage) (hholder : holder ≠ some a) :
    Orderly holder (queue.filter (· != a)) (Function.update stage a .outside) := by
  have hstage {b : Agent} (hb : b ≠ a) : Function.update stage a .outside b = stage b :=
    Function.update_of_ne hb _ _
  refine ⟨?_, ?_, ?_, ?_, h.nodup.filter _⟩
  · intro b hb
    obtain ⟨hmem, hne⟩ := List.mem_filter.mp hb
    rw [hstage (by simpa using hne)]
    exact h.queued b hmem
  · intro b hb
    have hne : b ≠ a := by
      rintro rfl
      exact hholder hb
    rw [hstage hne]
    exact ⟨(h.held b hb).1, fun hmem => (h.held b hb).2 (List.mem_filter.mp hmem).1⟩
  · intro b hb
    have hne : b ≠ a := by
      rintro rfl
      simp at hb
    rw [hstage hne] at hb
    rcases h.placed b hb with hheld | hwaits
    · exact .inl hheld
    · exact .inr (List.mem_filter.mpr ⟨hwaits, by simpa using hne⟩)
  · intro hnobody
    rw [h.free hnobody]
    rfl

end Orderly

namespace World

def stage (w : World) : Agent → Stage
  | .caller index => (w.callers[index]?.map (·.phase.stage)).getD .outside
  | .disposer index => (w.disposers[index]?.map (·.stage)).getD .outside
  | _ => .outside

def IsOrderly (w : World) : Prop := Orderly w.holder w.lockQueue w.stage

lemma stage_caller {w : World} {index : Nat} {c : Caller} (h : w.callers[index]? = some c) :
    w.stage (.caller index) = c.phase.stage := by
  simp [stage, h]

lemma stage_disposer {w : World} {index : Nat} {phase : DisposerPhase}
    (h : w.disposers[index]? = some phase) : w.stage (.disposer index) = phase.stage := by
  simp [stage, h]

lemma stage_setCaller {w : World} {index : Nat} {c : Caller} (h : w.callers[index]? = some c)
    (phase : CallerPhase) :
    (w.setCaller index phase).stage = Function.update w.stage (.caller index) phase.stage := by
  funext a
  by_cases hs : a = .caller index
  · subst hs
    simp [stage, getElem?_setCaller_self h]
  · rw [Function.update_of_ne hs]
    cases a with
    | caller other =>
      have hne : other ≠ index := by
        rintro rfl
        exact hs rfl
      simp [stage, getElem?_setCaller_of_ne w hne]
    | _ => rfl

lemma stage_setDisposer {w : World} {index : Nat} {phase : DisposerPhase}
    (h : w.disposers[index]? = some phase) (phase' : DisposerPhase) :
    (w.setDisposer index phase').stage =
      Function.update w.stage (.disposer index) phase'.stage := by
  have hlt : index < w.disposers.length := (List.getElem?_eq_some_iff.mp h).1
  funext a
  by_cases hs : a = .disposer index
  · subst hs
    simp [stage, setDisposer, hlt]
  · rw [Function.update_of_ne hs]
    cases a with
    | disposer other =>
      have hne : index ≠ other := by
        rintro rfl
        exact hs rfl
      simp [stage, setDisposer, hne]
    | _ => rfl

lemma stage_congr {w v : World} (hc : v.callers = w.callers) (hd : v.disposers = w.disposers) :
    v.stage = w.stage := by
  funext a
  cases a <;> simp only [stage, hc, hd]

lemma stage_join {w w' : World} (joined : List Caller) (comers : List DisposerPhase)
    (hc : w'.callers = w.callers ++ joined) (hd : w'.disposers = w.disposers ++ comers)
    (hjoined : ∀ c ∈ joined, c.phase.stage = .outside)
    (hcomers : ∀ phase ∈ comers, phase.stage = .outside) : w'.stage = w.stage := by
  have happend {α : Type} {old new : List α} {f : α → Stage} (hnew : ∀ x ∈ new, f x = .outside)
      (index : Nat) : ((old ++ new)[index]?.map f).getD .outside =
        (old[index]?.map f).getD .outside := by
    rw [List.getElem?_append]
    split
    · rfl
    · rename_i hbeyond
      rw [List.getElem?_eq_none (Nat.le_of_not_lt hbeyond)]
      cases hget : new[index - old.length]? with
      | none => rfl
      | some x => simp [hnew x (List.mem_of_getElem? hget)]
  funext a
  cases a with
  | caller index => simp only [stage, hc, happend hjoined]
  | disposer index => simp only [stage, hd, happend hcomers]
  | _ => rfl

/-! ### The lock along a run -/

namespace IsOrderly

variable {w v : World} {a : Agent}

lemma asked (h : w.IsOrderly) (ha : w.stage a = .outside) :
    Orderly (w.askLock a).holder (w.askLock a).lockQueue
      (Function.update w.stage a .waiting) := by
  rw [askLock_eq]
  exact Orderly.ask h ha

lemma passed (h : w.IsOrderly) (ha : w.stage a = .inside) :
    Orderly w.passLock.holder w.passLock.lockQueue (Function.update w.stage a .outside) := by
  rw [passLock_eq]
  exact Orderly.pass h (h.holder_of_inside ha)

lemma left (h : w.IsOrderly) :
    Orderly (w.leaveLock a).holder (w.leaveLock a).lockQueue
      (Function.update w.stage a .outside) := by
  rw [leaveLock_eq]
  split
  · rename_i hholder
    rw [passLock_eq]
    exact Orderly.pass h hholder
  · rename_i hholder
    exact Orderly.withdraw h hholder

/-- Whoever stays inside or outside changes nothing about the lock. -/
lemma stayed (h : w.IsOrderly) (hholder : v.holder = w.holder)
    (hqueue : v.lockQueue = w.lockQueue) {s : Stage} (hs : w.stage a = s) :
    Orderly v.holder v.lockQueue (Function.update w.stage a s) := by
  rw [hholder, hqueue, ← hs, Function.update_eq_self]
  exact h

end IsOrderly

lemma CallerStep.orderly {w v : World} {a : Agent} {phase phase' : CallerPhase}
    (h : w.IsOrderly) (ha : w.stage a = phase.stage) (hstep : w.CallerStep a phase v phase') :
    Orderly v.holder v.lockQueue (Function.update w.stage a phase'.stage) := by
  cases hstep with
  | ask => exact h.asked ha
  | enter hholder => exact Orderly.enter h hholder (by simp [CallerPhase.stage])
  | reuse | refuse | leave | install | undone => exact IsOrderly.passed h ha
  | begin hstate =>
    obtain ⟨connector, tried, hattempt⟩ := (w.changeState a .connecting).beginAttempt_eq
    rw [hattempt]
    exact h.stayed rfl rfl ha
  | fail | expire | connect | retreat | withdraw | succeed | undo => exact h.stayed rfl rfl ha
  | draw | enlist | shut | queue | abandon | receive => exact h.stayed rfl rfl ha

lemma DisposerStep.orderly {w v : World} {a : Agent} {phase phase' : DisposerPhase}
    (h : w.IsOrderly) (ha : w.stage a = phase.stage) (hstep : w.DisposerStep a phase v phase') :
    Orderly v.holder v.lockQueue (Function.update w.stage a phase'.stage) := by
  cases hstep with
  | ask => exact h.asked ha
  | enter hholder => exact Orderly.enter h hholder (by simp [DisposerPhase.stage])
  | take => exact IsOrderly.passed h ha
  | cleared link => cases link <;> exact h.stayed rfl rfl ha
  | close | pass | sweep | clear | stop | join | finish | rest => exact h.stayed rfl rfl ha

lemma isOrderly_deed {w w' : World} {m : Move} (h : w.IsOrderly) (hdeed : w.Deed m w') :
    w'.IsOrderly := by
  cases hdeed with
  | caller hc hstep =>
    have horderly := hstep.orderly h (stage_caller hc)
    unfold IsOrderly
    rw [stage_setCaller (by rw [hstep.callers, hc]), stage_congr hstep.callers hstep.disposers]
    exact horderly
  | disposer hd hstep =>
    have horderly := hstep.orderly h (stage_disposer hd)
    unfold IsOrderly
    rw [stage_setDisposer (by rw [hstep.disposers, hd]), stage_congr hstep.callers hstep.disposers]
    exact horderly
  | @giveUp index c hc _ =>
    have hleft : Orderly _ _ _ := h.left (a := .caller index)
    have hdisposers : (w.leaveLock (.caller index)).disposers = w.disposers := by
      rw [leaveLock_eq, passLock_eq]
      split <;> rfl
    have hstage (requests : Requests) :
        { w.leaveLock (.caller index) with requests }.stage = w.stage :=
      stage_congr (leaveLock_callers w _) hdisposers
    unfold IsOrderly
    rw [stage_setCaller (by simpa using hc), hstage]
    exact hleft
  | spare => exact h
  | dispose =>
    unfold IsOrderly
    rw [stage_join (w := w) [] _ (by simp) rfl (by simp) (by simp [DisposerPhase.stage])]
    exact h
  | aside haside =>
    obtain ⟨joined, hcallers, hnew⟩ := haside.callers
    unfold IsOrderly
    rw [stage_join (w := w) _ [] hcallers (by simpa using haside.disposers)
      (fun c hc => by rw [hnew c hc]; rfl) (by simp), haside.holder, haside.lockQueue]
    exact h

lemma isOrderly_start (address : String) (config : Config) (methods : MethodMap)
    (bindings : Bindings) (connector : Connector) :
    (start address config methods bindings connector).IsOrderly := by
  refine ⟨by simp [start], by simp [start], ?_, by simp [start], by simp [start]⟩
  intro a ha
  cases a <;> simp [stage, start] at ha

/-- In every world of a run nobody but the holder of the lock works on the link. -/
theorem isOrderly_run {w : World} (h : w.IsOrderly) (moves : List Move) : (w.run moves).IsOrderly :=
  run_induction h (fun _ _ _ hw hmove => isOrderly_deed hw (deed_of_move hmove)) moves

end World

end InspectorProtocol.Session
