import InspectorProtocol.Proofs.Progress

/-!
# Callers that wait for an answer

A caller that has registered its request waits until the request has an outcome. In every run its
request is in the table, or in the hand of an agent that nothing keeps from sending the outcome, or
has an outcome. An agent that fails all requests leaves nobody waiting but those whose requests
others had taken out of the table before, and nobody comes to wait after it.
-/

namespace InspectorProtocol.Session

lemma Requests.isSome_outcome? {r : Requests} {id : Int} :
    (r.outcome? id).isSome ↔ r.mailbox id ≠ [] := by
  rw [outcome?, List.lookup_isSome_iff, ne_eq, mailbox, List.map_eq_nil_iff,
    List.filter_eq_nil_iff]
  simp only [beq_iff_eq, decide_eq_true_eq, not_forall, not_not, exists_prop]
  exact exists_congr fun _ => and_congr_right fun _ => eq_comm

namespace World

/-- A request is attended to while it is in the table or in a hand, or has an outcome. -/
def Attends (w : World) (id : Int) : Prop :=
  id ∈ w.requests.pending ∨ (∃ agent, id ∈ w.hands agent) ∨ (w.requests.outcome? id).isSome

/-- No two callers have drawn one id, and every request a caller waits for is attended to. -/
structure Tended (w : World) : Prop where
  swept : w.requests.closed = true → w.requests.pending = []
  cleared : ∀ agent ids, w.errand agent = .clear ids → w.requests.closed = true
  drawn : ∀ index id, w.claims index = some id → id < w.requests.nextId
  own : ∀ index other id, w.claims index = some id → w.claims other = some id → index = other
  attended : ∀ index id, w.awaits index = some id → w.Attends id

variable {w v w' : World} {m : Move} {agent : Agent} {index : Nat} {c : Caller}

/-! ### What each deed leaves attended to -/

lemma Attends.of_eq {id : Int} (h : w.Attends id) (hr : v.requests = w.requests)
    (he : v.errand = w.errand) : v.Attends id := by
  unfold Attends hands at *
  rwa [hr, he]

lemma Attends.handles {id : Int} (h : w.Attends id) (hh : w.Handles m w') : w'.Attends id := by
  cases hh with
  | still _ hr he | report _ _ hr he => exact h.of_eq hr he
  | relist ids hperm hr he =>
    unfold Attends hands at *
    rw [hr, he]
    exact h.imp_left hperm.mem_iff.mpr
  | act agent next hhandling he =>
    have hnext : w'.hands agent = next.inHand := by rw [hands, he, Function.update_self]
    have hkept : id ∈ w.requests.pending ∨ id ∈ (w.errand agent).inHand ∨
        (w.requests.outcome? id).isSome → w'.Attends id := fun hid =>
      (hhandling.attends hid).imp_right (.imp_left fun hhand => ⟨agent, hnext ▸ hhand⟩)
    rcases h with hpending | ⟨other, hhand⟩ | hready
    · exact hkept (.inl hpending)
    · by_cases hs : other = agent
      · exact hkept (.inr (.inl (hs ▸ hhand)))
      · refine .inr (.inl ⟨other, ?_⟩)
        rwa [hands, he, Function.update_of_ne hs]
    · exact hkept (.inr (.inr hready))

lemma Attends.release {id other : Int} (h : w.Attends id) (hne : id ≠ other)
    (hr : v.requests = w.requests.release other) (he : v.errand = w.errand) : v.Attends id := by
  unfold Attends hands at *
  rw [hr, he, Requests.isSome_outcome?, Requests.mailbox_release, if_neg (Ne.symm hne),
    ← Requests.isSome_outcome?]
  exact h.imp_left fun hpending => by simp [Requests.release, hpending, hne]

namespace Tended

lemma handles (h : w.Tended) (hh : w.Handles m w') (hclaims : w'.claims = w.claims)
    (hawaits : w'.awaits = w.awaits) : w'.Tended := by
  refine ⟨fun hc => ?_, fun agent ids hclear => ?_, ?_, hclaims ▸ h.own, ?_⟩
  · cases hh with
    | still _ hr | report _ _ hr =>
      rw [hr] at hc ⊢
      exact h.swept hc
    | relist ids hperm hr =>
      rw [hr] at hc ⊢
      exact List.perm_nil.mp (h.swept hc ▸ hperm)
    | act agent next hhandling =>
      rcases hhandling.closed.2.1 hc with hwas | hnone
      · exact hhandling.pending_nil (h.swept hwas)
      · exact hnone
  · cases hh with
    | still _ hr he | report _ _ hr he | relist _ _ hr he =>
      rw [hr]
      exact h.cleared agent ids (he ▸ hclear)
    | act other next hhandling he =>
      rw [he] at hclear
      by_cases hs : agent = other
      · subst hs
        rw [Function.update_self] at hclear
        rcases hhandling.closed.2.2 ids hclear with hnow | ⟨ids', hwas⟩
        · exact hnow
        · exact hhandling.closed.1 (h.cleared agent ids' hwas)
      · rw [Function.update_of_ne hs] at hclear
        exact hhandling.closed.1 (h.cleared agent ids hclear)
  · rw [hclaims, hh.nextId]
    exact h.drawn
  · rw [hawaits]
    exact fun index id hid => (h.attended index id hid).handles hh

lemma setCaller {phase : CallerPhase} (h : w.Tended) (hc : w.callers[index]? = some c)
    (hcallers : v.callers = w.callers) (herrand : v.errand = w.errand)
    (hclosed : v.requests.closed = w.requests.closed)
    (hswept : v.requests.closed = true → v.requests.pending = [])
    (hnext : w.requests.nextId ≤ v.requests.nextId)
    (hclaim : ∀ id, phase.claim = some id → c.phase.claim = some id ∨
      id = w.requests.nextId ∧ w.requests.nextId < v.requests.nextId)
    (hown : ∀ id, phase.awaited = some id → v.Attends id)
    (hothers : ∀ id, c.phase.claim ≠ some id → w.Attends id → v.Attends id) :
    (v.setCaller index phase).Tended := by
  have hcaller : v.callers[index]? = some c := hcallers ▸ hc
  have hclaims : (v.setCaller index phase).claims =
      Function.update w.claims index phase.claim := by
    rw [claims_setCaller hcaller, claims_congr hcallers]
  have hawaits : (v.setCaller index phase).awaits =
      Function.update w.awaits index phase.awaited := by
    rw [awaits_setCaller hcaller, awaits_congr hcallers]
  have hmine : w.claims index = c.phase.claim := by simp [claims, hc]
  refine ⟨hswept, fun agent ids hclear => ?_, fun other id hid => ?_,
    fun one other id hone hother => ?_, fun other id hid => ?_⟩
  · rw [setCaller_requests, hclosed]
    exact h.cleared agent ids (herrand ▸ hclear)
  · rw [hclaims] at hid
    rw [setCaller_requests]
    by_cases hs : other = index
    · rw [hs, Function.update_self] at hid
      rcases hclaim id hid with hold | ⟨rfl, hnew⟩
      · exact Int.lt_of_lt_of_le (h.drawn index id (hmine ▸ hold)) hnext
      · exact hnew
    · rw [Function.update_of_ne hs] at hid
      exact Int.lt_of_lt_of_le (h.drawn other id hid) hnext
  · rw [hclaims] at hone hother
    have hfresh {other : Nat} (hs : other ≠ index) (hnow : phase.claim = some id)
        (hwas : w.claims other = some id) : other = index := by
      rcases hclaim id hnow with hold | ⟨rfl, _⟩
      · exact h.own other index id hwas (hmine ▸ hold)
      · exact absurd (h.drawn other _ hwas) (Int.lt_irrefl _)
    by_cases hi : one = index <;> by_cases ho : other = index
    · rw [hi, ho]
    · rw [hi, Function.update_self] at hone
      rw [Function.update_of_ne ho] at hother
      rw [hi, hfresh ho hone hother]
    · rw [ho, Function.update_self] at hother
      rw [Function.update_of_ne hi] at hone
      rw [ho, hfresh hi hother hone]
    · rw [Function.update_of_ne hi] at hone
      rw [Function.update_of_ne ho] at hother
      exact h.own one other id hone hother
  · rw [hawaits] at hid
    by_cases hs : other = index
    · rw [hs, Function.update_self] at hid
      exact (hown id hid).of_eq rfl rfl
    · rw [Function.update_of_ne hs] at hid
      refine (hothers id ?_ (h.attended other id hid)).of_eq rfl rfl
      exact fun hsame => hs (h.own other index id (claims_of_awaits hid) (hmine ▸ hsame))

/-- A caller that is done, or is given up, takes its request with it. -/
lemma forgo {phase : CallerPhase} {awaited : Option Int} (h : w.Tended)
    (hc : w.callers[index]? = some c) (hcallers : v.callers = w.callers)
    (herrand : v.errand = w.errand) (hr : v.requests = w.requests.forgo awaited)
    (hawaited : ∀ id, awaited = some id → c.phase.claim = some id) (hover : phase.claim = none) :
    (v.setCaller index phase).Tended := by
  have hnone (id : Int) : phase.awaited ≠ some id := fun hid => by
    simp [CallerPhase.claim_of_awaited hid] at hover
  cases awaited with
  | none =>
    have hr : v.requests = w.requests := hr
    exact h.setCaller hc hcallers herrand (by rw [hr]) (hr ▸ h.swept) (hr ▸ Int.le_refl _)
      (by simp [hover]) (fun id hid => absurd hid (hnone id))
      fun id _ hattends => hattends.of_eq hr herrand
  | some id =>
    have hr : v.requests = w.requests.release id := hr
    refine h.setCaller hc hcallers herrand (hr ▸ rfl) (fun hclosed => ?_) (hr ▸ Int.le_refl _)
      (by simp [hover]) (fun id hid => absurd hid (hnone id)) fun other hother hattends => ?_
    · rw [hr] at hclosed ⊢
      simp [Requests.release, h.swept hclosed]
    · refine hattends.release ?_ hr herrand
      rintro rfl
      exact hother (hawaited other rfl)

lemma callerStep {phase : CallerPhase} (h : w.Tended) (hc : w.callers[index]? = some c)
    (hstep : w.CallerStep agent c.phase v phase) : (v.setCaller index phase).Tended := by
  have hcallers := hstep.callers
  have herrand := hstep.errand
  have hquiet (hr : v.requests = w.requests) (hover : phase.claim = none) :
      (v.setCaller index phase).Tended := by
    have hforgo : v.requests = w.requests.forgo none := hr
    exact h.forgo hc hcallers herrand hforgo (by simp) hover
  generalize hphase : c.phase = before at hstep
  cases hstep with
  | ask | reuse | refuse | begin | leave | install | undone =>
    exact hquiet (by simp [changeState]) rfl
  | enter | fail | expire | connect | retreat | withdraw | succeed | undo | shut =>
    exact hquiet rfl rfl
  | draw link =>
    refine h.setCaller hc rfl rfl rfl h.swept ?_ ?_ (by simp [CallerPhase.awaited])
      fun id _ hattends => hattends
    · simp only [Requests.draw]
      omega
    · rintro id ⟨rfl⟩
      exact .inr ⟨rfl, by simp only [Requests.draw]; omega⟩
  | enlist link id hopen =>
    have hkept {other : Int} (hattends : w.Attends other) :
        World.Attends { w with requests := w.requests.enlist id } other :=
      hattends.imp_left fun hpending => List.mem_append_left _ hpending
    refine h.setCaller hc rfl rfl rfl (fun hclosed => ?_) (Int.le_refl _)
      (by simp [hphase, CallerPhase.claim]) ?_ fun other _ => hkept
    · exact absurd (hopen.symm.trans hclosed) (by simp)
    · rintro other ⟨rfl⟩
      exact .inl (List.mem_append_right _ (List.mem_singleton_self _))
  | queue link id text =>
    have hwaits : w.awaits index = some id := by simp [awaits, hc, hphase, CallerPhase.awaited]
    refine h.setCaller hc rfl herrand rfl h.swept (Int.le_refl _)
      (by simp [hphase, CallerPhase.claim]) ?_ fun other _ hattends => hattends.of_eq rfl herrand
    rintro other ⟨rfl⟩
    exact (h.attended index id hwaits).of_eq rfl herrand
  | abandon link id | receive id =>
    have hforgo : w.requests.release id = w.requests.forgo (some id) := rfl
    exact h.forgo hc rfl rfl hforgo (by simp [hphase, CallerPhase.claim]) rfl

lemma deed (h : w.Tended) (hdeed : w.Deed m w') : w'.Tended := by
  cases hdeed with
  | caller hc hstep => exact h.callerStep hc hstep
  | @disposer index phase phase' v hd hstep =>
    have hcallers : (v.setDisposer index phase').callers = w.callers := hstep.callers
    exact h.handles (hstep.handles hd) (claims_congr hcallers) (awaits_congr hcallers)
  | @giveUp index c hc =>
    exact h.forgo hc (leaveLock_callers w _) (leaveLock_errand w _) rfl
      (fun _ => CallerPhase.claim_of_awaited) rfl
  | spare => exact h
  | dispose =>
    exact h.handles (.still (m := .dispose) (by simp) rfl (errand_dispose w)) rfl rfl
  | aside haside _ hhandles =>
    obtain ⟨joined, hcallers, hnew⟩ := haside.callers
    exact h.handles hhandles (claims_join hcallers hnew) (awaits_join hcallers hnew)

end Tended

lemma tended_start (address : String) (config : Config) (methods : MethodMap)
    (bindings : Bindings) (connector : Connector) :
    (start address config methods bindings connector).Tended :=
  { swept := fun _ => rfl
    cleared := fun agent ids hclear => by cases agent <;> cases hclear
    drawn := by simp [start, claims]
    own := by simp [start, claims]
    attended := by simp [start, awaits] }

lemma tended_run (h : w.Tended) (moves : List Move) : (w.run moves).Tended :=
  run_induction h (fun _ _ _ hw hmove => hw.deed (deed_of_move hmove)) moves

/-! ### Agents on an errand -/

lemma exists_stepDisposer {phase : DisposerPhase} (h : phase.errand ≠ .none) :
    ∃ w', w.stepDisposer index phase = some w' := by
  cases phase with
  | sweeping => exact ⟨_, rfl⟩
  | clearing link ids =>
    cases ids with
    | nil => cases link <;> exact ⟨_, rfl⟩
    | cons => exact ⟨_, rfl⟩
  | _ => exact absurd rfl h

lemma exists_stepWriter {l : Link} (h : l.writer.errand ≠ .none) :
    ∃ w', w.stepWriter index l = some w' := by
  cases hphase : l.writer with
  | rejecting | sweeping =>
    simp only [stepWriter, hphase]
    exact ⟨_, rfl⟩
  | clearing ids =>
    cases ids <;>
    · simp only [stepWriter, hphase]
      exact ⟨_, rfl⟩
  | _ => exact absurd (by rw [hphase]; rfl) h

lemma exists_stepReader {l : Link} (h : l.reader.errand ≠ .none) :
    ∃ w', w.stepReader index l = some w' := by
  cases hphase : l.reader with
  | answering | sweeping =>
    simp only [stepReader, hphase]
    exact ⟨_, rfl⟩
  | clearing ids =>
    cases ids <;>
    · simp only [stepReader, hphase]
      exact ⟨_, rfl⟩
  | _ => exact absurd (by rw [hphase]; rfl) h

lemma exists_stepRelease (h : w.release.errand ≠ .none) : ∃ w', w.stepRelease = some w' := by
  cases hphase : w.release with
  | sweeping =>
    simp only [stepRelease, hphase]
    exact ⟨_, rfl⟩
  | clearing ids =>
    cases ids <;>
    · simp only [stepRelease, hphase]
      exact ⟨_, rfl⟩
  | _ => exact absurd (by rw [hphase]; rfl) h

lemma exists_step_of_errand (h : w.errand agent ≠ .none) : ∃ w', w.step agent = some w' := by
  have hbind {α : Type} {found : Option α} {f : α → Errand} {step : α → Option World}
      (hfound : found.elim .none f ≠ .none) (hstep : ∀ x, f x ≠ .none → ∃ w', step x = some w') :
      ∃ w', found.bind step = some w' := by
    cases found with
    | none => exact absurd rfl hfound
    | some x => exact hstep x hfound
  unfold step
  split
  · exact ⟨_, rfl⟩
  · cases agent with
    | disposer => exact hbind h fun _ => exists_stepDisposer
    | writer => exact hbind h fun _ => exists_stepWriter
    | reader => exact hbind h fun _ => exists_stepReader
    | releaser => exact exists_stepRelease h
    | _ => exact absurd rfl h

lemma handles_of_step (h : w.errand agent ≠ .none) (hstep : w.step agent = some w') :
    w.Handles (.act agent) w' := by
  cases deed_of_step hstep with
  | caller => exact absurd rfl h
  | disposer hd hdisposer => exact hdisposer.handles hd
  | aside _ _ hhandles => exact hhandles

/-- An agent on an errand goes on with it in at most two steps, one of which makes its report. -/
lemma run_errand (h : w.errand agent ≠ .none) : ∃ n ≤ 2,
    Handling w.requests (w.errand agent) (w.run (List.replicate n (.act agent))).requests
      ((w.run (List.replicate n (.act agent))).errand agent) := by
  have hfree {v : World} (hagent : v.errand agent ≠ .none)
      (hnotices : v.notices.find? (·.1 = agent) = none) : ∃ w', v.move (.act agent) = some w' ∧
        Handling v.requests (v.errand agent) w'.requests (w'.errand agent) := by
    obtain ⟨w', hstep⟩ := exists_step_of_errand hagent
    refine ⟨w', hstep, ?_⟩
    cases handles_of_step hagent hstep with
    | still hm => exact absurd rfl (hm agent)
    | report _ hreport =>
      obtain ⟨n, hn, hby⟩ := hreport
      simpa [hby] using List.find?_eq_none.mp hnotices n hn
    | act _ next hhandling he => rwa [he, Function.update_self]
  cases hnotice : w.notices.find? (·.1 = agent) with
  | none =>
    obtain ⟨w', hmove, hhandling⟩ := hfree h hnotice
    exact ⟨1, by decide, by rwa [List.replicate_one, run_singleton hmove]⟩
  | some notice =>
    have hreport : w.move (.act agent) = some (w.reported agent) := step_of_notice hnotice
    obtain ⟨w', hmove, hhandling⟩ :=
      hfree (v := w.reported agent) h (find?_notices_reported w agent)
    refine ⟨2, Nat.le_refl 2, ?_⟩
    rw [List.replicate_succ, run_cons hreport, List.replicate_one, run_singleton hmove]
    exact hhandling

lemma run_hands {id : Int} {rest : List Int} (h : w.hands agent = id :: rest) : ∃ n ≤ 2,
    (w.run (List.replicate n (.act agent))).hands agent = rest ∧
      ((w.run (List.replicate n (.act agent))).requests.outcome? id).isSome := by
  have herrand : w.errand agent ≠ .none := fun hnone => by simp [hands, hnone, Errand.inHand] at h
  obtain ⟨n, hn, hhandling⟩ := run_errand herrand
  refine ⟨n, hn, ?_⟩
  unfold hands at *
  generalize (w.run _).requests = r', (w.run _).errand agent = next, w.errand agent = before at *
  cases hhandling with
  | idle | take | start | drain | finish => simp [Errand.inHand] at h
  | answer other outcome =>
    obtain ⟨rfl, rfl⟩ : other = id ∧ [] = rest := by simpa [Errand.inHand] using h
    exact ⟨rfl, Requests.isSome_outcome?_send.mpr (.inr rfl)⟩
  | send other ids outcome =>
    obtain ⟨rfl, rfl⟩ : other = id ∧ ids = rest := by simpa [Errand.inHand] using h
    exact ⟨rfl, Requests.isSome_outcome?_send.mpr (.inr rfl)⟩

lemma errand_move (hmove : w.move m = some w') (hm : m ≠ .act agent) :
    w'.errand agent = w.errand agent := by
  cases deed_of_move hmove with
  | caller _ hstep => exact congrFun hstep.errand agent
  | @disposer index phase phase' v hd hstep =>
    have hne : agent ≠ .disposer index := fun hs => hm (hs ▸ rfl)
    rw [hstep.errand_setDisposer hd, Function.update_of_ne hne]
  | giveUp => exact congrFun (leaveLock_errand w _) agent
  | spare => rfl
  | dispose => exact congrFun (errand_dispose w) agent
  | aside _ _ hhandles =>
    cases hhandles with
    | still _ _ he | report _ _ _ he | relist _ _ _ he => rw [he]
    | act other next _ he =>
      have hne : agent ≠ other := fun hs => hm (hs ▸ rfl)
      rw [he, Function.update_of_ne hne]

/-! ### Sweeps -/

lemma run_clear {ids : List Int} (h : w.errand agent = .clear ids) :
    ∃ n, (w.run (List.replicate n (.act agent))).isSweeping agent = false := by
  induction ids generalizing w with
  | nil =>
    have hbusy : w.errand agent ≠ .none := by simp [h]
    obtain ⟨n, _, hhandling⟩ := run_errand hbusy
    rw [h] at hhandling
    refine ⟨n, ?_⟩
    unfold isSweeping
    generalize (w.run _).requests = r', (w.run _).errand agent = next at *
    cases hhandling with
    | finish => rfl
  | cons id ids ih =>
    have hbusy : w.errand agent ≠ .none := by simp [h]
    obtain ⟨n, _, hhandling⟩ := run_errand hbusy
    rw [h] at hhandling
    have hnext : (w.run (List.replicate n (.act agent))).errand agent = .clear ids := by
      generalize (w.run _).requests = r', (w.run _).errand agent = next at *
      cases hhandling with
      | send => rfl
    obtain ⟨n', hover⟩ := ih hnext
    exact ⟨n + n', by rwa [← List.replicate_append_replicate, run_append]⟩

lemma run_sweep (h : w.isSweeping agent = true) :
    ∃ n, (w.run (List.replicate n (.act agent))).isSweeping agent = false := by
  cases herrand : w.errand agent with
  | none | answer => simp [isSweeping, herrand, Errand.isSweep] at h
  | clear ids => exact run_clear herrand
  | sweep =>
    have hbusy : w.errand agent ≠ .none := by simp [herrand]
    obtain ⟨n, _, hhandling⟩ := run_errand hbusy
    rw [herrand] at hhandling
    have hnext : (w.run (List.replicate n (.act agent))).errand agent =
        .clear w.requests.pending := by
      generalize (w.run _).requests = r', (w.run _).errand agent = next at *
      cases hhandling with
      | drain => rfl
    obtain ⟨n', hover⟩ := run_clear hnext
    exact ⟨n + n', by rwa [← List.replicate_append_replicate, run_append]⟩

/-- The last step of a sweep leaves a closed table and nothing in hand. -/
lemma closed_of_sweep (h : w.Tended) (hsweeping : w.isSweeping agent = true)
    (hstep : w.step agent = some w') (hover : w'.isSweeping agent = false) :
    w'.requests.closed = true ∧ w'.hands agent = [] := by
  have herrand : w.errand agent ≠ .none := fun hnone => by
    simp [isSweeping, hnone, Errand.isSweep] at hsweeping
  have hcleared := h.cleared agent
  unfold isSweeping at hsweeping hover
  cases handles_of_step herrand hstep with
  | still hm => exact absurd rfl (hm agent)
  | report _ _ _ he =>
    rw [he, hsweeping] at hover
    cases hover
  | act _ next hhandling he =>
    unfold hands
    rw [he, Function.update_self] at hover ⊢
    generalize w'.requests = r', w.errand agent = before at *
    cases hhandling with
    | finish => exact ⟨hcleared [] rfl, rfl⟩
    | idle | take | answer | start => cases hsweeping
    | drain | send => cases hover

lemma CallerStep.closed {me : Agent} {phase phase' : CallerPhase}
    (h : w.CallerStep me phase v phase') (hclosed : w.requests.closed = true) :
    v.requests.closed = true ∧ ∀ id, phase'.awaited = some id → phase.awaited = some id := by
  cases h with
  | ask | reuse | refuse | begin | leave | install | undone =>
    exact ⟨by simpa [changeState] using hclosed, fun _ hid => by cases hid⟩
  | enlist _ _ hopen => exact absurd (hopen.symm.trans hclosed) (by simp)
  | queue => exact ⟨hclosed, fun _ hid => hid⟩
  | _ => exact ⟨hclosed, fun _ hid => by cases hid⟩

lemma closed_deed (hdeed : w.Deed m w') (h : w.requests.closed = true) :
    w'.requests.closed = true ∧
      ∀ index id, w'.awaits index = some id → w.awaits index = some id := by
  have hset {v : World} {index : Nat} {c : Caller} {phase : CallerPhase}
      (hc : w.callers[index]? = some c) (hcallers : v.callers = w.callers)
      (hawaited : ∀ id, phase.awaited = some id → c.phase.awaited = some id) (other : Nat)
      (id : Int) (hid : (v.setCaller index phase).awaits other = some id) :
      w.awaits other = some id := by
    rw [awaits_setCaller (hcallers ▸ hc), awaits_congr hcallers] at hid
    by_cases hs : other = index
    · rw [hs, Function.update_self] at hid
      simp [awaits, hs, hc, hawaited id hid]
    · rwa [Function.update_of_ne hs] at hid
  cases hdeed with
  | caller hc hstep =>
    exact ⟨(hstep.closed h).1, hset hc hstep.callers (hstep.closed h).2⟩
  | @disposer index phase phase' v hd hstep =>
    have hcallers : (v.setDisposer index phase').callers = w.callers := hstep.callers
    exact ⟨(hstep.handles hd).closed h, fun other id hid => awaits_congr hcallers ▸ hid⟩
  | @giveUp index c hc =>
    refine ⟨?_, hset hc (leaveLock_callers w _) (by simp [CallerPhase.awaited])⟩
    cases hawaited : c.phase.awaited <;> exact h
  | spare | dispose => exact ⟨h, fun _ _ hid => hid⟩
  | aside haside _ hhandles =>
    obtain ⟨joined, hcallers, hnew⟩ := haside.callers
    exact ⟨hhandles.closed h, fun other id hid => awaits_join hcallers hnew ▸ hid⟩

lemma closed_run (h : w.requests.closed = true) (moves : List Move) :
    (w.run moves).requests.closed = true ∧
      ∀ index id, (w.run moves).awaits index = some id → w.awaits index = some id := by
  refine run_induction (P := fun v => v.requests.closed = true ∧
    ∀ index id, v.awaits index = some id → w.awaits index = some id)
    ⟨h, fun _ _ hid => hid⟩ (fun v v' m hv hmove => ?_) moves
  obtain ⟨hstays, hnobody⟩ := closed_deed (deed_of_move hmove) hv.1
  exact ⟨hstays, fun index id hid => hv.2 index id (hnobody index id hid)⟩

lemma Tended.answered (h : w.Tended) (hclosed : w.requests.closed = true) {id : Int}
    (hid : w.awaits index = some id) :
    (∃ agent, id ∈ w.hands agent) ∨ (w.requests.outcome? id).isSome := by
  rcases h.attended index id hid with hpending | hlater
  · rw [h.swept hclosed] at hpending
    cases hpending
  · exact hlater

/-- In every world of a run, the request of each caller that has registered and still waits is in
the table, or in the hand of an agent that took it out, or has an outcome. An agent with requests in
hand sends the outcome of the first in at most two steps of its own, one of which makes its report,
and nobody else touches what it has in hand. An agent that fails all requests, be it a disposer, a
writer whose frame could not be written, a reader whose stream failed or ended, or whoever gave up
the last handle, gets to the end of that by itself; then every caller that waits has an outcome or
has its request in the hand of another agent, and from then on every registration is refused and
nobody new waits. -/
theorem no_waiter_left_behind (address : String) (config : Config) (methods : MethodMap)
    (bindings : Bindings) (connector : Connector) (moves : List Move) :
    let w := (start address config methods bindings connector).run moves
    (∀ index id, w.awaits index = some id → id ∈ w.requests.pending ∨
      (∃ agent, id ∈ w.hands agent) ∨ (w.requests.outcome? id).isSome) ∧
    (∀ agent id rest, w.hands agent = id :: rest →
      (∃ n ≤ 2, (w.run (List.replicate n (.act agent))).hands agent = rest ∧
        ((w.run (List.replicate n (.act agent))).requests.outcome? id).isSome) ∧
      ∀ m w', m ≠ .act agent → w.move m = some w' → w'.hands agent = id :: rest) ∧
    ∀ agent, w.isSweeping agent = true →
      (∃ n, (w.run (List.replicate n (.act agent))).isSweeping agent = false) ∧
      ∀ w', w.step agent = some w' → w'.isSweeping agent = false →
        (∀ index id, w'.awaits index = some id →
          (∃ other ≠ agent, id ∈ w'.hands other) ∨ (w'.requests.outcome? id).isSome) ∧
        ∀ later, (w'.run later).requests.register.1 = .error .sessionClosed ∧
          ∀ index id, (w'.run later).awaits index = some id → w'.awaits index = some id ∧
            ((∃ other, id ∈ (w'.run later).hands other) ∨
              ((w'.run later).requests.outcome? id).isSome) := by
  intro w
  have htended : w.Tended := tended_run (tended_start _ _ _ _ _) moves
  refine ⟨htended.attended, fun agent id rest hhands => ⟨run_hands hhands, ?_⟩,
    fun agent hsweeping => ⟨run_sweep hsweeping, fun w' hstep hover => ?_⟩⟩
  · intro m w' hm hmove
    rw [← hhands, hands, hands, errand_move hmove hm]
  · have hnext : w'.Tended := htended.deed (deed_of_step hstep)
    obtain ⟨hclosed, hempty⟩ := closed_of_sweep htended hsweeping hstep hover
    refine ⟨fun index id hid => ?_, fun later => ?_⟩
    · refine (hnext.answered hclosed hid).imp_left fun ⟨other, hother⟩ => ⟨other, ?_, hother⟩
      rintro rfl
      simp [hempty] at hother
    · obtain ⟨hstays, hnobody⟩ := closed_run hclosed later
      refine ⟨by rw [Requests.register_of_closed hstays], fun index id hid => ?_⟩
      exact ⟨hnobody index id hid, (tended_run hnext later).answered hstays hid⟩

lemma step_eq_run (h : (w.step agent).isSome) : w.step agent = some (w.run [.act agent]) := by
  obtain ⟨w', hstep⟩ := Option.isSome_iff_exists.mp h
  rw [run_singleton (m := .act agent) hstep, hstep]

/-- A call that connects and queues its request in eleven steps, and a link that is lost while it
waits: six steps on, the reader has the request in hand. -/
def lostLink : List Move :=
  .call "a" "Page.enable" none :: List.replicate 11 (.act (.caller 0)) ++
    .arrive 0 .finished :: List.replicate 6 (.act (.reader 0))

theorem lost_link_answers_its_caller :
    let fresh := start "" {} {} ⟨{}, [], ⟨0, []⟩⟩ (.scripted [])
    let w := fresh.run lostLink
    let w' := (fresh.run (lostLink ++ [.act (.reader 0)])).run [.act (.reader 0)]
    w.awaits 0 = some 1 ∧ w.hands (.reader 0) = [1] ∧
      (∃ n ≤ 2, (w.run (List.replicate n (.act (.reader 0)))).hands (.reader 0) = [] ∧
        ((w.run (List.replicate n (.act (.reader 0)))).requests.outcome? 1).isSome) ∧
      w'.isSweeping (.reader 0) = false ∧ w'.awaits 0 = some 1 ∧
      ((∃ other ≠ .reader 0, 1 ∈ w'.hands other) ∨ (w'.requests.outcome? 1).isSome) := by
  intro fresh w w'
  have hhands := (no_waiter_left_behind "" {} {} ⟨{}, [], ⟨0, []⟩⟩ (.scripted []) lostLink).2.1
    (.reader 0) 1 [] (by decide +kernel)
  have hsweep := (no_waiter_left_behind "" {} {} ⟨{}, [], ⟨0, []⟩⟩ (.scripted [])
    (lostLink ++ [.act (.reader 0)])).2.2 (.reader 0) (by decide +kernel)
  have hover : w'.isSweeping (.reader 0) = false := by decide +kernel
  have hwaits : w'.awaits 0 = some 1 := by decide +kernel
  have hstep : (fresh.run (lostLink ++ [.act (.reader 0)])).step (.reader 0) = some w' :=
    step_eq_run (by decide +kernel)
  exact ⟨by decide +kernel, by decide +kernel, hhands.1, hover, hwaits,
    (hsweep.2 w' hstep hover).1 0 1 hwaits⟩

/-- A call that waits, a reader that has taken its request out of the table to answer it, and a
disposer that is done with failing all requests but for its last step. -/
def takenRequest : List Move :=
  .call "a" "Page.enable" none :: List.replicate 11 (.act (.caller 0)) ++
    .arrive 0 (.text "\x7b\"id\":1\x7d") :: List.replicate 2 (.act (.reader 0)) ++
    .dispose :: List.replicate 6 (.act (.disposer 0))

theorem taken_request_is_neither_pending_nor_answered :
    let w := (start "" {} {} ⟨{}, [], ⟨0, []⟩⟩ (.scripted [])).run takenRequest
    let w' := w.run [.act (.disposer 0)]
    w.awaits 0 = some 1 ∧ w.requests.pending = [] ∧ w.requests.outcome? 1 = none ∧
      w.isSweeping (.disposer 0) = true ∧ w'.isSweeping (.disposer 0) = false ∧
      w'.awaits 0 = some 1 ∧ w'.requests.pending = [] ∧ w'.requests.outcome? 1 = none :=
  by decide +kernel

end World

end InspectorProtocol.Session
