import InspectorProtocol.Proofs.Lifecycle

/-!
# Calls that get no connection

A session that never gets a link keeps nothing of the calls that failed: no link, no request, no id.
Its state is a different matter. An attempt that fails or expires puts it back, but a caller that is
given up while it connects takes no further step, so the session stays connecting and every later
call is refused.
-/

namespace InspectorProtocol.Session

/-- The failures that a connector may still report. -/
def Connector.failures : Connector → List Failure
  | .scripted plans => plans.filterMap (·.failure)
  | .unreachable failure => [failure]

/-- Whether an attempt to connect may fail for a reason: the connector reports it, or the time is
up. -/
def EndsAttempt (failures : List Failure) (reason : Failure) : Prop :=
  reason ∈ failures ∨ ∃ seconds, reason = .connectionTimeout seconds

/-- What a caller may be doing while there has been no link. -/
def CallerPhase.IsLinkless (failures : List Failure) (abandoned : Bool) : CallerPhase → Prop
  | .arriving | .queued | .checking | .dropped => True
  | .connecting attempt => ∀ reason, attempt.failure = some reason → reason ∈ failures
  | .retreating reason | .leaving reason => EndsAttempt failures reason
  | .finished (.error reason) =>
    EndsAttempt failures reason ∨ (abandoned = true ∧ reason = .sessionClosed)
  | _ => False

lemma CallerPhase.IsLinkless.mono {failures : List Failure} {before after : Bool}
    {phase : CallerPhase} (h : phase.IsLinkless failures before)
    (habandoned : before = true → after = true) : phase.IsLinkless failures after := by
  cases phase with
  | finished outcome =>
    cases outcome with
    | error reason => exact h.imp_right fun ⟨hbefore, hreason⟩ => ⟨habandoned hbefore, hreason⟩
    | ok => exact h
  | _ => exact h

lemma CallerPhase.IsLinkless.awaited {failures : List Failure} {abandoned : Bool}
    {phase : CallerPhase} (h : phase.IsLinkless failures abandoned) : phase.awaited = none := by
  cases phase <;> first | rfl | exact h.elim

lemma CallerPhase.isAttempting_of_isConnecting {phase : CallerPhase}
    (h : phase.isConnecting = true) : phase.isAttempting = true := by
  cases phase <;> first | rfl | cases h

lemma CallerPhase.stage_of_isOver {phase : CallerPhase} (h : phase.isOver = true) :
    phase.stage = .outside := by
  cases phase <;> first | rfl | cases h

namespace World

variable {w v w' : World} {failures : List Failure} {abandoned : Bool}

/-- Whether a move gives up a caller that connects. -/
def abandons (w : World) : Move → Bool
  | .giveUp index => w.canGiveUp index && w.callers[index]?.any (·.phase.isConnecting)
  | _ => false

/-- Whether a caller is given up while it connects. -/
def abandonsIn (w : World) : List Move → Bool
  | [] => false
  | m :: moves => w.abandons m || ((w.move m).getD w).abandonsIn moves

lemma abandons_eq_false {m : Move} (h : ∀ index, m ≠ .giveUp index) : w.abandons m = false := by
  cases m with
  | giveUp index => exact absurd rfl (h index)
  | _ => rfl

lemma abandons_giveUp {index : Nat} {c : Caller} (hc : w.callers[index]? = some c)
    (h : w.canGiveUp index = true) : w.abandons (.giveUp index) = c.phase.isConnecting := by
  simp [abandons, h, hc]

/-! ### Attempts -/

lemma beginAttempt_failure {reason : Failure} (h : w.beginAttempt.1.failure = some reason) :
    reason ∈ w.connector.failures := by
  unfold beginAttempt at h
  split at h
  · rename_i failure hconnector
    obtain rfl : failure = reason := Option.some.inj h
    simp [hconnector, Connector.failures]
  · rename_i plans hconnector
    cases plans with
    | nil => cases h
    | cons plan plans =>
      have hplan : plan.failure = some reason := h
      simp [hconnector, Connector.failures, hplan]

lemma failures_beginAttempt {reason : Failure}
    (h : reason ∈ w.beginAttempt.2.connector.failures) : reason ∈ w.connector.failures := by
  unfold beginAttempt at h
  split at h
  · exact h
  · rename_i plans hconnector
    cases plans with
    | nil => cases h
    | cons plan plans =>
      rw [hconnector]
      obtain ⟨other, hother, hfailure⟩ := List.mem_filterMap.mp h
      exact List.mem_filterMap.mpr ⟨other, List.mem_cons_of_mem _ hother, hfailure⟩

def IsAttempted (w : World) : Prop :=
  ∃ (index : Nat) (c : Caller), w.callers[index]? = some c ∧ c.phase.isAttempting = true

lemma isAttempted_of_caller {index : Nat} {c : Caller} (hc : w.callers[index]? = some c)
    (h : c.phase.isAttempting = true) : w.IsAttempted := ⟨index, c, hc, h⟩

lemma phase_or_mem_of_mem_setCaller {index : Nat} {phase : CallerPhase} {c : Caller}
    (h : c ∈ (w.setCaller index phase).callers) : c.phase = phase ∨ c ∈ w.callers := by
  obtain ⟨other, hother⟩ := List.mem_iff_getElem?.mp h
  by_cases hs : other = index
  · subst hs
    simp only [World.setCaller, List.getElem?_modify_eq, Option.map_eq_map,
      Option.map_eq_some_iff] at hother
    obtain ⟨d, _, rfl⟩ := hother
    exact .inl rfl
  · rw [getElem?_setCaller_of_ne w hs] at hother
    exact .inr (List.mem_of_getElem? hother)

lemma isAttempted_join {joined : List Caller} (hcallers : w'.callers = w.callers ++ joined)
    (hnew : ∀ c ∈ joined, c.phase = .arriving) : w'.IsAttempted ↔ w.IsAttempted := by
  constructor
  · rintro ⟨index, c, hc, hattempting⟩
    rw [hcallers, List.getElem?_append] at hc
    split at hc
    · exact ⟨index, c, hc, hattempting⟩
    · rw [hnew c (List.mem_of_getElem? hc)] at hattempting
      cases hattempting
  · rintro ⟨index, c, hc, hattempting⟩
    refine ⟨index, c, ?_, hattempting⟩
    rw [hcallers, List.getElem?_append_left (List.getElem?_eq_some_iff.mp hc).1, hc]

lemma isAttempted_setCaller {index : Nat} {c : Caller} {phase : CallerPhase}
    (hcallers : v.callers = w.callers) (hc : w.callers[index]? = some c)
    (hphase : phase.isAttempting = c.phase.isAttempting) :
    (v.setCaller index phase).IsAttempted ↔ w.IsAttempted := by
  have hv : v.callers[index]? = some c := hcallers ▸ hc
  constructor
  · rintro ⟨other, d, hd, hattempting⟩
    by_cases hs : other = index
    · subst hs
      rw [getElem?_setCaller_self hv] at hd
      cases hd
      exact ⟨other, c, hc, hphase ▸ hattempting⟩
    · rw [getElem?_setCaller_of_ne v hs, hcallers] at hd
      exact ⟨other, d, hd, hattempting⟩
  · rintro ⟨other, d, hd, hattempting⟩
    by_cases hs : other = index
    · subst hs
      obtain rfl : c = d := Option.some.inj (hc.symm.trans hd)
      exact ⟨other, _, getElem?_setCaller_self hv phase, hphase.trans hattempting⟩
    · refine ⟨other, d, ?_, hattempting⟩
      rw [getElem?_setCaller_of_ne v hs, hcallers, hd]

/-- The step of a caller that has the lock: nobody else attempts to connect. -/
lemma isAttempted_setCaller_of_inside (h : w.IsOrderly) {index : Nat} {c : Caller}
    {phase : CallerPhase} (hcallers : v.callers = w.callers) (hc : w.callers[index]? = some c)
    (hinside : c.phase.stage = .inside) :
    (v.setCaller index phase).IsAttempted ↔ phase.isAttempting = true := by
  have hv : v.callers[index]? = some c := hcallers ▸ hc
  refine ⟨?_, isAttempted_of_caller (getElem?_setCaller_self hv phase)⟩
  rintro ⟨other, d, hd, hattempting⟩
  by_cases hs : other = index
  · subst hs
    rw [getElem?_setCaller_self hv] at hd
    cases hd
    exact hattempting
  · rw [getElem?_setCaller_of_ne v hs, hcallers] at hd
    exact absurd (h.eq_of_isAttempting hc hinside hd hattempting) hs

/-! ### Without a link -/

/-- Nothing that a call leaves behind once it has a link. -/
structure Spotless (w : World) (failures : List Failure) : Prop where
  disposers : w.disposers = []
  link : w.link = none
  pending : w.requests.pending = []
  nextId : w.requests.nextId = 1
  connector : ∀ reason ∈ w.connector.failures, reason ∈ failures

lemma Spotless.callerStep (h : w.Spotless failures) {me : Agent} {phase phase' : CallerPhase}
    (hphase : phase.IsLinkless failures abandoned) (hstep : w.CallerStep me phase v phase') :
    v.Spotless failures := by
  cases hstep with
  | ask =>
    rw [askLock_eq]
    exact { h with }
  | reuse | refuse | leave =>
    rw [passLock_eq]
    exact { h with }
  | begin =>
    have hconnector : ∀ reason ∈ (w.changeState me .connecting).beginAttempt.2.connector.failures,
        reason ∈ failures := fun reason hreason =>
      h.connector reason (failures_beginAttempt (w := w.changeState me .connecting) hreason)
    obtain ⟨connector, tried, hattempt⟩ := (w.changeState me .connecting).beginAttempt_eq
    rw [hattempt] at hconnector ⊢
    exact { h with connector := hconnector }
  | enter | fail | expire | connect | retreat | withdraw => exact { h with }
  | succeed | undo | install | undone => exact hphase.elim
  | draw | enlist | shut | queue | abandon | receive => exact hphase.elim

/-- A session that has had no link, and whether a caller was given up while it connected. -/
structure Linkless (w : World) (failures : List Failure) (abandoned : Bool) : Prop where
  orderly : w.IsOrderly
  spotless : w.Spotless failures
  phases : ∀ c ∈ w.callers, c.phase.IsLinkless failures abandoned
  state : w.state = .disconnected ∨ w.state = .connecting
  connecting : w.state = .connecting ↔ abandoned = true ∨ w.IsAttempted
  alone : abandoned = true → ¬ w.IsAttempted

namespace Linkless

lemma phase (h : w.Linkless failures abandoned) {index : Nat} {c : Caller}
    (hc : w.callers[index]? = some c) : c.phase.IsLinkless failures abandoned :=
  h.phases c (List.mem_of_getElem? hc)

lemma not_abandoned (h : w.Linkless failures abandoned) (hattempted : w.IsAttempted) :
    abandoned = false := by
  by_contra habandoned
  exact h.alone (by simpa using habandoned) hattempted

lemma phases_setCaller {index : Nat} {phase : CallerPhase} {later : Bool}
    (h : w.Linkless failures abandoned) (hcallers : v.callers = w.callers)
    (hlater : abandoned = true → later = true) (hphase : phase.IsLinkless failures later) :
    ∀ c ∈ (v.setCaller index phase).callers, c.phase.IsLinkless failures later := by
  intro c hc
  rcases phase_or_mem_of_mem_setCaller hc with hset | hold
  · exact hset ▸ hphase
  · exact (h.phases c (hcallers ▸ hold)).mono hlater

lemma setCaller (h : w.Linkless failures abandoned) {index : Nat} {c : Caller}
    {phase : CallerPhase} (hc : w.callers[index]? = some c) (hcallers : v.callers = w.callers)
    (horderly : (v.setCaller index phase).IsOrderly)
    (hspotless : (v.setCaller index phase).Spotless failures) (hstate : v.state = w.state)
    (hphase : phase.IsLinkless failures abandoned)
    (hattempting : phase.isAttempting = c.phase.isAttempting) :
    (v.setCaller index phase).Linkless failures abandoned := by
  have hattempted := isAttempted_setCaller hcallers hc hattempting
  refine ⟨horderly, hspotless, h.phases_setCaller hcallers id hphase, ?_, ?_, ?_⟩
  · exact hstate ▸ h.state
  · rw [hattempted, ← h.connecting, ← hstate]
    rfl
  · rw [hattempted]
    exact h.alone

lemma callerStep (h : w.Linkless failures abandoned) {index : Nat} {c : Caller}
    {phase : CallerPhase} (hc : w.callers[index]? = some c)
    (hstep : w.CallerStep (.caller index) c.phase v phase)
    (horderly : (v.setCaller index phase).IsOrderly) (hlinks : v.links = []) :
    (v.setCaller index phase).Linkless failures abandoned := by
  have hcallers := hstep.callers
  have hphase := h.phase hc
  have hspotless : (v.setCaller index phase).Spotless failures :=
    { h.spotless.callerStep hphase hstep with }
  have hinside (hstage : c.phase.stage = .inside) :
      (v.setCaller index phase).IsAttempted ↔ phase.isAttempting = true :=
    isAttempted_setCaller_of_inside h.orderly hcallers hc hstage
  have hattempted (hattempting : c.phase.isAttempting = true) : w.IsAttempted :=
    isAttempted_of_caller hc hattempting
  have hstay := h.setCaller hc hcallers horderly hspotless
  generalize hp : c.phase = before at hstep hphase hinside hattempted hstay
  cases hstep with
  | ask => exact hstay (by rw [askLock_eq]) trivial rfl
  | enter => exact hstay rfl trivial rfl
  | reuse link hlink =>
    rw [h.spotless.link] at hlink
    cases hlink
  | refuse hstate =>
    have habandoned : abandoned = true := by
      refine (h.connecting.mp (h.state.resolve_left hstate)).resolve_right ?_
      rintro ⟨other, d, hd, hattempting⟩
      obtain rfl := h.orderly.eq_of_isAttempting hc (hp ▸ rfl) hd hattempting
      obtain rfl : c = d := Option.some.inj (hc.symm.trans hd)
      rw [hp] at hattempting
      cases hattempting
    exact hstay (by rw [passLock_eq]) (.inr ⟨habandoned, rfl⟩) rfl
  | begin hstate =>
    have hconnecting : w.state ≠ .connecting := by simp [hstate]
    obtain ⟨connector, tried, hattempt⟩ :=
      (w.changeState (.caller index) .connecting).beginAttempt_eq
    have hnow : (w.changeState (.caller index) .connecting).beginAttempt.2.state = .connecting := by
      rw [hattempt]
      rfl
    have hbegun := (hinside rfl).mpr rfl
    refine ⟨horderly, hspotless, ?_, .inr hnow, ⟨fun _ => .inr hbegun, fun _ => hnow⟩, ?_⟩
    · exact h.phases_setCaller hcallers id fun reason hreason =>
        h.spotless.connector reason
          (beginAttempt_failure (w := w.changeState (.caller index) .connecting) hreason)
    · exact fun habandoned => absurd (h.connecting.mpr (.inl habandoned)) hconnecting
  | fail attempt reason hfailure => exact hstay rfl (.inl (hphase reason hfailure)) rfl
  | expire attempt => exact hstay rfl (.inr ⟨_, rfl⟩) rfl
  | connect attempt => simp at hlinks
  | retreat reason hstate =>
    have hnone : ¬ (World.setCaller _ index (.leaving reason)).IsAttempted := fun hattempted =>
      Bool.noConfusion ((hinside rfl).mp hattempted)
    refine ⟨horderly, hspotless, h.phases_setCaller hcallers id hphase, .inl rfl, ?_,
      fun _ => hnone⟩
    rw [h.not_abandoned (hattempted rfl)]
    exact ⟨fun hs => State.noConfusion hs,
      fun hs => absurd (hs.resolve_left Bool.noConfusion) hnone⟩
  | withdraw reason hstate =>
    exact absurd (h.connecting.mpr (.inr (hattempted rfl))) hstate
  | leave reason => exact hstay (by rw [passLock_eq]) (.inl hphase) rfl
  | succeed | undo | install | undone => exact hphase.elim
  | draw | enlist | shut | queue | abandon | receive => exact hphase.elim

lemma giveUp (h : w.Linkless failures abandoned) {index : Nat} {c : Caller}
    (hc : w.callers[index]? = some c) (hcan : w.canGiveUp index = true)
    (horderly : ({ w.leaveLock (.caller index) with requests := w.requests }.setCaller index
      .dropped).IsOrderly) :
    ({ w.leaveLock (.caller index) with requests := w.requests }.setCaller index .dropped).Linkless
      failures (abandoned || w.abandons (.giveUp index)) := by
  have hcallers : { w.leaveLock (.caller index) with requests := w.requests }.callers =
      w.callers := leaveLock_callers w _
  have hstate : { w.leaveLock (.caller index) with requests := w.requests }.state = w.state :=
    leaveLock_state w _
  have hspotless : { w.leaveLock (.caller index) with requests := w.requests }.Spotless
      failures := by
    rw [leaveLock_eq, passLock_eq]
    split <;> exact { h.spotless with }
  generalize { w.leaveLock (.caller index) with requests := w.requests } = v
    at hcallers hstate hspotless horderly ⊢
  have hdropped : (v.setCaller index .dropped).Spotless failures := { hspotless with }
  rw [abandons_giveUp hc hcan]
  cases hconnecting : c.phase.isConnecting with
  | false =>
    rw [Bool.or_false]
    refine h.setCaller hc hcallers horderly hdropped hstate trivial ?_
    have hsuspended : c.phase.isSuspended = true := by
      simp only [canGiveUp, hc, Option.any_some, Bool.and_eq_true] at hcan
      exact hcan.1
    generalize c.phase = phase at hconnecting hsuspended
    cases phase with
    | connecting => cases hconnecting
    | retreating => cases hsuspended
    | _ => rfl
  | true =>
    have hattempting := CallerPhase.isAttempting_of_isConnecting hconnecting
    have hnone : ¬ (v.setCaller index .dropped).IsAttempted := fun hattempted =>
      Bool.noConfusion ((isAttempted_setCaller_of_inside h.orderly hcallers hc
        (CallerPhase.inside_of_isAttempting hattempting)).mp hattempted)
    have hnow : (v.setCaller index .dropped).state = .connecting :=
      hstate.trans (h.connecting.mpr (.inr (isAttempted_of_caller hc hattempting)))
    rw [Bool.or_true]
    exact ⟨horderly, hdropped, h.phases_setCaller hcallers (fun _ => rfl) trivial, .inr hnow,
      ⟨fun _ => .inl rfl, fun _ => hnow⟩, fun _ => hnone⟩

lemma aside (h : w.Linkless failures abandoned) (haside : w.Aside w') {m : Move}
    (hhandles : w.Handles m w') (horderly : w'.IsOrderly) (hlinks : w.links = []) :
    w'.Linkless failures abandoned := by
  obtain ⟨joined, hcallers, hnew⟩ := haside.callers
  have hstate : w'.state = w.state := haside.state.resolve_right fun hlost => hlost.1 hlinks
  have hattempted := isAttempted_join hcallers hnew
  have hrequests : w'.requests.pending = [] ∧ w'.requests.nextId = 1 := by
    rw [← h.spotless.nextId]
    exact ⟨hhandles.pending_nil h.spotless.pending, hhandles.nextId⟩
  refine ⟨horderly, ⟨?_, ?_, hrequests.1, hrequests.2, ?_⟩, ?_, ?_, ?_, ?_⟩
  · exact haside.disposers.trans h.spotless.disposers
  · rcases haside.link with hsame | hnone
    · exact hsame.trans h.spotless.link
    · exact hnone
  · rw [haside.connector]
    exact h.spotless.connector
  · intro c hc
    rw [hcallers] at hc
    rcases List.mem_append.mp hc with hold | hjoined
    · exact h.phases c hold
    · rw [hnew c hjoined]
      trivial
  · rw [hstate]
    exact h.state
  · rw [hstate, hattempted]
    exact h.connecting
  · rw [hattempted]
    exact h.alone

lemma deed (h : w.Linkless failures abandoned) {m : Move} (hdeed : w.Deed m w')
    (hm : m ≠ .dispose) (hlinks : w'.links = []) :
    w'.Linkless failures (abandoned || w.abandons m) := by
  have horderly := isOrderly_deed h.orderly hdeed
  have hnolinks : w.links = [] := by
    have hle := links_deed hdeed
    rw [hlinks] at hle
    exact List.eq_nil_of_length_eq_zero (Nat.le_zero.mp hle)
  cases hdeed with
  | caller hc hstep =>
    rw [abandons_eq_false (by simp), Bool.or_false]
    exact h.callerStep hc hstep horderly hlinks
  | disposer hd =>
    rw [h.spotless.disposers] at hd
    simp at hd
  | giveUp hc hcan =>
    rw [(h.phase hc).awaited] at horderly ⊢
    exact h.giveUp hc hcan horderly
  | spare hcannot => simpa [abandons, hcannot] using h
  | dispose => exact absurd rfl hm
  | aside haside hm hhandles =>
    rw [abandons_eq_false hm, Bool.or_false]
    exact h.aside haside hhandles horderly hnolinks

lemma state_eq (h : w.Linkless failures abandoned)
    (hover : ∀ c ∈ w.callers, c.phase.isOver = true) :
    w.state = if abandoned then .connecting else .disconnected := by
  cases abandoned with
  | true => exact h.connecting.mpr (.inl rfl)
  | false =>
    refine h.state.resolve_right fun hconnecting => ?_
    obtain ⟨index, c, hc, hattempting⟩ :=
      (h.connecting.mp hconnecting).resolve_left Bool.noConfusion
    have hinside := CallerPhase.inside_of_isAttempting hattempting
    rw [CallerPhase.stage_of_isOver (hover c (List.mem_of_getElem? hc))] at hinside
    cases hinside

lemma holder_eq_none (h : w.Linkless failures abandoned)
    (hover : ∀ c ∈ w.callers, c.phase.isOver = true) : w.holder = none := by
  refine Option.eq_none_iff_forall_not_mem.mpr fun a ha => ?_
  have hstage := (h.orderly.held a ha).1
  cases a with
  | caller index =>
    cases hc : w.callers[index]? with
    | none => simp [stage, hc] at hstage
    | some c =>
      rw [stage_caller hc] at hstage
      exact hstage (CallerPhase.stage_of_isOver (hover c (List.mem_of_getElem? hc)))
  | disposer index => simp [stage, h.spotless.disposers] at hstage
  | _ => exact hstage rfl

end Linkless

lemma linkless_start (address : String) (config : Config) (methods : MethodMap)
    (bindings : Bindings) (connector : Connector) :
    (start address config methods bindings connector).Linkless connector.failures false := by
  have hnone : ¬ (start address config methods bindings connector).IsAttempted := by
    rintro ⟨index, c, hc, -⟩
    simp [start] at hc
  refine ⟨isOrderly_start _ _ _ _ _, ⟨rfl, rfl, rfl, rfl, fun _ h => h⟩, by simp [start], .inl rfl,
    ⟨fun hs => State.noConfusion hs, fun hs => ?_⟩, fun _ => hnone⟩
  exact absurd (hs.resolve_left Bool.noConfusion) hnone

lemma links_run (w : World) (moves : List Move) : w.links.length ≤ (w.run moves).links.length :=
  run_induction (P := fun v => w.links.length ≤ v.links.length) (Nat.le_refl _)
    (fun _ _ _ hv hmove => Nat.le_trans hv (links_deed (deed_of_move hmove))) moves

lemma linkless_move (h : w.Linkless failures abandoned) {m : Move} (hm : m ≠ .dispose)
    (hlinks : ((w.move m).getD w).links = []) :
    ((w.move m).getD w).Linkless failures (abandoned || w.abandons m) := by
  cases hmove : w.move m with
  | none =>
    rw [abandons_eq_false (by rintro index rfl; cases hmove), Bool.or_false]
    exact h
  | some w' =>
    rw [hmove] at hlinks
    exact h.deed (deed_of_move hmove) hm hlinks

/-- As long as nobody disposes of the session and no link comes, an attempt that is given up is all
there is to remember. -/
theorem linkless_run {moves : List Move} (h : w.Linkless failures abandoned)
    (hdispose : .dispose ∉ moves) (hlinks : (w.run moves).links = []) :
    (w.run moves).Linkless failures (abandoned || w.abandonsIn moves) := by
  induction moves generalizing w abandoned with
  | nil => simpa [abandonsIn, run] using h
  | cons m moves ih =>
    obtain ⟨hm, hrest⟩ := not_or.mp (fun hmem => hdispose (List.mem_cons.mpr hmem))
    have hnolinks : ((w.move m).getD w).links = [] := by
      have hle : _ ≤ (w.run (m :: moves)).links.length := links_run ((w.move m).getD w) moves
      rw [hlinks] at hle
      exact List.eq_nil_of_length_eq_zero (Nat.le_zero.mp hle)
    rw [abandonsIn, ← Bool.or_assoc]
    exact ih (linkless_move h (fun hs => hm hs.symm) hnolinks) hrest hlinks

/-! ### Who has reports to make -/

/-- Whether only callers that are there have changes of state to report. -/
def IsAccounted (w : World) : Prop :=
  ∀ n ∈ w.notices, ∀ index, n.1 = .caller index → index < w.callers.length

lemma mem_notices_changeState {me : Agent} {target : State} {n : Agent × Observation}
    (h : n ∈ (w.changeState me target).notices) : n ∈ w.notices ∨ n.1 = me := by
  rcases List.mem_append.mp h with hold | hnew
  · exact .inl hold
  · exact .inr (by rw [List.mem_singleton.mp hnew])

lemma CallerStep.notices {me : Agent} {phase phase' : CallerPhase}
    (h : w.CallerStep me phase v phase') : ∀ n ∈ v.notices, n ∈ w.notices ∨ n.1 = me := by
  cases h with
  | ask =>
    rw [askLock_eq]
    exact fun _ hn => .inl hn
  | reuse | refuse | leave | install | undone =>
    rw [passLock_eq]
    exact fun _ hn => .inl hn
  | begin =>
    obtain ⟨connector, tried, hattempt⟩ := (w.changeState me .connecting).beginAttempt_eq
    rw [hattempt]
    exact fun _ hn => mem_notices_changeState hn
  | retreat | succeed => exact fun _ hn => mem_notices_changeState hn
  | enter | fail | expire | connect | withdraw | undo => exact fun _ hn => .inl hn
  | draw | enlist | shut | queue | abandon | receive => exact fun _ hn => .inl hn

lemma DisposerStep.notices {me : Agent} {phase phase' : DisposerPhase}
    (h : w.DisposerStep me phase v phase') : ∀ n ∈ v.notices, n ∈ w.notices ∨ n.1 = me := by
  cases h with
  | ask =>
    rw [askLock_eq]
    exact fun _ hn => .inl hn
  | take =>
    rw [passLock_eq]
    exact fun _ hn => .inl hn
  | close | finish => exact fun _ hn => mem_notices_changeState hn
  | pass | enter | sweep | clear | cleared | stop | join | rest => exact fun _ hn => .inl hn

lemma length_callers_setCaller (w : World) (index : Nat) (phase : CallerPhase) :
    (w.setCaller index phase).callers.length = w.callers.length := by
  simp [World.setCaller]

lemma isAccounted_deed (h : w.IsAccounted) {m : Move} (hdeed : w.Deed m w') : w'.IsAccounted := by
  intro n hn index hindex
  cases hdeed with
  | caller hc hstep =>
    rw [length_callers_setCaller, hstep.callers]
    rcases hstep.notices n hn with hold | hnew
    · exact h n hold index hindex
    · obtain rfl : _ = index := by simpa using hnew.symm.trans hindex
      exact (List.getElem?_eq_some_iff.mp hc).1
  | disposer _ hstep =>
    rw [setDisposer_callers, hstep.callers]
    rcases hstep.notices n hn with hold | hnew
    · exact h n hold index hindex
    · rw [hnew] at hindex
      cases hindex
  | @giveUp other =>
    rw [length_callers_setCaller]
    have hnotices : (w.leaveLock (.caller other)).notices = w.notices := by
      rw [leaveLock_eq, passLock_eq]
      split <;> rfl
    have hcallers := leaveLock_callers w (.caller other)
    exact hcallers ▸ h n (hnotices ▸ hn) index hindex
  | spare | dispose => exact h n hn index hindex
  | aside haside =>
    obtain ⟨joined, hcallers, _⟩ := haside.callers
    rcases haside.notices n hn with hold | hother
    · rw [hcallers, List.length_append]
      exact Nat.lt_add_right _ (h n hold index hindex)
    · exact absurd hindex (hother index)

theorem isAccounted_run (h : w.IsAccounted) (moves : List Move) : (w.run moves).IsAccounted :=
  run_induction h (fun _ _ _ hw hmove => isAccounted_deed hw (deed_of_move hmove)) moves

/-! ### The next call -/

/-- A call and the steps of its caller until it has looked at the link. -/
def newCall (w : World) (call method : String) (params : Option Json) : List Move :=
  let me := Agent.caller w.callers.length
  [.call call method params, .act me, .act me, .act me]

/-- The world with one more caller, and whoever has the lock then. -/
def withCaller (w : World) (c : Caller) (holder : Option Agent) : World :=
  { w with callers := w.callers ++ [c], holder := holder }

section NewCall

variable {c : Caller} {holder : Option Agent}

lemma setCaller_withCaller (phase : CallerPhase) :
    (w.withCaller c holder).setCaller w.callers.length phase =
      w.withCaller { c with phase := phase } holder := by
  simp [withCaller, World.setCaller, List.modify_eq_set_getElem?]

lemma step_withCaller (h : w.IsAccounted) :
    (w.withCaller c holder).step (.caller w.callers.length) =
      (w.withCaller c holder).stepCaller w.callers.length c := by
  have hquiet : w.notices.find? (·.1 = .caller w.callers.length) = none := by
    rw [List.find?_eq_none]
    intro n hn hself
    exact absurd (h n hn _ (by simpa using hself)) (Nat.lt_irrefl _)
  simp [step, withCaller, hquiet]

lemma run_newCall (h : w.IsAccounted) (hheld : w.handleHeld = true) (hfree : w.holder = none)
    (call method : String) (params : Option Json)
    (hlook : (w.withCaller { call, method, params, phase := .checking }
      (some (.caller w.callers.length))).stepCaller w.callers.length
        { call, method, params, phase := .checking } = some w') :
    w.run (w.newCall call method params) = w' := by
  have hcall : w.move (.call call method params) =
      some (w.withCaller { call, method, params } none) := by
    simp [move, hheld, withCaller, ← hfree]
  have hask : (w.withCaller { call, method, params } none).step (.caller w.callers.length) =
      some (w.withCaller { call, method, params, phase := .queued }
        (some (.caller w.callers.length))) := by
    rw [step_withCaller h]
    simp only [stepCaller, askLock, withCaller]
    exact congrArg some (setCaller_withCaller .queued)
  have henter : (w.withCaller { call, method, params, phase := .queued }
      (some (.caller w.callers.length))).step (.caller w.callers.length) =
      some (w.withCaller { call, method, params, phase := .checking }
        (some (.caller w.callers.length))) := by
    rw [step_withCaller h, stepCaller_enter rfl rfl, setCaller_withCaller]
  rw [← step_withCaller h] at hlook
  rw [newCall, run_cons hcall, run_cons (m := .act _) hask, run_cons (m := .act _) henter]
  exact run_singleton (m := .act _) hlook

lemma beginAttempt_changeState_withCaller (w : World) (c : Caller) (holder : Option Agent)
    (agent : Agent) (target : State) :
    ((w.withCaller c holder).changeState agent target).beginAttempt.1 = w.beginAttempt.1 ∧
      ((w.withCaller c holder).changeState agent target).beginAttempt.2.tried =
        w.beginAttempt.2.tried := by
  cases hconnector : w.connector <;>
    simp [beginAttempt, changeState, withCaller, hconnector]

/-- What becomes of the next call: it gets an attempt of its own, unless one was abandoned. -/
lemma run_newCall_of_state (h : w.IsAccounted) (hheld : w.handleHeld = true)
    (hfree : w.holder = none)
    (hstate : w.state = if abandoned then .connecting else .disconnected)
    (call method : String) (params : Option Json) :
    let v := w.run (w.newCall call method params)
    v.callers[w.callers.length]?.map (·.phase) =
      some (if abandoned then .finished (.error .sessionClosed) else .connecting w.beginAttempt.1) ∧
    v.tried = if abandoned then w.tried else w.beginAttempt.2.tried := by
  intro v
  cases abandoned with
  | true =>
    have hrun : v = _ := run_newCall h hheld hfree call method params
      (stepCaller_refuse rfl (by simp [withCaller, hstate]) (by simp [withCaller, hstate]))
    rw [hrun, getElem?_setCaller_self
      (by rw [passLock_callers]; exact List.getElem?_concat_length), passLock_eq]
    exact ⟨rfl, rfl⟩
  | false =>
    have hrun : v = _ := run_newCall h hheld hfree call method params
      (stepCaller_begin rfl (by simp [withCaller, hstate]))
    rw [hrun, getElem?_setCaller_self
      (by rw [beginAttempt_callers]; exact List.getElem?_concat_length),
      (w.beginAttempt_changeState_withCaller _ _ _ _).1]
    exact ⟨rfl, (w.beginAttempt_changeState_withCaller _ _ _ _).2⟩

end NewCall

/-! ### Sessions that never connect -/

/-- When every call of a session has ended before there was a link, and nobody has disposed of it,
there is no link, no request and no id is used up, and each call has ended with the failure of an
attempt or was given up. The session is disconnected and the next call gets an attempt of its own,
unless a caller was given up while it connected: then the session stays connecting, and the next
call is refused. -/
theorem failed_attempts_leave_only_the_state (address : String) (config : Config)
    (methods : MethodMap) (bindings : Bindings) (connector : Connector) (moves : List Move)
    (hdispose : .dispose ∉ moves)
    (hlinks : ((start address config methods bindings connector).run moves).links = [])
    (hover : ∀ c ∈ ((start address config methods bindings connector).run moves).callers,
      c.phase.isOver = true) :
    let w := (start address config methods bindings connector).run moves
    let abandoned := (start address config methods bindings connector).abandonsIn moves
    w.link = none ∧ w.requests.pending = [] ∧ w.requests.nextId = 1 ∧
    (w.state = if abandoned then .connecting else .disconnected) ∧
    (∀ c ∈ w.callers, c.phase = .dropped ∨ ∃ reason, c.phase = .finished (.error reason) ∧
      (EndsAttempt connector.failures reason ∨ (abandoned = true ∧ reason = .sessionClosed))) ∧
    (w.handleHeld = true → ∀ call method params,
      let v := w.run (w.newCall call method params)
      v.callers[w.callers.length]?.map (·.phase) =
        some (if abandoned then .finished (.error .sessionClosed)
          else .connecting w.beginAttempt.1) ∧
      v.tried = if abandoned then w.tried else w.beginAttempt.2.tried) := by
  intro w abandoned
  have h : w.Linkless connector.failures abandoned := by
    simpa using linkless_run (linkless_start address config methods bindings connector) hdispose
      hlinks
  have haccounted : w.IsAccounted := isAccounted_run (by simp [IsAccounted, start]) moves
  have hstate := h.state_eq hover
  refine ⟨h.spotless.link, h.spotless.pending, h.spotless.nextId, hstate, fun c hc => ?_, ?_⟩
  · have hphase := h.phases c hc
    have hdone := hover c hc
    generalize c.phase = phase at hphase hdone
    cases phase with
    | dropped => exact .inl rfl
    | finished outcome =>
      cases outcome with
      | error reason => exact .inr ⟨reason, rfl, hphase⟩
      | ok => exact hphase.elim
    | _ => cases hdone
  · exact fun hheld => run_newCall_of_state haccounted hheld (h.holder_eq_none hover) hstate

/-- A call whose attempt to connect fails at once. -/
def failedCall : List Move :=
  .call "a" "Network.enable" none :: List.replicate 8 (.act (.caller 0))

theorem failed_call_lets_the_next_one_connect :
    let w := (start "" {} {} ⟨{}, [], ⟨0, []⟩⟩ (.unreachable .connectionClosed)).run failedCall
    w.state = .disconnected ∧
      (w.run (w.newCall "b" "Network.enable" none)).callers[1]?.map (·.phase) =
        some (.connecting w.beginAttempt.1) := by
  intro w
  have hover : ∀ c ∈ w.callers, c.phase.isOver = true := by
    intro c hc
    obtain rfl := List.mem_singleton.mp hc
    rfl
  have h := failed_attempts_leave_only_the_state "" {} {} ⟨{}, [], ⟨0, []⟩⟩
    (.unreachable .connectionClosed) failedCall (by simp [failedCall]) rfl hover
  exact ⟨h.2.2.2.1, (h.2.2.2.2.2 rfl "b" "Network.enable" none).1⟩

/-- A call that is given up while its attempt to connect goes on. -/
def abandonedCall : List Move :=
  .call "a" "Network.enable" none :: List.replicate 4 (.act (.caller 0)) ++ [.giveUp 0]

/-- The session stays connecting although nobody connects, and the next call is refused. -/
theorem abandoned_call_blocks_the_session :
    let w := (start "" {} {} ⟨{}, [], ⟨0, []⟩⟩ (.scripted [{ delay := none }])).run abandonedCall
    .dispose ∉ abandonedCall ∧ w.links = [] ∧ w.callers.all (·.phase.isOver) = true ∧
      w.state = .connecting ∧
      (w.run (w.newCall "b" "Network.enable" none)).callers[1]?.map (·.phase) =
        some (.finished (.error .sessionClosed)) :=
  ⟨by simp [abandonedCall], rfl, rfl, rfl, rfl⟩

end World

end InspectorProtocol.Session
