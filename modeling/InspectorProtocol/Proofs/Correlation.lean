import InspectorProtocol.Session.Requests
import Mathlib.Data.List.Induction
import Mathlib.Data.List.Nodup
import Mathlib.Tactic.Lemma

/-!
# Correlation of requests and responses

A table of requests is used by senders, by the reader and the writer of a link, and by whoever ends
the session, in any order. A history lists every use with the table it found. What a request
receives is read off the outcomes that a use adds, so that nothing is said here about how the table
finds the request that a response is for.
-/

namespace InspectorProtocol.Session.Requests

inductive Use where
  | register
  | complete (frame : Wire.Response)
  | fail (id : Int) (reason : Failure)
  | closeAll (reason : Failure)
  /-- whoever holds the request drops it -/
  | release (id : Int)

def after (r : Requests) : Use → Requests
  | .register => r.register.2
  | .complete frame => (r.complete frame).2
  | .fail id reason => (r.fail id reason).2
  | .closeAll reason => (r.closeAll reason).2
  | .release id => r.release id

def run (uses : List Use) : Requests := uses.foldl after {}

/-- Every use with the table that it found. -/
def history : Requests → List Use → List (Requests × Use)
  | _, [] => []
  | r, use :: rest => (r, use) :: history (r.after use) rest

/-- The id that a use hands out. -/
def handedOut? (r : Requests) : Use → Option Int
  | .register => r.register.1.toOption
  | _ => none

/-- The ids handed out by a list of uses, oldest first. -/
def handedOut (uses : List Use) : List Int :=
  (history {} uses).filterMap fun (r, use) => r.handedOut? use

/-- The number of registrations, refused ones included. -/
def registrations (uses : List Use) : Nat :=
  uses.countP fun use => match use with
    | .register => true
    | _ => false

/-- Whether a use ends the wait of a request: completes it, fails it, drops it or sweeps it. -/
def Ends (r : Requests) (id : Int) : Use → Prop
  | .register => False
  | .complete frame => ∃ other, (r.complete frame).1 = .delivered other ∧ other = id
  | .fail other reason => (r.fail other reason).1 = true ∧ other = id
  | .closeAll _ => True
  | .release other => other = id

/-- The outcomes that lie ready for a request. -/
def mailbox (r : Requests) (id : Int) : List Outcome :=
  (r.outcomes.filter (·.1 = id)).map (·.2)

/-- The outcomes that a use adds for a request. -/
def received (r : Requests) (use : Use) (id : Int) : List Outcome :=
  ((r.after use).mailbox id).drop (r.mailbox id).length

/-- All outcomes that a request ever receives. -/
def receivedOf (uses : List Use) (id : Int) : List Outcome :=
  (history {} uses).flatMap fun (r, use) => r.received use id

/-- Whether a frame is for a request: it carries its id, or it carries none and the request is the
only pending one. -/
def IsFor (r : Requests) (frame : Wire.Response) (id : Int) : Prop :=
  frame.id = some id ∨ (frame.id = none ∧ r.pending = [id])

lemma run_append_singleton (uses : List Use) (use : Use) :
    run (uses ++ [use]) = (run uses).after use := by
  simp [run]

lemma history_append_singleton (r : Requests) (uses : List Use) (use : Use) :
    history r (uses ++ [use]) = history r uses ++ [(uses.foldl after r, use)] := by
  induction uses generalizing r with
  | nil => rfl
  | cons first rest ih => simp [history, ih]

lemma handedOut_append_singleton (uses : List Use) (use : Use) :
    handedOut (uses ++ [use]) = handedOut uses ++ ((run uses).handedOut? use).toList := by
  unfold handedOut
  rw [history_append_singleton, List.filterMap_append]
  change _ ++ List.filterMap _ [(run uses, use)] = _
  cases h : (run uses).handedOut? use <;> simp [h]

lemma receivedOf_append_singleton (uses : List Use) (use : Use) (id : Int) :
    receivedOf (uses ++ [use]) id = receivedOf uses id ++ (run uses).received use id := by
  unfold receivedOf
  rw [history_append_singleton, List.flatMap_append]
  simp [run]

/-! ### Single operations -/

lemma register_of_closed {r : Requests} (h : r.closed = true) :
    r.register = (.error .sessionClosed, { r with nextId := r.nextId + 1 }) := by
  simp [register, draw, h]

lemma register_of_open {r : Requests} (h : r.closed = false) :
    r.register = (.ok r.nextId,
      { r with nextId := r.nextId + 1, pending := r.pending ++ [r.nextId] }) := by
  simp [register, draw, enlist, h]

lemma settle_eq (r : Requests) (id : Int) (outcome : Outcome) :
    r.settle id outcome =
      { r with
        pending := r.pending.filter (· != id)
        outcomes := r.outcomes ++ [(id, outcome)] } := rfl

lemma foldl_send (r : Requests) (ids : List Int) (outcome : Outcome) :
    ids.foldl (fun r id => r.send id outcome) r =
      { r with outcomes := r.outcomes ++ ids.map (·, outcome) } := by
  induction ids generalizing r with
  | nil => simp
  | cons id rest ih =>
    rw [List.foldl_cons, ih]
    simp [send]

lemma closeAll_eq (r : Requests) (reason : Failure) :
    r.closeAll reason = (r.pending.length,
      { r with
        pending := []
        outcomes := r.outcomes ++ r.pending.map (·, .error reason)
        closed := true }) := by
  simp [closeAll, drain, foldl_send]

lemma addressee?_eq_some {r : Requests} {frame : Wire.Response} {id : Int} :
    r.addressee? frame = some id ↔ id ∈ r.pending ∧ r.IsFor frame id := by
  unfold addressee? IsFor
  cases hf : frame.id with
  | some carried =>
    by_cases hc : carried ∈ r.pending
    · simp only [List.contains_eq_mem, hc, decide_true, if_true, Option.some.injEq, reduceCtorEq,
        false_and, or_false]
      exact ⟨fun h => ⟨h ▸ hc, h⟩, fun h => h.2⟩
    · simp only [List.contains_eq_mem, hc, decide_false, Bool.false_eq_true, if_false,
        reduceCtorEq, Option.some.injEq, false_and, or_false, false_iff, not_and]
      intro hid hsame
      exact hc (hsame ▸ hid)
  | none =>
    match hp : r.pending with
    | [] => simp
    | [only] =>
      simp only [Option.some.injEq, List.mem_singleton, reduceCtorEq, true_and, false_or,
        List.cons.injEq, and_true]
      exact ⟨fun h => ⟨h.symm, h⟩, fun h => h.2⟩
    | first :: second :: rest => simp

lemma complete_of_addressee {r : Requests} {frame : Wire.Response} {id : Int}
    (h : r.addressee? frame = some id) :
    r.complete frame = (.delivered id, r.settle id (outcomeOf frame)) := by
  simp [complete, h]

lemma complete_of_no_addressee {r : Requests} {frame : Wire.Response}
    (h : r.addressee? frame = none) : r.complete frame = (.unrouted frame, r) := by
  simp [complete, h]

lemma complete_eq_delivered {r : Requests} {frame : Wire.Response} {id : Int} :
    (r.complete frame).1 = .delivered id ↔ id ∈ r.pending ∧ r.IsFor frame id := by
  rw [← addressee?_eq_some]
  cases h : r.addressee? frame with
  | some other => simp [complete_of_addressee h]
  | none => simp [complete_of_no_addressee h]

lemma fail_of_mem {r : Requests} {id : Int} (h : id ∈ r.pending) (reason : Failure) :
    r.fail id reason = (true, r.settle id (.error reason)) := by
  simp [fail, h]

lemma fail_of_not_mem {r : Requests} {id : Int} (h : id ∉ r.pending) (reason : Failure) :
    r.fail id reason = (false, r) := by
  simp [fail, h]

lemma mem_pending_settle {r : Requests} {id other : Int} {outcome : Outcome} :
    id ∈ (r.settle other outcome).pending ↔ id ∈ r.pending ∧ id ≠ other := by
  simp [settle_eq]

lemma mailbox_settle (r : Requests) (id other : Int) (outcome : Outcome) :
    (r.settle other outcome).mailbox id =
      r.mailbox id ++ if other = id then [outcome] else [] := by
  simp only [mailbox, settle_eq]
  by_cases h : other = id <;> simp [List.filter_append, h]

lemma mailbox_register (r : Requests) (id : Int) :
    r.register.2.mailbox id = r.mailbox id := by
  cases h : r.closed with
  | true => rw [register_of_closed h]; rfl
  | false => rw [register_of_open h]; rfl

lemma mailbox_closeAll (r : Requests) (id : Int) (reason : Failure) :
    (r.closeAll reason).2.mailbox id =
      r.mailbox id ++ List.replicate (r.pending.count id) (.error reason) := by
  have hcount : (r.pending.filter (· = id)).length = r.pending.count id := by
    rw [List.count_eq_length_filter]
    congr 1
  simp [mailbox, closeAll_eq, List.filter_append, List.filter_map, Function.comp_def, hcount]

lemma mailbox_release (r : Requests) (id other : Int) :
    (r.release other).mailbox id = if other = id then [] else r.mailbox id := by
  unfold mailbox release
  by_cases h : other = id
  · subst h
    simp [List.filter_filter]
  · simp only [List.filter_filter, h, if_false]
    congr 1
    apply List.filter_congr
    intro pair _
    by_cases hp : pair.1 = id
    · simp [hp, Ne.symm h]
    · simp [hp]

/-! ### What one use does -/

/-- After a use, exactly the requests are pending that were and whose wait it did not end, and the
one that it registered. -/
lemma mem_pending_after {r : Requests} {use : Use} {id : Int} :
    id ∈ (r.after use).pending ↔
      (id ∈ r.pending ∧ ¬r.Ends id use) ∨ r.handedOut? use = some id := by
  cases use with
  | register =>
    cases hc : r.closed with
    | true => simp [after, Ends, handedOut?, register_of_closed hc, Except.toOption]
    | false =>
      simp [after, Ends, handedOut?, register_of_open hc, Except.toOption, eq_comm]
  | complete frame =>
    cases h : r.addressee? frame with
    | some other =>
      simp only [after, Ends, handedOut?, complete_of_addressee h, mem_pending_settle,
        Routing.delivered.injEq, exists_eq_left', reduceCtorEq, or_false]
      exact and_congr_right fun _ => not_congr eq_comm
    | none => simp [after, Ends, handedOut?, complete_of_no_addressee h]
  | fail other reason =>
    by_cases h : other ∈ r.pending
    · simp only [after, Ends, handedOut?, fail_of_mem h, mem_pending_settle, true_and,
        reduceCtorEq, or_false]
      exact and_congr_right fun _ => not_congr eq_comm
    · simp [after, Ends, handedOut?, fail_of_not_mem h]
  | closeAll reason => simp [after, Ends, handedOut?, closeAll_eq]
  | release other =>
    simp only [after, Ends, handedOut?, release, List.mem_filter, bne_iff_ne, ne_eq, reduceCtorEq,
      or_false]
    exact and_congr_right fun _ => not_congr eq_comm

/-- A use adds at most one outcome for a request, and none but for a pending one whose wait it ends.
What it adds is the content of a frame that is for the request, or why the request fails. -/
lemma received_cases {r : Requests} (hn : r.pending.Nodup) (use : Use) (id : Int) :
    r.received use id = [] ∨ ∃ outcome, r.received use id = [outcome] ∧
      id ∈ r.pending ∧ r.Ends id use ∧
      ((∃ frame, use = .complete frame ∧ outcome = outcomeOf frame ∧ r.IsFor frame id) ∨
        ∃ reason, (use = .fail id reason ∨ use = .closeAll reason) ∧ outcome = .error reason) := by
  cases use with
  | register => left; simp [received, after, mailbox_register]
  | complete frame =>
    cases ha : r.addressee? frame with
    | none => left; simp [received, after, complete_of_no_addressee ha]
    | some other =>
      by_cases hs : other = id
      · subst hs
        have hfor := addressee?_eq_some.mp ha
        refine Or.inr ⟨outcomeOf frame, ?_, hfor.1, ⟨other, complete_eq_delivered.mpr hfor, rfl⟩,
          Or.inl ⟨frame, rfl, rfl, hfor.2⟩⟩
        simp [received, after, complete_of_addressee ha, mailbox_settle]
      · left
        simp [received, after, complete_of_addressee ha, mailbox_settle, hs]
  | fail other reason =>
    by_cases hm : other ∈ r.pending
    · by_cases hs : other = id
      · subst hs
        refine Or.inr ⟨.error reason, ?_, hm, ⟨by rw [fail_of_mem hm], rfl⟩,
          Or.inr ⟨reason, Or.inl rfl, rfl⟩⟩
        simp [received, after, fail_of_mem hm, mailbox_settle]
      · left
        simp [received, after, fail_of_mem hm, mailbox_settle, hs]
    · left
      simp [received, after, fail_of_not_mem hm]
  | closeAll reason =>
    have hadded : r.received (.closeAll reason) id =
        List.replicate (r.pending.count id) (.error reason) := by
      simp [received, after, mailbox_closeAll]
    by_cases hm : id ∈ r.pending
    · rw [List.count_eq_one_of_mem hn hm] at hadded
      exact Or.inr ⟨.error reason, hadded, hm, trivial, Or.inr ⟨reason, Or.inr rfl, rfl⟩⟩
    · rw [List.count_eq_zero_of_not_mem hm] at hadded
      exact Or.inl hadded
  | release other =>
    left
    by_cases hs : other = id
    · simp [received, after, mailbox_release, hs]
    · simp [received, after, mailbox_release, hs]

/-! ### What every run keeps -/

/-- What holds of a table however it is used. -/
structure Tidy (r : Requests) : Prop where
  nodup : r.pending.Nodup
  below : ∀ id ∈ r.pending, id < r.nextId
  swept : r.closed = true → r.pending = []

lemma tidy_fresh : Tidy {} := ⟨List.nodup_nil, by simp, by simp⟩

lemma handedOut?_eq_some {r : Requests} {use : Use} {id : Int} :
    r.handedOut? use = some id ↔ use = .register ∧ r.closed = false ∧ id = r.nextId := by
  cases use with
  | register =>
    cases hc : r.closed with
    | true => simp [handedOut?, register_of_closed hc, Except.toOption]
    | false => simp [handedOut?, register_of_open hc, Except.toOption, eq_comm]
  | _ => simp [handedOut?]

lemma counters_after (r : Requests) (use : Use) :
    (r.after use).nextId = r.nextId + registrations [use] ∧
      ((r.after use).closed = true ↔ r.closed = true ∨ ∃ reason, use = .closeAll reason) := by
  cases use with
  | register =>
    cases hc : r.closed with
    | true => simp [after, registrations, register_of_closed hc, hc]
    | false => simp [after, registrations, register_of_open hc, hc]
  | complete frame =>
    cases h : r.addressee? frame with
    | some other => simp [after, registrations, complete_of_addressee h, settle_eq]
    | none => simp [after, registrations, complete_of_no_addressee h]
  | fail other reason =>
    by_cases h : other ∈ r.pending
    · simp [after, registrations, fail_of_mem h, settle_eq]
    · simp [after, registrations, fail_of_not_mem h]
  | closeAll reason => simp [after, registrations, closeAll_eq]
  | release other => simp [after, registrations, release]

lemma nodup_pending_after {r : Requests} (h : r.Tidy) (use : Use) :
    (r.after use).pending.Nodup := by
  cases use with
  | register =>
    cases hc : r.closed with
    | true => simpa [after, register_of_closed hc] using h.nodup
    | false =>
      have hnew : r.nextId ∉ r.pending := fun hm => Int.lt_irrefl _ (h.below _ hm)
      simpa [after, register_of_open hc, List.nodup_append] using
        ⟨h.nodup, fun id hid => fun hsame => hnew (hsame ▸ hid)⟩
  | complete frame =>
    cases ha : r.addressee? frame with
    | some other => simpa [after, complete_of_addressee ha, settle_eq] using h.nodup.filter _
    | none => simpa [after, complete_of_no_addressee ha] using h.nodup
  | fail other reason =>
    by_cases hm : other ∈ r.pending
    · simpa [after, fail_of_mem hm, settle_eq] using h.nodup.filter _
    · simpa [after, fail_of_not_mem hm] using h.nodup
  | closeAll reason => simp [after, closeAll_eq]
  | release other => simpa [after, release] using h.nodup.filter _

lemma Tidy.after {r : Requests} (h : r.Tidy) (use : Use) : (r.after use).Tidy := by
  obtain ⟨hnext, hclosed⟩ := counters_after r use
  refine ⟨nodup_pending_after h use, ?_, ?_⟩
  · intro id hid
    rw [hnext]
    rcases mem_pending_after.mp hid with ⟨hold, _⟩ | hnew
    · have hlt := h.below id hold
      omega
    · obtain ⟨rfl, _, rfl⟩ := handedOut?_eq_some.mp hnew
      simp only [registrations, List.countP_singleton, if_true]
      omega
  · intro hc
    rw [List.eq_nil_iff_forall_not_mem]
    intro id hid
    rcases mem_pending_after.mp hid with ⟨hold, hgoes⟩ | hnew
    · rcases hclosed.mp hc with hwas | ⟨reason, rfl⟩
      · simp [h.swept hwas] at hold
      · exact hgoes trivial
    · obtain ⟨rfl, hopen, _⟩ := handedOut?_eq_some.mp hnew
      rcases hclosed.mp hc with hwas | ⟨_, hsame⟩
      · simp [hopen] at hwas
      · cases hsame

lemma tidy_run (uses : List Use) : (run uses).Tidy := by
  induction uses using List.reverseRecOn with
  | nil => exact tidy_fresh
  | append_singleton uses use ih =>
    rw [run_append_singleton]
    exact ih.after use

lemma nextId_run (uses : List Use) : (run uses).nextId = 1 + registrations uses := by
  induction uses using List.reverseRecOn with
  | nil => rfl
  | append_singleton uses use ih =>
    rw [run_append_singleton, (counters_after _ use).1, ih]
    simp only [registrations, List.countP_append]
    omega

lemma closed_run (uses : List Use) :
    (run uses).closed = true ↔ ∃ reason, .closeAll reason ∈ uses := by
  induction uses using List.reverseRecOn with
  | nil => simp [run]
  | append_singleton uses use ih =>
    rw [run_append_singleton, (counters_after _ use).2, ih]
    simp [exists_or, eq_comm]

lemma handedOut_bounds (uses : List Use) :
    ∀ id ∈ handedOut uses, 1 ≤ id ∧ id < (run uses).nextId := by
  induction uses using List.reverseRecOn with
  | nil => simp [handedOut, history]
  | append_singleton uses use ih =>
    intro id hid
    rw [run_append_singleton, (counters_after _ use).1]
    rw [handedOut_append_singleton, List.mem_append, Option.mem_toList] at hid
    rcases hid with hold | hnew
    · have hbounds := ih id hold
      omega
    · obtain ⟨rfl, _, rfl⟩ := handedOut?_eq_some.mp hnew
      have hnext := nextId_run uses
      simp only [registrations, List.countP_singleton, if_true]
      omega

lemma handedOut_increasing (uses : List Use) : (handedOut uses).Pairwise (· < ·) := by
  induction uses using List.reverseRecOn with
  | nil => simp [handedOut, history]
  | append_singleton uses use ih =>
    rw [handedOut_append_singleton, List.pairwise_append]
    refine ⟨ih, ?_, ?_⟩
    · cases (run uses).handedOut? use <;> simp
    · intro earlier hearlier id hid
      obtain ⟨_, _, rfl⟩ := handedOut?_eq_some.mp (Option.mem_toList.mp hid)
      exact (handedOut_bounds uses earlier hearlier).2

lemma receivedOf_bounds (uses : List Use) (id : Int) :
    (receivedOf uses id).length ≤ 1 ∧
      (id ∈ (run uses).pending ∨ (run uses).nextId ≤ id → receivedOf uses id = []) := by
  induction uses using List.reverseRecOn with
  | nil => simp [receivedOf, history]
  | append_singleton uses use ih =>
    have htidy := tidy_run uses
    rw [run_append_singleton, receivedOf_append_singleton]
    rcases received_cases htidy.nodup use id with hnone | ⟨outcome, hone, hpending, hends, _⟩
    · rw [hnone, List.append_nil]
      refine ⟨ih.1, fun hlater => ih.2 ?_⟩
      rcases hlater with hwaits | hbeyond
      · rcases mem_pending_after.mp hwaits with ⟨hold, _⟩ | hnew
        · exact Or.inl hold
        · obtain ⟨_, _, rfl⟩ := handedOut?_eq_some.mp hnew
          exact Or.inr (Int.le_refl _)
      · rw [(counters_after _ use).1] at hbeyond
        right
        omega
    · rw [ih.2 (Or.inl hpending), hone, List.nil_append]
      refine ⟨Nat.le_refl 1, fun hlater => ?_⟩
      have hbelow := htidy.below id hpending
      rcases hlater with hwaits | hbeyond
      · rcases mem_pending_after.mp hwaits with ⟨_, hstays⟩ | hnew
        · exact absurd hends hstays
        · obtain ⟨_, _, hsame⟩ := handedOut?_eq_some.mp hnew
          omega
      · rw [(counters_after _ use).1] at hbeyond
        omega

lemma mem_pending_run {uses : List Use} {id : Int} :
    id ∈ (run uses).pending ↔ ∃ earlier r use later,
      history {} uses = earlier ++ (r, use) :: later ∧ r.handedOut? use = some id ∧
        ∀ entry ∈ later, ¬entry.1.Ends id entry.2 := by
  induction uses using List.reverseRecOn with
  | nil => simp [run, history]
  | append_singleton uses use ih =>
    have hhistory : history {} (uses ++ [use]) = history {} uses ++ [(run uses, use)] :=
      history_append_singleton {} uses use
    rw [run_append_singleton, mem_pending_after, ih, hhistory]
    constructor
    · rintro (⟨⟨earlier, r, first, later, heq, hgives, hstays⟩, hnow⟩ | hnew)
      · refine ⟨earlier, r, first, later ++ [(run uses, use)], by simp [heq], hgives, ?_⟩
        intro entry hentry
        rcases List.mem_append.mp hentry with hlater | hlast
        · exact hstays entry hlater
        · rw [List.mem_singleton.mp hlast]
          exact hnow
      · exact ⟨history {} uses, run uses, use, [], rfl, hnew, by simp⟩
    · rintro ⟨earlier, r, first, later, heq, hgives, hstays⟩
      rcases List.eq_nil_or_concat later with rfl | ⟨front, last, rfl⟩
      · right
        obtain ⟨_, hlast⟩ := List.append_inj' heq rfl
        obtain ⟨rfl, rfl⟩ : run uses = r ∧ use = first := by simpa using hlast
        exact hgives
      · left
        rw [List.concat_eq_append] at heq hstays
        have hsplit : history {} uses ++ [(run uses, use)] =
            (earlier ++ (r, first) :: front) ++ [last] := by simp [heq]
        obtain ⟨hfront, hlast⟩ := List.append_inj' hsplit rfl
        have hlast : (run uses, use) = last := by simpa using hlast
        refine ⟨⟨earlier, r, first, front, hfront, hgives, ?_⟩, ?_⟩
        · intro entry hentry
          exact hstays entry (List.mem_append_left _ hentry)
        · have hends := hstays last (by simp)
          rwa [← hlast] at hends

/-- However a table is used, ids are handed out in increasing order and, being bounded by the number
of registrations, within 64 bits as long as these are. A request receives at most one outcome, and
the content of a response only if the frame carries its id, or no id while it is the only pending
request. A frame for no pending request comes back as it is and changes nothing. Pending are exactly
the requests that were registered and since then neither completed, failed, dropped nor swept; once
all were swept none is pending again. -/
theorem responses_reach_their_requests (uses : List Use) :
    (handedOut uses).Pairwise (· < ·) ∧
    (∀ id ∈ handedOut uses, 1 ≤ id ∧ id ≤ registrations uses) ∧
    (∀ id, (receivedOf uses id).length ≤ 1) ∧
    (∀ use id outcome, outcome ∈ (run uses).received use id →
      (∃ frame, use = .complete frame ∧ outcome = outcomeOf frame ∧
        id ∈ (run uses).pending ∧ (run uses).IsFor frame id) ∨
      ∃ reason, (use = .fail id reason ∨ use = .closeAll reason) ∧ outcome = .error reason) ∧
    (∀ frame id, ((run uses).complete frame).1 = .delivered id ↔
      id ∈ (run uses).pending ∧ (run uses).IsFor frame id) ∧
    (∀ frame, (∀ id ∈ (run uses).pending, ¬(run uses).IsFor frame id) →
      (run uses).complete frame = (.unrouted frame, run uses)) ∧
    (∀ id, id ∈ (run uses).pending ↔ ∃ earlier r use later,
      history {} uses = earlier ++ (r, use) :: later ∧ r.handedOut? use = some id ∧
        ∀ entry ∈ later, ¬entry.1.Ends id entry.2) ∧
    (run uses).pending.Nodup ∧
    ((∃ reason, .closeAll reason ∈ uses) → (run uses).pending = []) := by
  have htidy := tidy_run uses
  refine ⟨handedOut_increasing uses, ?_, fun id => (receivedOf_bounds uses id).1, ?_,
    fun frame id => complete_eq_delivered, ?_, fun id => mem_pending_run, htidy.nodup, ?_⟩
  · intro id hid
    have hbounds := handedOut_bounds uses id hid
    have hnext := nextId_run uses
    omega
  · intro use id outcome hreceived
    rcases received_cases htidy.nodup use id with hnone | ⟨only, hone, hpending, _, hcontent⟩
    · simp [hnone] at hreceived
    · obtain rfl : outcome = only := by simpa [hone] using hreceived
      rcases hcontent with ⟨frame, huse, hout, hfor⟩ | hreason
      · exact Or.inl ⟨frame, huse, hout, hpending, hfor⟩
      · exact Or.inr hreason
  · intro frame hnobody
    apply complete_of_no_addressee
    rw [Option.eq_none_iff_forall_ne_some]
    intro id haddressee
    obtain ⟨hpending, hfor⟩ := addressee?_eq_some.mp haddressee
    exact hnobody id hpending hfor
  · intro hclosed
    exact htidy.swept ((closed_run uses).mpr hclosed)

end InspectorProtocol.Session.Requests
