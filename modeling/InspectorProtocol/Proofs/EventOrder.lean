import InspectorProtocol.Proofs.Progress

/-!
# The order of events

The reader classifies texts, the deliverer hands one event after another to the handlers, and
handlers take as long as they like. What concerns events leaves marks: an event is classified, its
delivery begins, its delivery ends. Every move turns the post of a link, that is the events that
wait and the one whose handlers run, in one of a few ways, and from these the order of the marks
follows. The reader looks at no part of this but whether the deliverer is gone.
-/

namespace InspectorProtocol.Session

inductive Mark where
  /-- the reader has found a text to be an event -/
  | classified (event : Wire.Event)
  /-- an event is handed to the handlers -/
  | begun (event : Wire.Event)
  /-- the handlers of an event are done -/
  | finished (event : Wire.Event)

namespace Mark

def classified? : Mark → Option Wire.Event
  | .classified event => some event
  | _ => none

def begun? : Mark → Option Wire.Event
  | .begun event => some event
  | _ => none

def finished? : Mark → Option Wire.Event
  | .finished event => some event
  | _ => none

/-- The events that were classified, in order. -/
def classifiedOf (marks : List Mark) : List Wire.Event := marks.filterMap classified?

/-- The events that were handed to the handlers, in order. -/
def begunOf (marks : List Mark) : List Wire.Event := marks.filterMap begun?

/-- The events whose handlers came to an end, in order. -/
def finishedOf (marks : List Mark) : List Wire.Event := marks.filterMap finished?

lemma classifiedOf_append_singleton (marks : List Mark) (mark : Mark) :
    classifiedOf (marks ++ [mark]) = classifiedOf marks ++ mark.classified?.toList := by
  cases mark <;> simp [classifiedOf, classified?, List.filterMap_cons]

lemma begunOf_append_singleton (marks : List Mark) (mark : Mark) :
    begunOf (marks ++ [mark]) = begunOf marks ++ mark.begun?.toList := by
  cases mark <;> simp [begunOf, begun?, List.filterMap_cons]

lemma finishedOf_append_singleton (marks : List Mark) (mark : Mark) :
    finishedOf (marks ++ [mark]) = finishedOf marks ++ mark.finished?.toList := by
  cases mark <;> simp [finishedOf, finished?, List.filterMap_cons]

end Mark

/-- What a reader in a phase classifies as an event when it goes on. -/
def ReaderPhase.event? : ReaderPhase → Option Wire.Event
  | .routing text =>
    match Wire.classify text with
    | .event event => some event
    | _ => none
  | _ => none

namespace Link

/-- The reader leaves a text that is an event. -/
def readerMarks (l l' : Link) : List Mark :=
  match l'.reader with
  | .routing _ => []
  | _ => (l.reader.event?.map .classified).toList

/-- The deliverer begins to wait for handlers. -/
def delivererMarks (l l' : Link) : List Mark :=
  match l.deliverer, l'.deliverer with
  | .idle, .waiting => (l'.running.map .begun).toList
  | _, _ => []

/-- Handlers that ran are done. -/
def poolMarks (l l' : Link) : List Mark :=
  match l.running, l'.running with
  | some event, none => [.finished event]
  | _, _ => []

/-- What a step from one state of a link to another has to do with events. -/
def marks (l l' : Link) : List Mark :=
  l.readerMarks l' ++ l.delivererMarks l' ++ l.poolMarks l'

lemma readerMarks_of_eq {l l' : Link} (h : l'.reader = l.reader) : l.readerMarks l' = [] := by
  rw [readerMarks, h]
  cases l.reader <;> rfl

lemma readerMarks_of_not_event {l l' : Link} (h : l.reader.event? = none) :
    l.readerMarks l' = [] := by
  rw [readerMarks, h]
  cases l'.reader <;> rfl

lemma delivererMarks_of_eq {l l' : Link} (h : l'.deliverer = l.deliverer) :
    l.delivererMarks l' = [] := by
  rw [delivererMarks, h]
  cases l.deliverer <;> rfl

lemma delivererMarks_of_ended {l l' : Link} (h : l'.deliverer = .ended) :
    l.delivererMarks l' = [] := by
  rw [delivererMarks, h]
  cases l.deliverer <;> rfl

lemma poolMarks_of_some {l l' : Link} {event : Wire.Event} (h : l'.running = some event) :
    l.poolMarks l' = [] := by
  rw [poolMarks, h]
  cases l.running <;> rfl

lemma poolMarks_of_eq {l l' : Link} (h : l'.running = l.running) : l.poolMarks l' = [] := by
  rw [poolMarks, h]
  cases l.running <;> rfl

end Link

/-- The events of a link that were classified and not handed over, the one that the handlers have,
and how far the deliverer is. -/
structure Post where
  events : List Wire.Event
  running : Option Wire.Event
  deliverer : DelivererPhase

def Link.post (l : Link) : Post := ⟨l.events, l.running, l.deliverer⟩

/-- The ways in which the post of a link can turn, with the marks they leave. -/
inductive Post.Turn : Post → List Mark → Post → Prop where
  | calm (p : Post) : Turn p [] p
  | queue (events : List Wire.Event) (running : Option Wire.Event) (deliverer : DelivererPhase)
      (event : Wire.Event) (h : deliverer ≠ .ended) :
      Turn ⟨events, running, deliverer⟩ [.classified event] ⟨events ++ [event], running, deliverer⟩
  /-- an event that comes after the deliverer is gone is lost -/
  | lose (events : List Wire.Event) (running : Option Wire.Event) (event : Wire.Event) :
      Turn ⟨events, running, .ended⟩ [.classified event] ⟨events, running, .ended⟩
  | begin (event : Wire.Event) (rest : List Wire.Event) (running : Option Wire.Event) :
      Turn ⟨event :: rest, running, .idle⟩ [.begun event] ⟨rest, some event, .waiting⟩
  | finish (events : List Wire.Event) (event : Wire.Event) (deliverer : DelivererPhase) :
      Turn ⟨events, some event, deliverer⟩ [.finished event] ⟨events, none, deliverer⟩
  | resume (events : List Wire.Event) : Turn ⟨events, none, .waiting⟩ [] ⟨events, none, .idle⟩
  | stop (events : List Wire.Event) (running : Option Wire.Event) (deliverer : DelivererPhase) :
      Turn ⟨events, running, deliverer⟩ [] ⟨events, running, .ended⟩

/-- The post of a link after the marks that its events have left. -/
structure Post.Keeps (p : Post) (marks : List Mark) : Prop where
  /-- nothing is lost while there is a deliverer -/
  waiting : ∃ lost, Mark.classifiedOf marks = Mark.begunOf marks ++ p.events ++ lost ∧
    (p.deliverer ≠ .ended → lost = [])
  running : Mark.begunOf marks = Mark.finishedOf marks ++ p.running.toList
  idle : p.deliverer = .idle → p.running = none
  /-- a delivery begins only when all before it have ended -/
  apart : ∀ before event after, marks = before ++ .begun event :: after →
    Mark.begunOf before = Mark.finishedOf before

namespace Post.Keeps

variable {p p' : Post} {marks : List Mark}

lemma add (h : p.Keeps marks) {mark : Mark}
    (hwaiting : ∀ lost, (p.deliverer ≠ .ended → lost = []) → ∃ lost',
      p.events ++ lost ++ mark.classified?.toList = mark.begun?.toList ++ p'.events ++ lost' ∧
        (p'.deliverer ≠ .ended → lost' = []))
    (hrunning : p.running.toList ++ mark.begun?.toList =
      mark.finished?.toList ++ p'.running.toList)
    (hidle : p'.deliverer = .idle → p'.running = none)
    (hbegin : ∀ event, mark = .begun event → p.running = none) : p'.Keeps (marks ++ [mark]) := by
  obtain ⟨lost, hclassified, hlost⟩ := h.waiting
  obtain ⟨lost', hmoved, hlost'⟩ := hwaiting lost hlost
  refine ⟨⟨lost', ?_, hlost'⟩, ?_, hidle, fun before event after heq => ?_⟩
  · rw [Mark.classifiedOf_append_singleton, Mark.begunOf_append_singleton, hclassified]
    simpa only [List.append_assoc] using congrArg (Mark.begunOf marks ++ ·) hmoved
  · rw [Mark.begunOf_append_singleton, Mark.finishedOf_append_singleton, h.running]
    simpa only [List.append_assoc] using congrArg (Mark.finishedOf marks ++ ·) hrunning
  · induction after using List.reverseRecOn with
    | nil =>
      obtain ⟨rfl, hlast⟩ := List.append_inj' heq rfl
      simpa [hbegin event (List.cons.inj hlast).1] using h.running
    | append_singleton later x _ =>
      have hcut : marks ++ [mark] = (before ++ .begun event :: later) ++ [x] := by simp [heq]
      exact h.apart before event later (List.append_inj' hcut rfl).1

lemma turn (h : p.Keeps marks) {added : List Mark} (ht : p.Turn added p') :
    p'.Keeps (marks ++ added) := by
  cases ht with
  | calm => simpa using h
  | queue events running deliverer event hpresent =>
    refine h.add (fun lost hlost => ⟨[], ?_, fun _ => rfl⟩) ?_ h.idle (by simp)
    · simp [hlost hpresent, Mark.classified?, Mark.begun?]
    · simp [Mark.begun?, Mark.finished?]
  | lose events running event =>
    refine h.add (fun lost _ => ⟨lost ++ [event], ?_, by simp⟩) ?_ h.idle (by simp)
    · simp [Mark.classified?, Mark.begun?]
    · simp [Mark.begun?, Mark.finished?]
  | begin event rest running =>
    obtain rfl : running = none := h.idle rfl
    refine h.add (fun lost hlost => ⟨[], ?_, fun _ => rfl⟩) ?_ (by simp) (by simp)
    · simp [hlost, Mark.classified?, Mark.begun?]
    · simp [Mark.begun?, Mark.finished?]
  | finish events event deliverer =>
    refine h.add (fun lost hlost => ⟨lost, ?_, hlost⟩) ?_ (by simp) (by simp)
    · simp [Mark.classified?, Mark.begun?]
    · simp [Mark.begun?, Mark.finished?]
  | resume events =>
    obtain ⟨lost, hclassified, hlost⟩ := h.waiting
    rw [List.append_nil]
    exact ⟨⟨lost, hclassified, fun _ => hlost (by simp)⟩, h.running, fun _ => rfl, h.apart⟩
  | stop events running deliverer =>
    obtain ⟨lost, hclassified, _⟩ := h.waiting
    rw [List.append_nil]
    exact ⟨⟨lost, hclassified, by simp⟩, h.running, by simp, h.apart⟩

end Post.Keeps

/-! ### Steps that leave no marks -/

namespace Link

variable {l l' : Link}

/-- The post has not changed, and the reader has not classified an event. -/
structure Calm (l l' : Link) : Prop where
  reader : l'.reader = l.reader ∨ l.reader.event? = none
  post : l'.post = l.post

lemma Calm.refl (l : Link) : l.Calm l := ⟨.inl rfl, rfl⟩

lemma Calm.turn (h : l.Calm l') : l.post.Turn (l.marks l') l'.post := by
  obtain ⟨_, hrunning, hdeliverer⟩ : l'.events = l.events ∧ l'.running = l.running ∧
      l'.deliverer = l.deliverer := by
    simpa [Link.post] using h.post
  have hreader : l.readerMarks l' = [] :=
    h.reader.elim readerMarks_of_eq readerMarks_of_not_event
  rw [marks, hreader, delivererMarks_of_eq hdeliverer, poolMarks_of_eq hrunning, h.post]
  exact .calm _

end Link

namespace World

/-- A link of a session; one that was not started yet is as it will be then. -/
def linkAt (w : World) (index : Nat) : Link := w.links[index]?.getD {}

/-- The marks that a step leaves on all links. -/
def marksOfStep (w w' : World) : List Mark :=
  (List.range w'.links.length).flatMap fun index => (w.linkAt index).marks (w'.linkAt index)

/-- The marks that a list of moves leaves. -/
def marks (w : World) : List Move → List Mark
  | [] => []
  | m :: moves =>
    match w.move m with
    | none => w.marks moves
    | some w' => w.marksOfStep w' ++ w'.marks moves

/-! ### What the helpers do to links -/

section Frame

variable (w : World)

@[simp] lemma setCaller_links (index : Nat) (phase : CallerPhase) :
    (w.setCaller index phase).links = w.links := rfl

@[simp] lemma failCaller_links (index : Nat) (reason : Failure) :
    (w.failCaller index reason).links = w.links := rfl

@[simp] lemma setDisposer_links (index : Nat) (phase : DisposerPhase) :
    (w.setDisposer index phase).links = w.links := rfl

@[simp] lemma askLock_links (agent : Agent) : (w.askLock agent).links = w.links := by
  rw [askLock_eq]

@[simp] lemma passLock_links : w.passLock.links = w.links := by
  rw [passLock_eq]

@[simp] lemma beginAttempt_links : w.beginAttempt.2.links = w.links := by
  obtain ⟨connector, tried, hattempt⟩ := w.beginAttempt_eq
  rw [hattempt]

lemma changeLink_changeLink (index : Nat) (first second : Link → Link) :
    (w.changeLink index first).changeLink index second = w.changeLink index (second ∘ first) := by
  simp [changeLink, List.modify_modify_eq]

lemma linkAt_of_getElem? {w : World} {index : Nat} {l : Link} (h : w.links[index]? = some l) :
    w.linkAt index = l := by
  rw [linkAt, h]
  rfl

lemma linkAt_congr {w w' : World} (h : w'.links = w.links) (index : Nat) :
    w'.linkAt index = w.linkAt index := by
  rw [linkAt, linkAt, h]

lemma linkAt_changeLink {w : World} {index : Nat} {l : Link} (h : w.links[index]? = some l)
    (change : Link → Link) : (w.changeLink index change).linkAt index = change l := by
  simp [linkAt, changeLink, h]

lemma linkAt_changeLink_of_ne (w : World) {index other : Nat} (h : other ≠ index)
    (change : Link → Link) : (w.changeLink index change).linkAt other = w.linkAt other := by
  simp [linkAt, changeLink, Ne.symm h]

end Frame

/-! ### The turn of each move -/

/-- Every link takes a turn, and the marks are those that the turn leaves. -/
def EventTurns (w w' : World) : Prop := ∀ index,
  (w.linkAt index).post.Turn ((w.linkAt index).marks (w'.linkAt index)) (w'.linkAt index).post

lemma eventTurns_of_links {w w' : World} (h : w'.links = w.links) : w.EventTurns w' := by
  intro index
  rw [linkAt_congr h]
  exact (Link.Calm.refl _).turn

lemma eventTurns_of_start {w w' : World} (h : w'.links = w.links ++ [({} : Link)]) :
    w.EventTurns w' := by
  intro index
  have hsame : w'.linkAt index = w.linkAt index := by
    rw [linkAt, linkAt, h, List.getElem?_append]
    split
    · rfl
    · rename_i hbeyond
      rw [List.getElem?_eq_none (Nat.le_of_not_lt hbeyond)]
      cases index - w.links.length <;> rfl
  rw [hsame]
  exact (Link.Calm.refl _).turn

lemma eventTurns_changeLink {w v : World} {index : Nat} {l : Link} {change : Link → Link}
    (hl : w.links[index]? = some l) (hv : v.links = w.links)
    (h : l.post.Turn (l.marks (change l)) (change l).post) :
    w.EventTurns (v.changeLink index change) := by
  intro other
  by_cases hs : other = index
  · subst hs
    rw [linkAt_of_getElem? hl, linkAt_changeLink (by rw [hv, hl])]
    exact h
  · rw [linkAt_changeLink_of_ne v hs, linkAt_congr hv]
    exact (Link.Calm.refl _).turn

lemma eventTurns_of_calm {w v : World} {index : Nat} {change : Link → Link}
    (hv : v.links = w.links) (h : ∀ l : Link, l.Calm (change l)) :
    w.EventTurns (v.changeLink index change) := by
  cases hl : w.links[index]? with
  | some l => exact eventTurns_changeLink hl hv (h l).turn
  | none =>
    refine eventTurns_of_links ?_
    have hbeyond : w.links.length ≤ index := List.getElem?_eq_none_iff.mp hl
    simp [changeLink, hv, List.modify_eq_self hbeyond]

lemma eventTurns_stepCaller {w w' : World} {index : Nat} {c : Caller}
    (h : w.stepCaller index c = some w') : w.EventTurns w' := by
  obtain ⟨v, phase, rfl, hstep⟩ := stepCaller_cases h
  generalize c.phase = before at hstep
  cases hstep with
  | connect => exact eventTurns_of_start rfl
  | undo | queue => exact eventTurns_of_calm rfl fun _ => ⟨.inl rfl, rfl⟩
  | ask | reuse | refuse | begin | leave | install | undone =>
    exact eventTurns_of_links (by simp [changeState])
  | enter | fail | expire | retreat | withdraw | succeed => exact eventTurns_of_links rfl
  | draw | enlist | shut | abandon | receive => exact eventTurns_of_links rfl

lemma eventTurns_dropCaller (w : World) (index : Nat) : w.EventTurns (w.dropCaller index) := by
  refine eventTurns_of_links ?_
  unfold dropCaller
  split
  · rfl
  · split
    · rfl
    · dsimp only
      split <;> simp [leaveLock_links]

lemma eventTurns_stepDisposer {w w' : World} {index : Nat} {phase : DisposerPhase}
    (h : w.stepDisposer index phase = some w') : w.EventTurns w' := by
  obtain ⟨v, phase', rfl, hstep⟩ := stepDisposer_cases h
  cases hstep with
  | stop link => exact eventTurns_of_calm rfl fun _ => ⟨.inl rfl, rfl⟩
  | ask | take => exact eventTurns_of_links (by simp)
  | close | pass | enter | sweep | clear | cleared | join | finish | rest =>
    exact eventTurns_of_links rfl

lemma eventTurns_stepRelease {w w' : World} (h : w.stepRelease = some w') : w.EventTurns w' := by
  cases hrelease : w.release with
  | held =>
    simp only [stepRelease, hrelease] at h
    split at h
    · cases h
    · split at h
      · cases h
        exact eventTurns_of_calm rfl fun _ => ⟨.inl rfl, rfl⟩
      · cases h
        exact eventTurns_of_links rfl
  | sweeping =>
    simp only [stepRelease, hrelease, Option.some.injEq] at h
    subst h
    exact eventTurns_of_links rfl
  | clearing ids =>
    cases ids <;>
    · simp only [stepRelease, hrelease, Option.some.injEq] at h
      subst h
      exact eventTurns_of_links rfl
  | released => simp [stepRelease, hrelease] at h

lemma eventTurns_takeCommand {w w' : World} {index : Nat} {l : Link}
    (h : w.takeCommand index l = some w') : w.EventTurns w' := by
  unfold takeCommand at h
  split at h
  · cases h
    exact eventTurns_of_calm rfl fun _ => ⟨.inl rfl, rfl⟩
  · cases h

lemma eventTurns_stepWriter {w w' : World} {index : Nat} {l : Link}
    (h : w.stepWriter index l = some w') : w.EventTurns w' := by
  have hwriter {v : World} (hv : v.links = w.links) (phase : WriterPhase) :
      w.EventTurns (v.setWriter index phase) := eventTurns_of_calm hv fun _ => ⟨.inl rfl, rfl⟩
  cases hphase : l.writer with
  | idle =>
    simp only [stepWriter, hphase] at h
    split at h
    · cases h
      exact hwriter rfl _
    · exact eventTurns_takeCommand h
  | writing id text =>
    simp only [stepWriter, hphase] at h
    split at h
    · cases h
      exact eventTurns_of_calm rfl fun _ => ⟨.inl rfl, rfl⟩
    · cases h
      exact hwriter rfl _
  | failing id reason =>
    simp only [stepWriter, hphase] at h
    split at h
    · cases h
      exact hwriter rfl _
    · cases h
      exact hwriter rfl _
  | clearing ids =>
    cases ids <;>
    · simp only [stepWriter, hphase, Option.some.injEq] at h
      subst h
      exact hwriter rfl _
  | rejecting | sweeping =>
    simp only [stepWriter, hphase, Option.some.injEq] at h
    subst h
    exact hwriter rfl _
  | terminating =>
    simp only [stepWriter, hphase, Option.some.injEq] at h
    subst h
    exact hwriter (w.shift_links _ _ _) _
  | stopping =>
    simp only [stepWriter, hphase, Option.some.injEq] at h
    subst h
    rw [setWriter, stopLink, changeLink_changeLink]
    exact eventTurns_of_calm rfl fun _ => ⟨.inl rfl, rfl⟩
  | closing =>
    simp only [stepWriter, hphase, Option.some.injEq] at h
    subst h
    exact eventTurns_of_calm rfl fun _ => ⟨.inl rfl, rfl⟩
  | ended => simp [stepWriter, hphase] at h

lemma eventTurns_takeArrival {w w' : World} {index : Nat} {l : Link}
    (hl : w.links[index]? = some l) (h : w.takeArrival index l = some w') : w.EventTurns w' := by
  unfold takeArrival at h
  split at h
  · rename_i hidle _
    cases h
    exact eventTurns_changeLink hl rfl (Link.Calm.turn ⟨.inr (by rw [hidle]; rfl), rfl⟩)
  · cases h

lemma eventTurns_setReader {w v : World} {index : Nat} {l : Link} (hl : w.links[index]? = some l)
    (hv : v.links = w.links) (h : l.reader.event? = none) (phase : ReaderPhase) :
    w.EventTurns (v.setReader index phase) :=
  eventTurns_changeLink hl hv (Link.Calm.turn ⟨.inr h, rfl⟩)

lemma marks_of_event {l l' : Link} {event : Wire.Event} (h : l.reader.event? = some event)
    (hreader : l'.reader = .idle ∨ l'.reader = .ended) (hrunning : l'.running = l.running)
    (hdeliverer : l'.deliverer = l.deliverer) : l.marks l' = [.classified event] := by
  rw [Link.marks, Link.delivererMarks_of_eq hdeliverer, Link.poolMarks_of_eq hrunning,
    Link.readerMarks, h]
  rcases hreader with hreader | hreader <;> simp [hreader]

lemma eventTurns_stepReader {w w' : World} {index : Nat} {l : Link}
    (hl : w.links[index]? = some l) (h : w.stepReader index l = some w') : w.EventTurns w' := by
  cases hphase : l.reader with
  | idle =>
    have hcalm : l.reader.event? = none := by rw [hphase]; rfl
    simp only [stepReader, hphase] at h
    split at h
    · cases h
      exact eventTurns_setReader hl rfl hcalm _
    · exact eventTurns_takeArrival hl h
  | routing text =>
    simp only [stepReader, hphase] at h
    have hevent : l.reader.event? = match Wire.classify text with
        | .event event => some event
        | _ => none := by
      rw [hphase]
      rfl
    split at h
    · rename_i frame hclassify
      rw [hclassify] at hevent
      split at h <;> cases h <;> exact eventTurns_setReader hl rfl hevent _
    · rename_i event hclassify
      rw [hclassify] at hevent
      split at h
      · rename_i hended
        obtain hended : l.deliverer = .ended := by simpa using hended
        cases h
        refine eventTurns_changeLink hl rfl ?_
        have hmarks : l.marks { l with reader := .ended } = [.classified event] :=
          marks_of_event hevent (.inr rfl) rfl rfl
        rw [hmarks, Link.post, Link.post, hended]
        exact .lose _ _ event
      · rename_i hpresent
        cases h
        refine eventTurns_changeLink hl rfl ?_
        have hmarks : l.marks { l with events := l.events ++ [event], reader := .idle } =
            [.classified event] := marks_of_event hevent (.inl rfl) rfl rfl
        rw [hmarks]
        exact .queue _ _ _ event (by simpa using hpresent)
    · rename_i text' hclassify
      rw [hclassify] at hevent
      cases h
      exact eventTurns_setReader hl rfl hevent _
  | clearing ids =>
    cases ids <;>
    · simp only [stepReader, hphase, Option.some.injEq] at h
      subst h
      exact eventTurns_setReader hl rfl (by rw [hphase]; rfl) _
  | answering | reporting | losing | alerting | sweeping =>
    simp only [stepReader, hphase, Option.some.injEq] at h
    subst h
    exact eventTurns_setReader hl rfl (by rw [hphase]; rfl) _
  | terminating =>
    simp only [stepReader, hphase, Option.some.injEq] at h
    subst h
    exact eventTurns_setReader hl (w.shift_links _ _ _) (by rw [hphase]; rfl) _
  | stopping =>
    simp only [stepReader, hphase, Option.some.injEq] at h
    subst h
    rw [setReader, stopLink, changeLink_changeLink]
    exact eventTurns_changeLink hl rfl (Link.Calm.turn ⟨.inr (by rw [hphase]; rfl), rfl⟩)
  | ended => simp [stepReader, hphase] at h

lemma eventTurns_takeEvent {w w' : World} {index : Nat} {l : Link}
    (hl : w.links[index]? = some l) (h : w.takeEvent index l = some w') : w.EventTurns w' := by
  unfold takeEvent at h
  split at h
  · rename_i event rest hidle hevents
    cases h
    refine eventTurns_changeLink hl rfl ?_
    have hmarks : l.marks { l with
        events := rest, running := some event, deliverer := .waiting } = [.begun event] := by
      simp [Link.marks, Link.readerMarks_of_eq, Link.poolMarks_of_some, Link.delivererMarks, hidle]
    rw [hmarks, Link.post, hevents, hidle]
    exact .begin event rest _
  · cases h

lemma eventTurns_stepDeliverer {w w' : World} {index : Nat} {l : Link}
    (hl : w.links[index]? = some l) (h : w.stepDeliverer index l = some w') : w.EventTurns w' := by
  have hstop : w.EventTurns (w.changeLink index fun l => { l with deliverer := .ended }) := by
    refine eventTurns_changeLink hl rfl ?_
    have hmarks : l.marks { l with deliverer := .ended } = [] := by
      simp [Link.marks, Link.readerMarks_of_eq, Link.delivererMarks_of_ended, Link.poolMarks_of_eq]
    rw [hmarks]
    exact .stop _ _ _
  cases hphase : l.deliverer with
  | idle =>
    simp only [stepDeliverer, hphase] at h
    split at h
    · cases h
      exact hstop
    · exact eventTurns_takeEvent hl h
  | waiting =>
    simp only [stepDeliverer, hphase] at h
    split at h
    · cases h
      exact hstop
    · split at h
      · rename_i hdone
        obtain hdone : l.running = none := by simpa using hdone
        cases h
        refine eventTurns_changeLink hl rfl ?_
        have hmarks : l.marks { l with deliverer := .idle } = [] := by
          simp [Link.marks, Link.readerMarks_of_eq, Link.poolMarks_of_eq, Link.delivererMarks,
            hphase]
        rw [hmarks, Link.post, Link.post, hphase, hdone]
        exact .resume _
      · cases h
  | ended => simp [stepDeliverer, hphase] at h

lemma marks_of_done {l : Link} {event : Wire.Event} (h : l.running = some event) :
    l.marks { l with running := none } = [.finished event] := by
  simp [Link.marks, Link.readerMarks_of_eq, Link.delivererMarks_of_eq, Link.poolMarks, h]

/-- The handlers of an event run in the step that leaves the mark that they are done. -/
lemma marks_stepPool {w w' : World} {index : Nat} {l : Link} (hl : w.links[index]? = some l)
    (h : w.stepPool index l = some w') : ∃ event, l.running = some event ∧
      (w.linkAt index).marks (w'.linkAt index) = [.finished event] ∧
      w'.board = { (w.board.deliver w.methods w.bindings event).state with started := [] } := by
  cases hrunning : l.running with
  | none => simp [stepPool, hrunning] at h
  | some event =>
    simp only [stepPool, hrunning, Option.some.injEq] at h
    subst h
    refine ⟨event, rfl, ?_, rfl⟩
    rw [linkAt_of_getElem? hl]
    exact (congrArg l.marks (linkAt_changeLink (l := l) hl _)).trans (marks_of_done hrunning)

lemma eventTurns_stepPool {w w' : World} {index : Nat} {l : Link}
    (hl : w.links[index]? = some l) (h : w.stepPool index l = some w') : w.EventTurns w' := by
  cases hrunning : l.running with
  | none => simp [stepPool, hrunning] at h
  | some event =>
    simp only [stepPool, hrunning, Option.some.injEq] at h
    subst h
    refine eventTurns_changeLink hl rfl ?_
    rw [marks_of_done hrunning, Link.post, hrunning]
    exact .finish _ event _

lemma eventTurns_step {w w' : World} {agent : Agent} (h : w.step agent = some w') :
    w.EventTurns w' := by
  unfold step at h
  split at h
  · cases h
    exact eventTurns_of_links rfl
  · cases agent with
    | caller index =>
      obtain ⟨c, _, hstep⟩ := Option.bind_eq_some_iff.mp h
      exact eventTurns_stepCaller hstep
    | disposer index =>
      obtain ⟨phase, _, hstep⟩ := Option.bind_eq_some_iff.mp h
      exact eventTurns_stepDisposer hstep
    | writer index =>
      obtain ⟨l, _, hstep⟩ := Option.bind_eq_some_iff.mp h
      exact eventTurns_stepWriter hstep
    | reader index =>
      obtain ⟨l, hl, hstep⟩ := Option.bind_eq_some_iff.mp h
      exact eventTurns_stepReader hl hstep
    | deliverer index =>
      obtain ⟨l, hl, hstep⟩ := Option.bind_eq_some_iff.mp h
      exact eventTurns_stepDeliverer hl hstep
    | pool index =>
      obtain ⟨l, hl, hstep⟩ := Option.bind_eq_some_iff.mp h
      exact eventTurns_stepPool hl hstep
    | lateWriter index =>
      obtain ⟨l, _, hstep⟩ := Option.bind_eq_some_iff.mp h
      exact eventTurns_takeCommand hstep
    | lateReader index =>
      obtain ⟨l, hl, hstep⟩ := Option.bind_eq_some_iff.mp h
      exact eventTurns_takeArrival hl hstep
    | lateDeliverer index =>
      obtain ⟨l, hl, hstep⟩ := Option.bind_eq_some_iff.mp h
      exact eventTurns_takeEvent hl hstep
    | releaser => exact eventTurns_stepRelease h

lemma eventTurns_move {w w' : World} {m : Move} (h : w.move m = some w') : w.EventTurns w' := by
  cases m with
  | act agent => exact eventTurns_step h
  | call | dispose | subscribe | unsubscribe | relist =>
    simp only [move] at h
    split at h
    · cases h
      exact eventTurns_of_links rfl
    · cases h
  | giveUp index =>
    cases h
    exact w.eventTurns_dropCaller index
  | dropHandle | tell =>
    cases h
    exact eventTurns_of_links rfl
  | arrive | stopReading =>
    cases h
    exact eventTurns_of_calm rfl fun _ => ⟨.inl rfl, rfl⟩

/-! ### Runs -/

lemma marksOfStep_eq {w w' : World} (hgrow : w.links.length ≤ w'.links.length)
    (hsingle : w'.links.length ≤ 1) :
    w.marksOfStep w' = (w.linkAt 0).marks (w'.linkAt 0) := by
  cases hlinks : w'.links with
  | nil =>
    have hnone : w.links = [] := List.eq_nil_of_length_eq_zero (by simpa [hlinks] using hgrow)
    simp [marksOfStep, linkAt, hlinks, hnone]
    rfl
  | cons l rest =>
    have hrest : rest = [] := List.eq_nil_of_length_eq_zero (by simpa [hlinks] using hsingle)
    simp [marksOfStep, hlinks, hrest]

lemma keeps_run {w : World} (h : w.Steady) {marks : List Mark}
    (hkeeps : (w.linkAt 0).post.Keeps marks) (moves : List Move) :
    ((w.run moves).linkAt 0).post.Keeps (marks ++ w.marks moves) := by
  induction moves generalizing w marks with
  | nil => simpa [World.marks, run] using hkeeps
  | cons m moves ih =>
    change (((((w.move m).getD w).run moves)).linkAt 0).post.Keeps _
    rw [World.marks]
    cases hmove : w.move m with
    | none => exact ih h hkeeps
    | some w' =>
      have hdeed := deed_of_move hmove
      have hsteady := h.deed hdeed
      have hturn := hkeeps.turn (eventTurns_move hmove 0)
      rw [← marksOfStep_eq (links_deed hdeed) hsteady.single] at hturn
      simpa only [List.append_assoc, Option.getD_some] using ih hsteady hturn

/-! ### What the reader does not look at -/

end World

/-- A link whose handlers are somewhere else: with another event or none, and with a deliverer that
waits for them or not, if it is not gone. -/
def Link.withHandlers (running : Option Wire.Event) (waits : Bool) (l : Link) : Link :=
  { l with
    running := running
    deliverer :=
      match l.deliverer with
      | .ended => .ended
      | _ => if waits then .waiting else .idle }

lemma Link.withHandlers_ended (running : Option Wire.Event) (waits : Bool) (l : Link) :
    ((l.withHandlers running waits).deliverer == .ended) = (l.deliverer == .ended) := by
  cases h : l.deliverer <;> cases waits <;> simp [withHandlers, h]

namespace World

def withHandlers (w : World) (link : Nat) (running : Option Wire.Event) (waits : Bool) : World :=
  w.changeLink link (Link.withHandlers running waits)

section Handlers

variable (w : World) (link : Nat) (running : Option Wire.Event) (waits : Bool)

lemma changeLink_withHandlers (index : Nat) {change : Link → Link}
    (h : ∀ l : Link,
      change (l.withHandlers running waits) = (change l).withHandlers running waits) :
    (w.withHandlers link running waits).changeLink index change =
      (w.changeLink index change).withHandlers link running waits := by
  have hlinks : (w.links.modify link (Link.withHandlers running waits)).modify index change =
      (w.links.modify index change).modify link (Link.withHandlers running waits) := by
    by_cases hs : link = index
    · subst hs
      rw [List.modify_modify_eq, List.modify_modify_eq]
      exact congrArg (w.links.modify link) (funext h)
    · exact List.modify_modify_ne _ _ _ hs
  simp only [withHandlers, changeLink, hlinks]

@[simp] lemma withHandlers_requests :
    (w.withHandlers link running waits).requests = w.requests := rfl

lemma setReader_withHandlers (index : Nat) (phase : ReaderPhase) :
    (w.withHandlers link running waits).setReader index phase =
      (w.setReader index phase).withHandlers link running waits :=
  w.changeLink_withHandlers link running waits index fun _ => rfl

lemma stopLink_withHandlers (index : Nat) :
    (w.withHandlers link running waits).stopLink index =
      (w.stopLink index).withHandlers link running waits :=
  w.changeLink_withHandlers link running waits index fun _ => rfl

lemma shift_withHandlers {sources : List State} {target : State} (htarget : target ∉ sources)
    (agent : Agent) :
    ((w.withHandlers link running waits).shift agent sources target).2 =
      (w.shift agent sources target).2.withHandlers link running waits := by
  have hstate : (w.withHandlers link running waits).state = w.state := rfl
  by_cases hsource : w.state ∈ sources
  · rw [shift_of_mem hsource htarget, shift_of_mem (hstate ▸ hsource) htarget]
    rfl
  · rw [shift_of_not_mem hsource, shift_of_not_mem (hstate ▸ hsource)]

lemma takeArrival_withHandlers {l l' : Link} (index : Nat) (hreader : l'.reader = l.reader)
    (htransport : l'.transport = l.transport) :
    (w.withHandlers link running waits).takeArrival index l' =
      (w.takeArrival index l).map (·.withHandlers link running waits) := by
  unfold takeArrival
  rw [hreader, htransport]
  split
  · exact congrArg some (w.changeLink_withHandlers link running waits index fun _ => rfl)
  · rfl

lemma stepReader_withHandlers {l l' : Link} (index : Nat) (hreader : l'.reader = l.reader)
    (htransport : l'.transport = l.transport) (hshutdown : l'.shutdown = l.shutdown)
    (hended : (l'.deliverer == .ended) = (l.deliverer == .ended)) :
    (w.withHandlers link running waits).stepReader index l' =
      (w.stepReader index l).map (·.withHandlers link running waits) := by
  have hset (v : World) (phase : ReaderPhase) :
      some ((v.withHandlers link running waits).setReader index phase) =
        (some (v.setReader index phase)).map (·.withHandlers link running waits) :=
    congrArg some (v.setReader_withHandlers link running waits index phase)
  cases hphase : l.reader with
  | idle =>
    simp only [stepReader, hreader, hphase, hshutdown]
    split
    · exact hset w _
    · exact w.takeArrival_withHandlers link running waits index hreader htransport
  | routing text =>
    simp only [stepReader, hreader, hphase, hended, withHandlers_requests]
    split
    · split
      · exact hset { w with requests := _ } _
      · exact hset { w with requests := _ } _
    · split
      · exact hset w _
      · exact congrArg some (w.changeLink_withHandlers link running waits index fun _ => rfl)
    · exact hset (w.observe _) _
  | losing reason =>
    simp only [stepReader, hreader, hphase, hshutdown]
    exact hset w _
  | answering id frame =>
    simp only [stepReader, hreader, hphase]
    exact hset (w.answer id _) _
  | reporting | alerting =>
    simp only [stepReader, hreader, hphase]
    exact hset (w.observe _) _
  | terminating =>
    have hclosed : State.closed ∉ unclosed := by decide
    simp only [stepReader, hreader, hphase, shift_withHandlers _ _ _ _ hclosed]
    exact hset _ _
  | sweeping =>
    simp only [stepReader, hreader, hphase]
    exact hset w.drain _
  | clearing ids =>
    cases ids with
    | nil =>
      simp only [stepReader, hreader, hphase]
      exact hset w _
    | cons id ids =>
      simp only [stepReader, hreader, hphase]
      exact hset (w.answer id _) _
  | stopping =>
    simp only [stepReader, hreader, hphase, stopLink_withHandlers]
    exact hset _ _
  | ended =>
    simp only [stepReader, hreader, hphase]
    rfl

lemma step_reader_withHandlers {agent : Agent} {index : Nat}
    (h : agent = .reader index ∨ agent = .lateReader index) :
    (w.withHandlers link running waits).step agent =
      (w.step agent).map (·.withHandlers link running waits) := by
  have hnotices : (w.withHandlers link running waits).notices = w.notices := rfl
  have hlinks : (w.withHandlers link running waits).links[index]? =
      w.links[index]?.map fun l => if link = index then l.withHandlers running waits else l := by
    simp only [withHandlers, changeLink, List.getElem?_modify]
    split <;> rfl
  unfold step
  rw [hnotices]
  split
  · rfl
  · rcases h with rfl | rfl
    · dsimp only
      rw [hlinks]
      cases w.links[index]? with
      | none => rfl
      | some l =>
        refine w.stepReader_withHandlers link running waits index ?_ ?_ ?_ ?_
        · split <;> rfl
        · split <;> rfl
        · split <;> rfl
        · split
          · exact l.withHandlers_ended running waits
          · rfl
    · dsimp only
      rw [hlinks]
      cases w.links[index]? with
      | none => rfl
      | some l =>
        refine w.takeArrival_withHandlers link running waits index ?_ ?_ <;> split <;> rfl

end Handlers

/-! ### Responses -/

/-- The reader of a link has taken a text. -/
def takeText (w : World) (link : Nat) (text : String) (rest : List Arrival) : World :=
  w.changeLink link fun l => { l with
    transport := { l.transport with arrivals := rest }, reader := .routing text }

section Response

variable {w : World} {link : Nat} {l : Link} {text : String} {rest : List Arrival}
  {frame : Wire.Response}

lemma move_reader_take (hnotices : w.notices.find? (·.1 = .reader link) = none)
    (hl : w.links[link]? = some l) (hidle : l.reader = .idle) (hshutdown : l.shutdown = false)
    (harrivals : l.transport.arrivals = .text text :: rest) :
    w.move (.act (.reader link)) = some (w.takeText link text rest) := by
  simp [move, step, hnotices, hl, stepReader, hidle, hshutdown, takeArrival, harrivals,
    ReaderPhase.ofArrival, takeText]

lemma run_routing (hnotices : w.notices.find? (·.1 = .reader link) = none)
    (hl : w.links[link]? = some l) (hrouting : l.reader = .routing text)
    (hclassify : Wire.classify text = .response frame) :
    ∃ n ≤ 2, (w.run (List.replicate n (.act (.reader link)))).requests =
      (w.requests.complete frame).2 := by
  cases haddressee : w.requests.addressee? frame with
  | none =>
    refine ⟨0, Nat.zero_le 2, ?_⟩
    rw [Requests.complete_of_no_addressee haddressee]
    rfl
  | some id =>
    have hroute : w.move (.act (.reader link)) = some ({ w with
        requests := w.requests.take id }.setReader link (.answering id frame)) := by
      simp [move, step, hnotices, hl, stepReader, hrouting, hclassify, haddressee]
    generalize hv : { w with requests := w.requests.take id }.setReader link _ = v at hroute
    have hrouted : v.links[link]? = some { l with reader := .answering id frame } := by
      simp [← hv, setReader, changeLink, hl]
    have hfree : v.notices.find? (·.1 = .reader link) = none := hv ▸ hnotices
    have hanswer : v.move (.act (.reader link)) =
        some ((v.answer id (outcomeOf frame)).setReader link .idle) := by
      simp [move, step, hfree, hrouted, stepReader]
    refine ⟨2, Nat.le_refl 2, ?_⟩
    rw [List.replicate_succ, run_cons hroute, List.replicate_one, run_singleton hanswer,
      Requests.complete_of_addressee haddressee, ← hv]
    rfl

/-- A reader with nothing to report takes a response and completes it. -/
lemma run_response (hnotices : w.notices.find? (·.1 = .reader link) = none)
    (hl : w.links[link]? = some l) (hidle : l.reader = .idle) (hshutdown : l.shutdown = false)
    (harrivals : l.transport.arrivals = .text text :: rest)
    (hclassify : Wire.classify text = .response frame) :
    ∃ n ≤ 3, (w.run (List.replicate n (.act (.reader link)))).requests =
      (w.requests.complete frame).2 := by
  have htake := move_reader_take hnotices hl hidle hshutdown harrivals
  have htaken : (w.takeText link text rest).links[link]? = some { l with
      transport := { l.transport with arrivals := rest }, reader := .routing text } := by
    simp [takeText, changeLink, hl]
  obtain ⟨n, hn, hrouted⟩ :=
    run_routing (w := w.takeText link text rest) hnotices htaken rfl hclassify
  refine ⟨n + 1, Nat.succ_le_succ hn, ?_⟩
  rw [List.replicate_succ, run_cons htake]
  exact hrouted

lemma exists_run_response (hl : w.links[link]? = some l) (hidle : l.reader = .idle)
    (hshutdown : l.shutdown = false) (harrivals : l.transport.arrivals = .text text :: rest)
    (hclassify : Wire.classify text = .response frame) :
    ∃ n ≤ 4, (w.run (List.replicate n (.act (.reader link)))).requests =
      (w.requests.complete frame).2 := by
  cases hnotice : w.notices.find? (·.1 = .reader link) with
  | none =>
    obtain ⟨n, hn, hdone⟩ := run_response hnotice hl hidle hshutdown harrivals hclassify
    exact ⟨n, Nat.le_succ_of_le hn, hdone⟩
  | some notice =>
    have hreport : w.move (.act (.reader link)) = some (w.reported (.reader link)) :=
      step_of_notice hnotice
    obtain ⟨n, hn, hdone⟩ := run_response (find?_notices_reported w (.reader link)) hl hidle
      hshutdown harrivals hclassify
    refine ⟨n + 1, Nat.succ_le_succ hn, ?_⟩
    rw [List.replicate_succ, run_cons hreport]
    exact hdone

end Response

/-- In every run, the events that were handed to the handlers are the first of those that the reader
has classified, and those whose handlers ran are the first of those. The handlers of an event are
given it when all before have ended, and run in one step of the pool. What the reader does next is
the same wherever the handlers are, and it completes a response with at most four steps of its own:
one makes its reports, one takes the text, one finds the request and one sends the outcome. -/
theorem events_are_delivered_in_order :
    (∀ (address : String) (config : Config) (methods : MethodMap) (bindings : Bindings)
      (connector : Connector) (moves : List Move) (marks : List Mark),
      marks = (start address config methods bindings connector).marks moves →
        Mark.begunOf marks <+: Mark.classifiedOf marks ∧
        Mark.finishedOf marks <+: Mark.begunOf marks ∧
        ∀ before event after, marks = before ++ .begun event :: after →
          Mark.begunOf before = Mark.finishedOf before) ∧
    (∀ (w w' : World) (link : Nat) (l : Link), w.links[link]? = some l →
      w.stepPool link l = some w' → ∃ event, l.running = some event ∧
        (w.linkAt link).marks (w'.linkAt link) = [.finished event] ∧
        w'.board = { (w.board.deliver w.methods w.bindings event).state with started := [] }) ∧
    (∀ (w : World) (link index : Nat) (running : Option Wire.Event) (waits : Bool) (agent : Agent),
      agent = .reader index ∨ agent = .lateReader index →
        (w.withHandlers link running waits).step agent =
          (w.step agent).map (·.withHandlers link running waits)) ∧
    ∀ (w : World) (link : Nat) (l : Link) (text : String) (rest : List Arrival)
      (frame : Wire.Response), w.links[link]? = some l → l.reader = .idle → l.shutdown = false →
        l.transport.arrivals = .text text :: rest → Wire.classify text = .response frame →
          ∃ n ≤ 4, (w.run (List.replicate n (.act (.reader link)))).requests =
            (w.requests.complete frame).2 := by
  refine ⟨?_, ?_, ?_, ?_⟩
  · rintro address config methods bindings connector moves marks rfl
    have hnew : ((start address config methods bindings connector).linkAt 0).post.Keeps [] :=
      ⟨⟨[], rfl, fun _ => rfl⟩, rfl, fun _ => rfl, by simp⟩
    have hkeeps := keeps_run (steady_start address config methods bindings connector) hnew moves
    rw [List.nil_append] at hkeeps
    obtain ⟨lost, hclassified, _⟩ := hkeeps.waiting
    refine ⟨⟨_, (hclassified.trans (List.append_assoc ..)).symm⟩, ⟨_, hkeeps.running.symm⟩,
      hkeeps.apart⟩
  · exact fun w w' link l hl h => marks_stepPool hl h
  · exact fun w link index running waits agent h => w.step_reader_withHandlers link running waits h
  · exact fun w link l text rest frame hl hidle hshutdown harrivals hclassify =>
      exists_run_response hl hidle hshutdown harrivals hclassify

/-- A session without a protocol before its first call. -/
def unconnected : World := start "" {} {} ⟨{}, [], ⟨0, []⟩⟩ (.scripted [])

/-- A call that connects and queues its request, an event that is handed over, and a response that
comes while its handlers run. -/
def responseDuringHandlers : List Move :=
  .call "a" "Page.enable" none :: List.replicate 11 (.act (.caller 0)) ++
    [.arrive 0 (.text "\x7b\"method\":\"A.b\"\x7d"), .act (.reader 0), .act (.reader 0),
      .act (.deliverer 0), .arrive 0 (.text "\x7b\"id\":1\x7d")]

theorem response_does_not_wait_for_handlers :
    let event : Wire.Event := ⟨"A.b", Json.emptyObject⟩
    let w := unconnected.run responseDuringHandlers
    unconnected.marks responseDuringHandlers = [.classified event, .begun event] ∧
      Mark.begunOf (unconnected.marks responseDuringHandlers) <+:
        Mark.classifiedOf (unconnected.marks responseDuringHandlers) ∧
      (∃ l w', w.links[0]? = some l ∧ w.stepPool 0 l = some w' ∧
        (w.linkAt 0).marks (w'.linkAt 0) = [.finished event]) ∧
      (w.requests.outcome? 1).isNone ∧
      ∃ n ≤ 4, ((w.run (List.replicate n (.act (.reader 0)))).requests.outcome? 1).isSome := by
  intro event w
  obtain ⟨hordered, hpool, _, hresponse⟩ := events_are_delivered_in_order
  have hrunning : w.links[0]?.map (·.running) = some (some event) := rfl
  obtain ⟨l, hl, hrunning⟩ := Option.map_eq_some_iff.mp hrunning
  have hreader : w.links[0]?.map (·.reader) = some .idle := rfl
  have hshutdown : w.links[0]?.map (·.shutdown) = some false := rfl
  have harrivals : w.links[0]?.map (·.transport.arrivals) =
      some [.text "\x7b\"id\":1\x7d"] := rfl
  rw [hl, Option.map_some, Option.some.injEq] at hreader hshutdown harrivals
  obtain ⟨w', hw'⟩ : ∃ w', w.stepPool 0 l = some w' := by simp [stepPool, hrunning]
  obtain ⟨event', hevent', hfinished, _⟩ := hpool w w' 0 l hl hw'
  obtain rfl : event = event' := Option.some.inj (hrunning.symm.trans hevent')
  obtain ⟨n, hn, hcompleted⟩ :=
    hresponse w 0 l _ [] { id := some 1 } hl hreader hshutdown harrivals rfl
  refine ⟨rfl, (hordered "" {} {} ⟨{}, [], ⟨0, []⟩⟩ (.scripted []) responseDuringHandlers _ rfl).1,
    ⟨l, w', hl, hw', hfinished⟩, rfl, n, hn, ?_⟩
  rw [hcompleted]
  rfl

end World

end InspectorProtocol.Session
