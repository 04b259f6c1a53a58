import InspectorProtocol.Proofs.DomainOrder
import InspectorProtocol.Proofs.LargestPart

/-!
# Clashes of names

An item is refused for a name when its draft and an earlier one of its domain have the name. Making
a draft never fails for this reason, so an item without a draft takes no names away. But the names
are compared before pruning. The draft that holds a name may be dropped then, which leaves the name
without a binding and the refused item refused.
-/

namespace InspectorProtocol

open Description

/-- Whether an attempt does not fail for a name that is in use. -/
def Blameless {α : Type} (attempt : Except Failure α) : Prop :=
  ∀ path name, attempt ≠ .error (.malformedDescriptor path (.nameInUse name))

namespace Blameless

variable {α β : Type}

lemma ok (a : α) : Blameless (.ok a : Except Failure α) := fun _ _ h => by cases h

lemma error {reason : Failure}
    (h : ∀ path name, reason ≠ .malformedDescriptor path (.nameInUse name)) :
    Blameless (.error reason : Except Failure α) :=
  fun path name heq => h path name (Except.error.inj heq)

lemma bind {attempt : Except Failure α} {next : α → Except Failure β} (h : Blameless attempt)
    (hnext : ∀ a, Blameless (next a)) : Blameless (attempt >>= next) := by
  cases attempt with
  | error reason => exact fun path name heq => h path name (by cases heq; rfl)
  | ok a => exact hnext a

end Blameless

namespace Catalogue

variable {c : Catalogue}

lemma blameless_resolveReference (here reference : String) :
    Blameless (c.resolveReference here reference) := by
  unfold resolveReference
  simp only
  split
  · exact .ok _
  · exact .error (by simp)

lemma blameless_resolveItems (here record : String) (items : Items) :
    Blameless (c.resolveItems here record items) := by
  fun_induction resolveItems c here record items with
  | case1 => exact (blameless_resolveReference _ _).bind fun _ => .ok _
  | case3 _ _ ih => exact ih.bind fun _ => .ok _
  | case4 | case5 | case8 => exact .ok _
  | case2 | case6 | case7 | case9 => exact .error (by simp)

lemma blameless_resolveProperty (here owner : String) (p : Property) :
    Blameless (c.resolveProperty here owner p) := by
  unfold resolveProperty
  simp only
  split
  · exact (blameless_resolveReference _ _).bind fun _ => .ok _
  · split
    · exact .error (by simp)
    · exact blameless_resolveItems _ _ _
  · exact .error (by simp)
  · split
    · exact .ok _
    · exact .error (by simp)
  · exact .error (by simp)

end Catalogue

namespace Draft

variable {c : Catalogue} {settings : Settings}

lemma blameless_fieldsFrom (domain owner : String) (namer : Identifier.FieldNamer)
    (properties : List Property) : Blameless (fieldsFrom c domain owner namer properties) := by
  induction properties generalizing namer with
  | nil => exact .ok _
  | cons p rest ih =>
    exact (c.blameless_resolveProperty domain owner p).bind fun _ => (ih _).bind fun _ => .ok _

lemma blameless_recordBindings (domain : String) (fuel : Nat) (queue : List InlineRecord) :
    Blameless (recordBindings c domain fuel queue) := by
  induction fuel generalizing queue with
  | zero => exact .ok _
  | succ fuel ih =>
    cases queue with
    | nil => exact .ok _
    | cons r queue =>
      exact (blameless_fieldsFrom domain r.name _ _).bind fun _ => (ih _).bind fun _ => .ok _

lemma blameless_typeBinding (domain : String) (type : TypeDecl) :
    Blameless (typeBinding settings c domain type) := by
  unfold typeBinding
  simp only
  split
  · exact .ok _
  · exact .ok _
  · exact (blameless_fieldsFrom _ _ _ _).bind fun _ => .ok _
  · split
    · exact .error (by simp)
    · exact (c.blameless_resolveItems _ _ _).bind fun _ => .ok _
  · exact .error (by simp)
  · exact (c.blameless_resolveProperty _ _ _).bind fun _ => .ok _

lemma blameless_attempt (domain : String) (x : Declaration) :
    Blameless (x.attempt settings c domain) := by
  cases x with
  | type decl =>
    exact (blameless_typeBinding domain decl).bind fun _ =>
      (blameless_recordBindings domain _ _).bind fun _ => .ok _
  | command decl =>
    exact (blameless_fieldsFrom _ _ _ _).bind fun _ => (blameless_fieldsFrom _ _ _ _).bind fun _ =>
      (blameless_recordBindings domain _ _).bind fun _ => .ok _
  | event decl =>
    exact (blameless_fieldsFrom _ _ _ _).bind fun _ =>
      (blameless_recordBindings domain _ _).bind fun _ => .ok _

/-! ### Who holds a name -/

/-- Whether a name is taken, from the start or by a kept draft. -/
def InUse (taken : List String) (kept : List Draft) (name : String) : Prop :=
  name ∈ taken ∨ ∃ holder ∈ kept, name ∈ holder.names

lemma InUse.cons {taken : List String} {draft : Draft} {kept : List Draft} {name : String}
    (h : InUse (draft.names ++ taken) kept name) : InUse taken (draft :: kept) name := by
  rcases h with htaken | ⟨holder, hholder, hname⟩
  · rcases List.mem_append.mp htaken with hself | htaken
    · exact .inr ⟨draft, List.mem_cons_self, hself⟩
    · exact .inl htaken
  · exact .inr ⟨holder, List.mem_cons_of_mem _ hholder, hname⟩

namespace Sifts

variable {domain path name : String} {taken : List String}
  {attempts : List (String × ItemKind × Except Failure Draft)} {drafts : List Draft}
  {skipped : List Skipped}

lemma inUse_of_clash (h : Sifts domain taken attempts drafts skipped)
    (hblameless : ∀ a ∈ attempts, Blameless a.2.2) {s : Skipped} (hs : s ∈ skipped)
    (hreason : s.reason = .malformedDescriptor path (.nameInUse name)) :
    path = domain ++ "." ++ s.item ∧ InUse taken drafts name ∧
      ∃ draft, (s.item, s.kind, .ok draft) ∈ attempts ∧ name ∈ draft.names := by
  induction h with
  | nil => cases hs
  | kept _ _ ih =>
    have hrest := fun a ha => hblameless a (List.mem_cons_of_mem _ ha)
    obtain ⟨hpath, hinUse, draft, hmem, hname⟩ := ih hrest hs
    exact ⟨hpath, hinUse.cons, draft, List.mem_cons_of_mem _ hmem, hname⟩
  | refused refusal _ ih =>
    have hrest := fun a ha => hblameless a (List.mem_cons_of_mem _ ha)
    rcases List.mem_cons.mp hs with rfl | hlater
    · cases refusal with
      | failed =>
        exact absurd (congrArg Except.error hreason) (hblameless _ List.mem_cons_self path name)
      | clash hnamed htaken =>
        cases hreason
        exact ⟨rfl, .inl htaken, _, List.mem_cons_self, hnamed⟩
    · obtain ⟨hpath, hinUse, draft, hmem, hname⟩ := ih hrest hlater
      exact ⟨hpath, hinUse, draft, List.mem_cons_of_mem _ hmem, hname⟩

/-- A draft is kept, or one of its names is in use. -/
lemma kept_or_inUse (h : Sifts domain taken attempts drafts skipped) {item : String}
    {kind : ItemKind} {draft : Draft} (hmem : (item, kind, .ok draft) ∈ attempts) :
    draft ∈ drafts ∨ ∃ name ∈ draft.names, InUse taken drafts name := by
  induction h with
  | nil => cases hmem
  | kept _ _ ih =>
    rcases List.mem_cons.mp hmem with hhead | hlater
    · cases hhead
      exact .inl List.mem_cons_self
    · rcases ih hlater with hkept | ⟨name, hname, hinUse⟩
      · exact .inl (List.mem_cons_of_mem _ hkept)
      · exact .inr ⟨name, hname, hinUse.cons⟩
  | refused refusal _ ih =>
    rcases List.mem_cons.mp hmem with hhead | hlater
    · cases hhead
      cases refusal with
      | clash hnamed htaken => exact .inr ⟨_, hnamed, .inl htaken⟩
    · exact ih hlater

end Sifts

end Draft

/-- Whether a draft is the one of its domain that has a name. -/
structure DomainDrafts.Holds (o : DomainDrafts) (name : String) (holder : Draft) : Prop where
  mem : holder ∈ o.drafts
  named : name ∈ holder.names
  only : ∀ other ∈ o.drafts, name ∈ other.names → other = holder

/-! ### What becomes of a draft -/

namespace Pruning

variable {outputs : List DomainDrafts} {domain : String} {draft : Draft}

lemma mem_items : (domain, draft) ∈ items outputs ↔
    ∃ o ∈ outputs, o.domain.name = domain ∧ draft ∈ o.drafts := by
  simp only [items, List.mem_flatMap, List.mem_map, Prod.mk.injEq]
  constructor
  · rintro ⟨o, ho, d, hd, hname, rfl⟩
    exact ⟨o, ho, hname, hd⟩
  · rintro ⟨o, ho, hname, hd⟩
    exact ⟨o, ho, draft, hd, hname, rfl⟩

lemma mem_prune_iff (h : (domain, draft) ∈ items outputs) :
    (domain, draft) ∈ items (prune outputs).1 ↔
      ¬ ∃ s ∈ (prune outputs).2, Reports (prune outputs).1 (domain, draft) s := by
  constructor
  · rintro hkept ⟨s, _, need, hneed, hnot, _⟩
    obtain ⟨o, ho, _, hdraft⟩ := mem_items.mp hkept
    exact hnot (prune_closed outputs o ho draft hdraft need hneed)
  · intro hnone
    obtain ⟨removed, order, hsplits, hperm, hreports⟩ :=
      rounds_reports (draftCount outputs + 1) outputs
    rcases hsplits.mem_or_mem h with hkept | hremoved
    · exact hkept
    · obtain ⟨s, hs, hreport⟩ := Bindings.exists_right_of_mem hreports (hperm.mem_iff.mpr hremoved)
      exact absurd ⟨s, hs, hreport⟩ hnone

end Pruning

namespace Bindings

/-- Whether there is a binding of this name in the domain of a name. -/
def Contains (bindings : Bindings) (domain name : String) : Prop :=
  ∃ d ∈ bindings.domains, d.name = domain ∧ ∃ b ∈ d.bindings, b.name = name

variable {settings : Settings} {description : Description} {domain name : String}

lemma contains_generate_iff : (generate settings description).Contains domain name ↔
    ∃ draft, (domain, draft) ∈ Pruning.items (kept settings description) ∧ name ∈ draft.names := by
  constructor
  · rintro ⟨d, hd, rfl, b, hb, rfl⟩
    obtain ⟨o, ho, hname, hbindings⟩ := exists_kept_of_mem hd
    rw [hbindings] at hb
    obtain ⟨b', hb', rfl⟩ := List.mem_map.mp hb
    obtain ⟨draft, hdraft, hmem⟩ := mem_assemble.mp hb'
    refine ⟨draft, Pruning.mem_items.mpr ⟨o, ho, hname.symm, hdraft⟩, ?_⟩
    exact List.mem_map.mpr ⟨b', hmem, (Boxing.name_box _ _ _).symm⟩
  · rintro ⟨draft, hitem, hname⟩
    obtain ⟨o, ho, rfl, hdraft⟩ := Pruning.mem_items.mp hitem
    obtain ⟨b, hb, rfl⟩ := List.mem_map.mp hname
    obtain ⟨d, hd, hdomain, hmem⟩ := exists_mem_of_draft ho hdraft hb
    exact ⟨d, hd, hdomain, _, hmem, Boxing.name_box _ _ _⟩

lemma drafted_names_nodup : ((drafted settings description).map (·.domain.name)).Nodup := by
  simpa [drafted, Function.comp_def] using retained_names_nodup description

/-- A name that one draft of a domain holds has a binding in the end unless this draft is pruned. -/
lemma contains_iff_of_holds {o : DomainDrafts} {holder : Draft}
    (ho : o ∈ drafted settings description) (h : o.Holds name holder) :
    (generate settings description).Contains o.domain.name name ↔
      ¬ ∃ r ∈ (generate settings description).report.skipped,
        Pruning.Reports (kept settings description) (o.domain.name, holder) r := by
  have hthins : Pruning.Thins (kept settings description) (drafted settings description) :=
    Pruning.prune_thins _
  have hitem : (o.domain.name, holder) ∈ Pruning.items (drafted settings description) :=
    Pruning.mem_items.mpr ⟨o, ho, rfl, h.mem⟩
  constructor
  · intro hcontains
    obtain ⟨draft, hdraft, hname⟩ := contains_generate_iff.mp hcontains
    obtain ⟨o', ho', hdomain, hmem⟩ := Pruning.mem_items.mp hdraft
    obtain ⟨source, hsource, hsame, hdrafts⟩ := hthins.exists_of_mem ho'
    obtain rfl : source = o :=
      List.inj_on_of_nodup_map drafted_names_nodup hsource ho (hsame ▸ hdomain)
    obtain rfl := h.only draft (hdrafts hmem) hname
    rintro ⟨_, _, need, hneed, hnot, _⟩
    exact hnot (kept_closed o' ho' draft hmem need hneed)
  · intro hnone
    refine contains_generate_iff.mpr ⟨holder, ?_, h.named⟩
    refine (Pruning.mem_prune_iff hitem).mpr ?_
    rintro ⟨r, hr, hreport⟩
    refine hnone ⟨r, ?_, hreport⟩
    rw [skipped_generate]
    exact List.mem_append_right _ hr

lemma exists_domain_of_clash {s : Skipped} {path : String}
    (hs : s ∈ (generate settings description).report.skipped)
    (hreason : s.reason = .malformedDescriptor path (.nameInUse name)) :
    ∃ d ∈ retained description,
      s ∈ (Draft.ofDomain settings (catalogue settings description) d).2 := by
  rw [skipped_eq] at hs
  rcases List.mem_append.mp hs with hrepeated | hitem
  · obtain ⟨d, _, rfl⟩ := List.mem_map.mp hrepeated
    cases hreason
  · rcases List.mem_append.mp hitem with hrefused | hpruned
    · exact List.mem_flatMap.mp hrefused
    · obtain ⟨_, _, _, _, hreports⟩ := Pruning.rounds_reports _ (drafted settings description)
      obtain ⟨_, _, _, _, _, rfl⟩ := exists_left_of_mem hreports hpruned
      cases hreason

lemma blameless_attempts (c : Catalogue) (d : Domain) :
    ∀ a ∈ Draft.attempts settings c d, Blameless a.2.2 := by
  rw [Draft.attempts_eq]
  intro a ha
  obtain ⟨x, _, rfl⟩ := List.mem_map.mp ha
  exact Draft.blameless_attempt d.name x

lemma exists_holds {d : Domain}
    (h : Draft.InUse [] (draftsOf settings description d).drafts name) :
    ∃ holder, (draftsOf settings description d).Holds name holder := by
  rcases h with hnone | ⟨holder, hholder, hname⟩
  · cases hnone
  · refine ⟨holder, hholder, hname, fun other hother hshared => ?_⟩
    exact Draft.eq_of_shared_name (Draft.sifts_keepFree d.name [] _).apart.2 hother hholder hshared
      hname

/-- An item is refused for a name that its draft has and that another draft of its domain holds.
This name has a binding in the end unless pruning drops the draft that holds it. An item that has a
draft is refused for nothing else. -/
theorem clashes_are_with_drafts (settings : Settings) (description : Description) :
    let bindings := generate settings description
    let c := catalogue settings description
    (∀ s ∈ bindings.report.skipped, ∀ path name,
      s.reason = .malformedDescriptor path (.nameInUse name) →
        path = s.domain ++ "." ++ s.item ∧
        ∃ o ∈ drafted settings description, o.domain.name = s.domain ∧
          (∃ x ∈ o.domain.declarations, x.name = s.item ∧ x.kind = s.kind ∧
            ∃ draft, x.attempt settings c s.domain = .ok draft ∧ name ∈ draft.names) ∧
          ∃ holder, o.Holds name holder ∧
            (bindings.Contains s.domain name ↔ ¬ ∃ r ∈ bindings.report.skipped,
              Pruning.Reports (kept settings description) (s.domain, holder) r)) ∧
    ∀ o ∈ drafted settings description, ∀ x ∈ o.domain.declarations, ∀ draft,
      x.attempt settings c o.domain.name = .ok draft →
        draft ∈ o.drafts ∨ ∃ name ∈ draft.names, ∃ holder, o.Holds name holder := by
  intro bindings c
  constructor
  · intro s hs path name hreason
    obtain ⟨d, hd, hrefused⟩ := exists_domain_of_clash hs hreason
    have hsifts := Draft.sifts_keepFree d.name [] (Draft.attempts settings c d)
    obtain ⟨hpath, hinUse, draft, hattempt, hname⟩ :=
      hsifts.inUse_of_clash (blameless_attempts _ d) hrefused hreason
    obtain ⟨holder, hholder⟩ := exists_holds hinUse
    have hdomain : s.domain = d.name := hsifts.domain_of_mem hrefused
    have ho : draftsOf settings description d ∈ drafted settings description :=
      List.mem_map_of_mem hd
    rw [Draft.attempts_eq] at hattempt
    obtain ⟨x, hx, heq⟩ := List.mem_map.mp hattempt
    obtain ⟨hitem, hkind, hok⟩ := Prod.ext_iff.mp heq |>.imp_right Prod.ext_iff.mp
    rw [hdomain]
    exact ⟨hpath, _, ho, rfl, ⟨x, hx, hitem, hkind, draft, hok, hname⟩, holder, hholder,
      contains_iff_of_holds ho hholder⟩
  · intro o ho x hx draft hattempt
    obtain ⟨d, _, rfl⟩ := List.mem_map.mp ho
    have hmem : (x.name, x.kind, .ok draft) ∈ Draft.attempts settings c d := by
      rw [Draft.attempts_eq, ← hattempt]
      exact List.mem_map_of_mem hx
    rcases (Draft.sifts_keepFree d.name [] _).kept_or_inUse hmem with hkept | ⟨name, hname, hinUse⟩
    · exact .inl hkept
    · exact .inr ⟨name, hname, exists_holds hinUse⟩

/-- A type that is an array without items, one that needs it, and a sound one that gets the same
name as the second. -/
def clashWithPruned : Description :=
  { domains :=
      [{ name := "D"
         types :=
          [{ name := "Bad", kind := .array },
            { name := "Foo", kind := .object
              properties := [{ name := "x", reference := some "Bad" }] },
            { name := "foo", kind := .string }] }] }

/-- The sound type is refused for a name that has no binding. -/
theorem refused_for_a_name_that_is_free :
    let bindings := generate {} clashWithPruned
    (∃ s ∈ bindings.report.skipped, s.isOf "D" "foo" .type = true ∧
      s.reason = .malformedDescriptor "D.foo" (.nameInUse "Foo")) ∧
      ¬ bindings.Contains "D" "Foo" := by
  intro bindings
  have hempty : bindings.domains.flatMap (·.bindings) = [] := rfl
  refine ⟨⟨_, List.mem_cons_of_mem _ List.mem_cons_self, rfl, rfl⟩, ?_⟩
  rintro ⟨d, hd, _, b, hb, _⟩
  have hmem := List.mem_flatMap.mpr ⟨d, hd, hb⟩
  rw [hempty] at hmem
  cases hmem

end Bindings

end InspectorProtocol
