import InspectorProtocol.MethodMap
import InspectorProtocol.Proofs.Accounting
import InspectorProtocol.Proofs.Lookup
import InspectorProtocol.Proofs.References
import InspectorProtocol.Source.Rendering

/-!
# What the method map knows

Registering every method constant in order leaves each wire method with the constant that comes
last. Within a domain no two commands and no two events have one method, and events come after
commands. A method can come again in another domain, but only where a domain's name has a dot.
-/

namespace InspectorProtocol

open Description

namespace MethodMap

def register (m : MethodMap) (registrations : List (String × MethodEntry)) : MethodMap :=
  registrations.foldl (fun m (method, entry) => m.insert method entry) m

variable {m : MethodMap} {method : String} {entry : MethodEntry}
  {registrations : List (String × MethodEntry)}

lemma lookup_insert_self : (m.insert method entry).lookup method = some entry := by
  have hnone : (m.entries.filter (·.1 != method)).lookup method = none :=
    lookup_filter_of_dropped fun _ => bne_self_eq_false method
  simp [lookup, insert, List.lookup_append, hnone]

lemma lookup_insert_of_ne {other : String} (hne : other ≠ method) :
    (m.insert method entry).lookup other = m.lookup other := by
  have hrest : (m.entries.filter (·.1 != method)).lookup other = m.entries.lookup other :=
    lookup_filter_of_kept fun _ => bne_iff_ne.mpr hne
  have hlast : (other == method) = false := beq_false_of_ne hne
  simp [lookup, insert, List.lookup_append, hrest, List.lookup_cons, hlast]

lemma lookup_register_of_notMem (h : method ∉ registrations.map (·.1)) :
    (m.register registrations).lookup method = m.lookup method := by
  induction registrations generalizing m with
  | nil => rfl
  | cons r rest ih =>
    obtain ⟨hne, hrest⟩ : method ≠ r.1 ∧ method ∉ rest.map (·.1) := by simpa using h
    have htail : ((m.insert r.1 r.2).register rest).lookup method =
        (m.insert r.1 r.2).lookup method := ih hrest
    exact htail.trans (lookup_insert_of_ne hne)

lemma lookup_register (before : List (String × MethodEntry)) {after : List (String × MethodEntry)}
    (h : method ∉ after.map (·.1)) :
    (m.register (before ++ (method, entry) :: after)).lookup method = some entry := by
  have hsplit : m.register (before ++ (method, entry) :: after) =
      ((m.register before).insert method entry).register after := by
    simp [register]
  rw [hsplit, lookup_register_of_notMem h, lookup_insert_self]

lemma keys_insert : (m.insert method entry).entries.map (·.1) =
    (m.entries.map (·.1)).filter (· != method) ++ [method] := by
  simp [insert, List.filter_map, Function.comp_def]

lemma nodup_register (h : (m.entries.map (·.1)).Nodup) :
    ((m.register registrations).entries.map (·.1)).Nodup := by
  induction registrations generalizing m with
  | nil => exact h
  | cons r rest ih =>
    have hinsert : ((m.insert r.1 r.2).entries.map (·.1)).Nodup := by
      rw [keys_insert]
      refine List.nodup_append.mpr ⟨h.filter _, List.nodup_singleton _, ?_⟩
      intro a ha b hb heq
      obtain rfl := List.mem_singleton.mp hb
      simpa [heq] using (List.mem_filter.mp ha).2
    exact ih hinsert

lemma mem_keys_register : method ∈ (m.register registrations).entries.map (·.1) ↔
    method ∈ m.entries.map (·.1) ∨ method ∈ registrations.map (·.1) := by
  induction registrations generalizing m with
  | nil => simp [register]
  | cons r rest ih =>
    have hinsert : method ∈ (m.insert r.1 r.2).entries.map (·.1) ↔
        method ∈ m.entries.map (·.1) ∨ method = r.1 := by
      rw [keys_insert, List.mem_append, List.mem_filter, List.mem_singleton, bne_iff_ne]
      by_cases heq : method = r.1 <;> simp [heq]
    have htail : method ∈ ((m.insert r.1 r.2).register rest).entries.map (·.1) ↔ _ := ih
    rw [List.map_cons, List.mem_cons, ← or_assoc, ← hinsert]
    exact htail

lemma methods_sorted (h : (m.entries.map (·.1)).Nodup) : m.methods.Pairwise (· < ·) :=
  mergeSort_ascending h

end MethodMap

/-- What stands for a method constant: an event's own payload, and the response of a command's
request. -/
inductive MethodConstant.StandsFor (d : DomainBindings) (c : MethodConstant) : MethodEntry → Prop
  | event {payload : Binding} (kind : c.kind = .event) (mem : payload ∈ d.bindings)
      (label : payload.label = ⟨.payload, c.type, some c.method, none⟩) :
      StandsFor d c ⟨.event, d.name, payload⟩
  | command {request response : Binding} (kind : c.kind = .command) (asked : request ∈ d.bindings)
      (request : request.label = ⟨.request, c.type, some c.method, some response.name⟩)
      (mem : response ∈ d.bindings)
      (label : response.label = ⟨.response, response.name, some c.method, none⟩) :
      StandsFor d c ⟨.command, d.name, response⟩

namespace Declaration

variable {settings : Settings} {domain : String}

lemma method_of_mem_signatures {x : Declaration} {s : MethodKind × String × String}
    (h : s ∈ x.signatures domain) : s.2.1 = domain ++ "." ++ x.name := by
  cases x with
  | type => cases h
  | command | event =>
    cases List.mem_singleton.mp h
    rfl

lemma type_of_mem_signatures {x y : Declaration} {s t : MethodKind × String × String}
    (hs : s ∈ x.signatures domain) (ht : t ∈ y.signatures domain) (hkind : s.1 = t.1)
    (hmethod : s.2.1 = t.2.1) : s.2.2 = t.2.2 := by
  have hname : x.name = y.name := by
    rw [method_of_mem_signatures hs, method_of_mem_signatures ht] at hmethod
    simpa using hmethod
  cases x <;> cases y <;> simp_all [signatures, name]

lemma type_mem_bindingNames {x : Declaration} {s : MethodKind × String × String}
    (h : s ∈ x.signatures domain) : s.2.2 ∈ x.bindingNames settings domain := by
  cases x with
  | type => cases h
  | command | event =>
    cases List.mem_singleton.mp h
    simp [bindingNames, outlines, mainOutlines]

lemma kind_of_mem_signatures {x : Declaration} {s : MethodKind × String × String}
    (h : s ∈ x.signatures domain) :
    x.kind = (match s.1 with | .command => .command | .event => .event) := by
  cases x with
  | type => cases h
  | command | event =>
    cases List.mem_singleton.mp h
    rfl

end Declaration

lemma Description.Domain.declarations_ordered (d : Domain) :
    d.declarations.Pairwise fun x y => x.kind = .event → y.kind = .event := by
  unfold declarations
  have hsame {α : Type} (xs : List α) (f : α → Declaration) (kind : ItemKind)
      (hkind : ∀ x, (f x).kind = kind) :
      (xs.map f).Pairwise fun x y => x.kind = .event → y.kind = .event := by
    refine List.pairwise_map.mpr (List.pairwise_of_forall fun x y hx => ?_)
    exact (hkind y).trans ((hkind x).symm.trans hx)
  refine List.pairwise_append.mpr ⟨List.pairwise_append.mpr ⟨?_, ?_, ?_⟩, ?_, ?_⟩
  · exact hsame _ _ .type fun _ => rfl
  · exact hsame _ _ .command fun _ => rfl
  · intro x hx y _ hkind
    obtain ⟨_, _, rfl⟩ := List.mem_map.mp hx
    cases hkind
  · exact hsame _ _ .event fun _ => rfl
  · intro x _ y hy _
    obtain ⟨_, _, rfl⟩ := List.mem_map.mp hy
    rfl

namespace Bindings

variable {settings : Settings} {description : Description}

lemma exists_assembled_of_mem {d : DomainBindings}
    (hd : d ∈ (generate settings description).domains) :
    ∃ o ∈ kept settings description, d.name = o.domain.name ∧ d.methods = (assemble o).methods ∧
      d.bindings = (assemble o).bindings.map (boxed settings description o) := by
  rw [domains_generate, Boxing.mem_boxAll] at hd
  obtain ⟨d', hd', rfl⟩ := hd
  obtain ⟨o, ho, rfl⟩ := List.mem_map.mp hd'
  exact ⟨o, ho, rfl, rfl, rfl⟩

lemma binding?_of_draft {d : DomainBindings} {o : DomainDrafts} {draft : Draft} {b : Binding}
    {name : String} (ho : o ∈ kept settings description) (hdraft : draft ∈ o.drafts)
    (hd : d.bindings = (assemble o).bindings.map (boxed settings description o))
    (hfind : draft.bindings.find? (·.name == name) = some b) :
    d.binding? name = some (boxed settings description o b) := by
  rw [DomainBindings.binding?, hd, List.find?_map]
  change Option.map _ ((assemble o).bindings.find? (·.name == name)) = _
  rw [find?_assemble ho hdraft hfind]
  rfl

lemma exists_entry {d : DomainBindings} {c : MethodConstant}
    (hd : d ∈ (generate settings description).domains) (hc : c ∈ d.methods) :
    ∃ entry, entryOf? d c = some entry ∧ c.StandsFor d entry := by
  obtain ⟨o, ho, hdname, hmethods, hd⟩ := exists_assembled_of_mem hd
  have hsignature : c.signature ∈ (assemble o).methods.map (·.signature) :=
    List.mem_map_of_mem (hmethods ▸ hc)
  rw [signatures_assemble] at hsignature
  obtain ⟨draft, hdraft, hsignature⟩ := List.mem_flatMap.mp hsignature
  obtain ⟨x, _, hattempt⟩ := exists_item_of_draft ho hdraft
  obtain ⟨mains, inline, hbindings, hlabels, _, hsignatures⟩ := Draft.attempt_labelled hattempt
  rw [hsignatures] at hsignature
  have hbinding {name : String} {b : Binding}
      (h : (mains ++ inline).find? (·.name == name) = some b) :
      d.binding? name = some (boxed settings description o b) :=
    binding?_of_draft ho hdraft hd (hbindings ▸ h)
  have hmem {b : Binding} (h : b ∈ mains ++ inline) :
      boxed settings description o b ∈ d.bindings := by
    rw [hd]
    exact List.mem_map_of_mem (mem_assemble.mpr ⟨draft, hdraft, hbindings ▸ h⟩)
  cases x with
  | type => cases hsignature
  | command decl =>
    obtain ⟨request, _, rfl, hrequest, hrest⟩ := List.map_eq_cons_iff.mp hlabels
    obtain ⟨response, _, rfl, hresponse, hnil⟩ := List.map_eq_cons_iff.mp hrest
    obtain ⟨hkind, hmethod, htype⟩ : c.kind = .command ∧ c.method = _ ∧ c.type = _ := by
      simpa [MethodConstant.signature, Declaration.signatures] using hsignature
    have hname : request.name = c.type := (congrArg Label.name hrequest).trans htype.symm
    have hrname : response.name = _ := congrArg Label.name hresponse
    have hanswered : request.response = some response.name :=
      (congrArg Label.response hrequest).trans (congrArg some hrname.symm)
    have hother : request.name ≠ response.name := by
      rw [hname, htype, hrname]
      simp
    have hbox : (boxed settings description o response).name = response.name :=
      Boxing.name_box _ _ _
    have hasked : d.binding? c.type = some (boxed settings description o request) :=
      hbinding (by simp [hname])
    have hanswer : d.binding? response.name = some (boxed settings description o response) :=
      hbinding (by simp [hother])
    have hsame : (boxed settings description o request).response = some response.name := hanswered
    refine ⟨⟨.command, d.name, boxed settings description o response⟩, ?_, ?_⟩
    · simp [entryOf?, hasked, hanswer, hkind, hsame]
    · refine .command hkind (hmem List.mem_cons_self) ?_ (hmem (by simp)) ?_
      · rw [hbox, hrname, boxed, label_box, hrequest, htype, hmethod]
      · rw [hbox, hrname, boxed, label_box, hresponse, hmethod]
  | event decl =>
    obtain ⟨payload, _, rfl, hpayload, hnil⟩ := List.map_eq_cons_iff.mp hlabels
    obtain rfl := List.map_eq_nil_iff.mp hnil
    obtain ⟨hkind, hmethod, htype⟩ : c.kind = .event ∧ c.method = _ ∧ c.type = _ := by
      simpa [MethodConstant.signature, Declaration.signatures] using hsignature
    have hname : payload.name = c.type := (congrArg Label.name hpayload).trans htype.symm
    have hfound : d.binding? c.type = some (boxed settings description o payload) :=
      hbinding (by simp [hname])
    refine ⟨⟨.event, d.name, boxed settings description o payload⟩, ?_, ?_⟩
    · simp [entryOf?, hfound, hkind]
    · refine .event hkind (hmem (by simp)) ?_
      rw [boxed, label_box, hpayload, htype, hmethod]

/-- Constants of one domain that share a method are a command and then an event. -/
lemma methods_ordered {d : DomainBindings} (hd : d ∈ (generate settings description).domains) :
    d.methods.Pairwise fun a b => a.method = b.method → a.kind = .command ∧ b.kind = .event := by
  obtain ⟨o, ho, _, hmethods, _⟩ := exists_assembled_of_mem hd
  obtain ⟨_, hapart, items, hitems, hdrafts⟩ := kept_items ho
  have hsignatures : d.methods.map (·.signature) = items.flatMap (·.signatures o.domain.name) := by
    rw [hmethods, signatures_assemble, signatures_drafts hdrafts]
  have htypes : items.Pairwise fun x y => ∀ s ∈ x.signatures o.domain.name,
      ∀ t ∈ y.signatures o.domain.name, s.2.2 ≠ t.2.2 := by
    refine pairwise_of_forall₂ hdrafts hapart ?_
    intro x y draft draft' hx hy hdisjoint s hs t ht hsame
    have hmem := (Draft.names_perm hx).mem_iff.mpr (Declaration.type_mem_bindingNames hs)
    have hmem' := (Draft.names_perm hy).mem_iff.mpr (Declaration.type_mem_bindingNames ht)
    exact hdisjoint hmem (hsame ▸ hmem')
  have hkinds := o.domain.declarations_ordered.sublist hitems
  have hpairwise : (d.methods.map (·.signature)).Pairwise fun s t =>
      s.2.1 = t.2.1 → s.1 = .command ∧ t.1 = .event := by
    rw [hsignatures, List.pairwise_flatMap]
    refine ⟨fun x _ => ?_, (htypes.and hkinds).imp ?_⟩
    · cases x <;> simp [Declaration.signatures]
    · rintro x y ⟨htype, hkind⟩ s hs t ht hmethod
      have hne : s.1 ≠ t.1 := fun hsame =>
        htype s hs t ht (Declaration.type_of_mem_signatures hs ht hsame hmethod)
      rw [Declaration.kind_of_mem_signatures hs, Declaration.kind_of_mem_signatures ht] at hkind
      revert hne hkind
      cases s.1 <;> cases t.1 <;> simp
  exact List.pairwise_map.mp hpairwise

lemma method_eq {d : DomainBindings} {c : MethodConstant}
    (hd : d ∈ (generate settings description).domains) (hc : c ∈ d.methods) :
    ∃ name, c.method = d.name ++ "." ++ name := by
  obtain ⟨o, ho, hname, hmethods, _⟩ := exists_assembled_of_mem hd
  obtain ⟨_, _, items, _, hdrafts⟩ := kept_items ho
  have hmem : c.signature ∈ items.flatMap (·.signatures o.domain.name) := by
    rw [← signatures_drafts hdrafts, ← signatures_assemble, ← hmethods]
    exact List.mem_map_of_mem hc
  obtain ⟨x, _, hx⟩ := List.mem_flatMap.mp hmem
  exact ⟨x.name, hname ▸ Declaration.method_of_mem_signatures hx⟩

lemma eq_of_append_cons_eq {mark : Char} {xs ys after after' : List Char} (hxs : mark ∉ xs)
    (hys : mark ∉ ys) (h : xs ++ mark :: after = ys ++ mark :: after') :
    xs = ys ∧ after = after' := by
  have hcut (zs rest : List Char) (hzs : mark ∉ zs) :
      (zs ++ mark :: rest).takeWhile (· != mark) = zs := by
    have hall : ∀ c ∈ zs, (c != mark) = true := by
      intro c hc
      simpa using fun heq : c = mark => hzs (heq ▸ hc)
    simp [List.takeWhile_append_of_pos hall]
  have hsame : xs = ys := by
    rw [← hcut xs after hxs, h, hcut ys after' hys]
  subst hsame
  exact ⟨rfl, (List.cons.inj (List.append_cancel_left h)).2⟩

lemma domain_eq_of_method_eq {domain domain' name name' : String}
    (h : domain ++ "." ++ name = domain' ++ "." ++ name') (hdot : '.' ∉ domain.toList)
    (hdot' : '.' ∉ domain'.toList) : domain = domain' := by
  have hchars : domain.toList ++ '.' :: name.toList = domain'.toList ++ '.' :: name'.toList := by
    simpa using congrArg String.toList h
  exact String.toList_inj.mp (eq_of_append_cons_eq hdot hdot' hchars).1

/-- The registrations of some constants of a domain. -/
def registrationsOf (d : DomainBindings) (constants : List MethodConstant) :
    List (String × MethodEntry) :=
  constants.filterMap fun c => (entryOf? d c).map (c.method, ·)

lemma registrations_eq (b : Bindings) :
    b.registrations = b.domains.flatMap fun d => registrationsOf d d.methods := by
  rw [registrations, List.flatMap]
  rfl

lemma methodMap_eq (b : Bindings) : b.methodMap = MethodMap.register {} b.registrations := rfl

/-- The method constants with their domains, in order. -/
def constants (b : Bindings) : List (DomainBindings × MethodConstant) :=
  b.domains.flatMap fun d => d.methods.map (d, ·)

/-- Whether a registration is that of a constant. -/
def IsRegistration (constant : DomainBindings × MethodConstant)
    (registration : String × MethodEntry) : Prop :=
  registration.1 = constant.2.method ∧ constant.2.StandsFor constant.1 registration.2

lemma forall₂_registrationsOf {d : DomainBindings} {cs : List MethodConstant}
    (hd : d ∈ (generate settings description).domains) (hcs : ∀ c ∈ cs, c ∈ d.methods) :
    List.Forall₂ IsRegistration (cs.map (d, ·)) (registrationsOf d cs) := by
  induction cs with
  | nil => exact .nil
  | cons c rest ih =>
    obtain ⟨entry, hentry, hstands⟩ := exists_entry hd (hcs c List.mem_cons_self)
    have hsome : (entryOf? d c).map (c.method, ·) = some (c.method, entry) := by simp [hentry]
    have hcons : registrationsOf d (c :: rest) = (c.method, entry) :: registrationsOf d rest :=
      List.filterMap_cons_some hsome
    rw [hcons]
    exact .cons ⟨rfl, hstands⟩ (ih fun x hx => hcs x (List.mem_cons_of_mem _ hx))

lemma keys_of_forall₂ {constants : List (DomainBindings × MethodConstant)}
    {registrations : List (String × MethodEntry)}
    (h : List.Forall₂ IsRegistration constants registrations) :
    registrations.map (·.1) = constants.map (·.2.method) := by
  induction h with
  | nil => rfl
  | cons hhead _ ih => rw [List.map_cons, List.map_cons, ih, hhead.1]

lemma keys_registrationsOf {d : DomainBindings}
    (hd : d ∈ (generate settings description).domains) :
    (registrationsOf d d.methods).map (·.1) = d.methods.map (·.method) := by
  rw [keys_of_forall₂ (forall₂_registrationsOf hd fun _ hc => hc), List.map_map]
  rfl

lemma forall₂_registrations (settings : Settings) (description : Description) :
    List.Forall₂ IsRegistration (generate settings description).constants
      (generate settings description).registrations := by
  rw [registrations_eq, constants]
  have hflat : ∀ domains : List DomainBindings,
      (∀ d ∈ domains, d ∈ (generate settings description).domains) →
      List.Forall₂ IsRegistration (domains.flatMap fun d => d.methods.map (d, ·))
        (domains.flatMap fun d => registrationsOf d d.methods) := by
    intro domains hdomains
    induction domains with
    | nil => exact .nil
    | cons d rest ih =>
      rw [List.flatMap_cons, List.flatMap_cons]
      refine List.rel_append (forall₂_registrationsOf (hdomains d List.mem_cons_self) ?_) ?_
      · exact fun _ hc => hc
      · exact ih fun e he => hdomains e (List.mem_cons_of_mem _ he)
  exact hflat _ fun _ hd => hd

lemma registration_lines (b : Bindings) :
    ((Source.rootLines b).filter (·.indent == 2)).map (·.text) =
      b.constants.map (fun (d, c) => (Source.registration d c).text) ++ [".build()"] := by
  simp [Source.rootLines, Source.header, Source.block, Source.indented, Source.line, Source.blank,
    constants, Source.registration, List.filter_map, Function.comp_def, List.flatMap]

/-- A constant whose method does not come again is what its method leads to. -/
lemma lookup_of_last {before after : List DomainBindings} {d : DomainBindings} {c : MethodConstant}
    (hdomains : (generate settings description).domains = before ++ d :: after)
    (hc : c ∈ d.methods) (hafter : ∀ e ∈ after, ∀ x ∈ e.methods, x.method ≠ c.method)
    (hlast : c.kind = .event ∨ ∀ x ∈ d.methods, x.kind = .event → x.method ≠ c.method) :
    ∃ entry, (generate settings description).methodMap.lookup c.method = some entry ∧
      c.StandsFor d entry := by
  have hd : d ∈ (generate settings description).domains := by simp [hdomains]
  obtain ⟨entry, hentry, hstands⟩ := exists_entry hd hc
  obtain ⟨us, vs, hsplit⟩ := List.append_of_mem hc
  have hvs : ∀ x ∈ vs, x.method ≠ c.method := by
    intro x hx hsame
    have hordered := hsplit ▸ methods_ordered hd
    have hkinds := (List.pairwise_cons.mp (List.pairwise_append.mp hordered).2.1).1 x hx hsame.symm
    have hx : x ∈ d.methods := by simp [hsplit, hx]
    rcases hlast with hevent | hnone
    · rw [hkinds.1] at hevent
      cases hevent
    · exact hnone x hx hkinds.2 hsame
  have hregistrations : (generate settings description).registrations =
      (before.flatMap (fun e => registrationsOf e e.methods) ++ registrationsOf d us) ++
        (c.method, entry) ::
          (registrationsOf d vs ++ after.flatMap fun e => registrationsOf e e.methods) := by
    rw [registrations_eq, hdomains]
    simp [registrationsOf, hsplit, hentry]
  refine ⟨entry, ?_, hstands⟩
  rw [methodMap_eq, hregistrations]
  apply MethodMap.lookup_register
  intro hmem
  rw [List.map_append, List.mem_append, List.map_flatMap] at hmem
  rcases hmem with hmem | hmem
  · obtain ⟨r, hr, hname⟩ := List.mem_map.mp hmem
    obtain ⟨x, hx, hsome⟩ := List.mem_filterMap.mp hr
    obtain ⟨_, _, rfl⟩ := Option.map_eq_some_iff.mp hsome
    exact hvs x hx hname
  · obtain ⟨e, he, hmem⟩ := List.mem_flatMap.mp hmem
    have he' : e ∈ (generate settings description).domains := by simp [hdomains, he]
    rw [keys_registrationsOf he'] at hmem
    obtain ⟨x, hx, hname⟩ := List.mem_map.mp hmem
    exact hafter e he x hx hname

/-- The root file registers every method constant in order, each under its method and with what it
stands for. So the map has exactly the emitted wire methods, and a method leads to the last domain
that has it, and there to the event before the command. If no domain's name has a dot, no two
domains have one method, and then no event is lost. -/
theorem methods_lead_to_the_last_domain (settings : Settings) (description : Description) :
    let b := generate settings description
    ((Source.rootLines b).filter (·.indent == 2)).map (·.text) =
      b.constants.map (fun (d, c) => (Source.registration d c).text) ++ [".build()"] ∧
    b.constants.map (·.2) = b.methods ∧
    List.Forall₂ IsRegistration b.constants b.registrations ∧
    b.methodMap.methods.Pairwise (· < ·) ∧
    (∀ method, method ∈ b.methodMap.methods ↔ ∃ c ∈ b.methods, c.method = method) ∧
    (∀ before d after, b.domains = before ++ d :: after → ∀ c ∈ d.methods,
      (∀ e ∈ after, ∀ x ∈ e.methods, x.method ≠ c.method) →
      (c.kind = .event ∨ ∀ x ∈ d.methods, x.kind = .event → x.method ≠ c.method) →
      ∃ entry, b.methodMap.lookup c.method = some entry ∧ c.StandsFor d entry) ∧
    ((∀ d ∈ b.domains, '.' ∉ d.name.toList) → ∀ d ∈ b.domains, ∀ c ∈ d.methods,
      (c.kind = .event ∨ ∀ x ∈ b.methods, x.kind = .event → x.method ≠ c.method) →
      ∃ entry, b.methodMap.lookup c.method = some entry ∧ c.StandsFor d entry) := by
  intro b
  have hconstants : b.constants.map (·.2) = b.methods := by
    simp [constants, methods, List.flatMap, Function.comp_def]
  have hregistrations : List.Forall₂ IsRegistration b.constants b.registrations :=
    forall₂_registrations settings description
  have hkeys : b.registrations.map (·.1) = b.methods.map (·.method) := by
    rw [keys_of_forall₂ hregistrations, ← hconstants, List.map_map]
    rfl
  refine ⟨registration_lines b, hconstants, hregistrations,
    MethodMap.methods_sorted (MethodMap.nodup_register List.nodup_nil), ?_, ?_, ?_⟩
  · intro method
    have hmem : method ∈ b.methodMap.methods ↔ method ∈ b.methodMap.entries.map (·.1) :=
      (List.mergeSort_perm _ _).mem_iff
    rw [hmem, methodMap_eq, MethodMap.mem_keys_register, hkeys]
    simp
  · intro before d after hdomains c hc hafter hlast
    exact lookup_of_last hdomains hc hafter hlast
  · intro hdots d hd c hc hlast
    obtain ⟨before, after, hdomains⟩ := List.append_of_mem hd
    refine lookup_of_last hdomains hc ?_ ?_
    · intro e he x hx hsame
      have he' : e ∈ b.domains := by simp [hdomains, he]
      obtain ⟨n, hn⟩ := method_eq he' hx
      obtain ⟨n', hn'⟩ := method_eq hd hc
      have hname : e.name = d.name :=
        domain_eq_of_method_eq (hn.symm.trans (hsame.trans hn')) (hdots e he') (hdots d hd)
      have hnodup : (b.domains.map (·.name)).Nodup := by
        rw [names_generate]
        exact retained_names_nodup description
      rw [hdomains, List.map_append, List.map_cons] at hnodup
      have hnew := (List.nodup_cons.mp (List.nodup_append.mp hnodup).2.1).1
      exact hnew (hname ▸ List.mem_map_of_mem he)
    · refine hlast.imp_right fun hnone x hx => hnone x ?_
      simp only [methods, List.mem_flatten, List.mem_map]
      exact ⟨d.methods, ⟨d, hd, rfl⟩, hx⟩

/-- An event of the domain `A.b`, and a command of the domain `A` with a dot in its name. -/
def dottedDomain : Description :=
  { domains :=
      [{ name := "A.b", events := [{ name := "c" }] },
        { name := "A", commands := [{ name := "b.c" }] }] }

/-- Both are emitted with one wire method, and the map has lost the event. -/
theorem command_replaces_an_event :
    let b := generate {} dottedDomain
    b.methods.map (fun c => (c.kind, c.method)) = [(.event, "A.b.c"), (.command, "A.b.c")] ∧
      (b.methodMap.lookup "A.b.c").map (·.kind) = some .command ∧
      ¬ ∀ d ∈ b.domains, ∀ c ∈ d.methods, c.kind = .event →
        ∃ entry, b.methodMap.lookup c.method = some entry ∧ c.StandsFor d entry := by
  intro b
  have hkind : (b.methodMap.lookup "A.b.c").map (·.kind) = some .command := rfl
  refine ⟨rfl, hkind, fun hall => ?_⟩
  obtain ⟨entry, hentry, hstands⟩ := hall _ List.mem_cons_self _ (List.mem_singleton_self _) rfl
  rw [show b.methodMap.lookup "A.b.c" = some entry from hentry] at hkind
  cases hstands with
  | event => cases hkind
  | command kind => cases kind

end Bindings

end InspectorProtocol
