import InspectorProtocol.Proofs.Boxing
import InspectorProtocol.Proofs.Pruning
import InspectorProtocol.Binding.Generation

/-!
# What generated bindings refer to

The bindings of a description are those of the drafts that pruning keeps. A kept draft needs only
declared types of kept drafts, and each of these brings the binding that bears its name, so no
reference is left without one. Boxing then changes nothing but the fields on a circle.
-/

namespace InspectorProtocol

open Description

/-- Names the type of a domain, itself or in the elements of lists. -/
inductive TypeRef.Mentions : TypeRef → String → String → Prop where
  | self (domain name : String) : Mentions (.named domain name) domain name
  | list {element : TypeRef} {domain name : String} (h : element.Mentions domain name) :
    Mentions (.list element) domain name

lemma TypeRef.Mentions.named? {type : TypeRef} {domain name : String}
    (h : type.Mentions domain name) : type.named? = some (domain, name) := by
  induction h with
  | self => rfl
  | list _ ih => exact ih

namespace Bindings

/-- The drafts of a description that pruning keeps. -/
def kept (settings : Settings) (description : Description) : List DomainDrafts :=
  let domains := (distinctDomains [] description.domains).1
  let catalogue := Catalogue.ofDomains settings domains
  (Pruning.prune (domains.map fun domain =>
    ⟨domain, (Draft.ofDomain settings catalogue domain).1⟩)).1

lemma domains_generate (settings : Settings) (description : Description) :
    (generate settings description).domains =
      Boxing.boxAll ((kept settings description).map assemble) := by
  simp only [generate, kept, List.map_map, Function.comp_def]

variable {settings : Settings} {description : Description}

lemma kept_closed : Pruning.Closed (kept settings description) :=
  Pruning.prune_closed _

lemma kept_sound {o : DomainDrafts} (ho : o ∈ kept settings description) :
    ∀ draft ∈ o.drafts, draft.Sound o.domain.name := by
  intro draft hdraft
  obtain ⟨o', ho', hdomain, hdrafts⟩ := (Pruning.prune_thins _).exists_of_mem ho
  obtain ⟨domain, _, rfl⟩ := List.mem_map.mp ho'
  rw [hdomain]
  exact Draft.sound_of_mem_ofDomain (hdrafts hdraft)

lemma mem_assemble {o : DomainDrafts} {b : Binding} :
    b ∈ (assemble o).bindings ↔ ∃ draft ∈ o.drafts, b ∈ draft.bindings := by
  simp [assemble]

lemma assembled_unboxed :
    ∀ d ∈ (kept settings description).map assemble, ∀ b ∈ d.bindings, b.Unboxed := by
  intro d hd b hb
  obtain ⟨o, ho, rfl⟩ := List.mem_map.mp hd
  obtain ⟨draft, hdraft, hmem⟩ := mem_assemble.mp hb
  exact (kept_sound ho draft hdraft).unboxed b hmem

lemma exists_kept_binding {o : DomainDrafts} {draft : Draft} {b : Binding} {type : TypeRef}
    {domain name : String} (ho : o ∈ kept settings description) (hdraft : draft ∈ o.drafts)
    (hb : b ∈ draft.bindings) (htype : type ∈ b.references)
    (hnamed : type.named? = some (domain, name)) :
    ∃ o' ∈ kept settings description, o'.domain.name = domain ∧
      ∃ draft' ∈ o'.drafts, ∃ b' ∈ draft'.bindings, b'.name = Identifier.typeName name := by
  by_cases hown : domain = o.domain.name ∧ ∃ b' ∈ draft.bindings, b'.name = Identifier.typeName name
  · exact ⟨o, ho, hown.1.symm, draft, hdraft, hown.2⟩
  · have hneed : (domain, name) ∈ draft.needs := by
      rw [(kept_sound ho draft hdraft).needs, Draft.mem_neededTypes]
      exact ⟨Draft.mem_namedTypes.mpr ⟨b, hb, type, htype, hnamed⟩, hown⟩
    have hdeclared := kept_closed o ho draft hdraft _ hneed
    obtain ⟨o', ho', draft', hdraft', hdomain, hdeclares⟩ := Pruning.mem_declared.mp hdeclared
    have hbinding := (kept_sound ho' draft' hdraft').declared name hdeclares
    exact ⟨o', ho', hdomain, draft', hdraft', hbinding⟩

/-- A binding of a kept draft with its fields boxed. -/
def boxed (settings : Settings) (description : Description) (o : DomainDrafts) :
    Binding → Binding :=
  Boxing.box ((kept settings description).map assemble) o.domain.name

lemma exists_draft_of_mem {d : DomainBindings} {b : Binding}
    (hd : d ∈ (generate settings description).domains) (hb : b ∈ d.bindings) :
    ∃ o ∈ kept settings description, ∃ draft ∈ o.drafts,
      (∃ b' ∈ draft.bindings, boxed settings description o b' = b) ∧
      ∀ b' ∈ draft.bindings, boxed settings description o b' ∈ d.bindings := by
  rw [domains_generate, Boxing.mem_boxAll] at hd
  obtain ⟨d', hd', rfl⟩ := hd
  obtain ⟨o, ho, rfl⟩ := List.mem_map.mp hd'
  obtain ⟨b', hb', hboxed⟩ := List.mem_map.mp hb
  obtain ⟨draft, hdraft, hmem⟩ := mem_assemble.mp hb'
  refine ⟨o, ho, draft, hdraft, ⟨b', hmem, hboxed⟩, ?_⟩
  intro b'' hb''
  exact List.mem_map_of_mem (mem_assemble.mpr ⟨draft, hdraft, hb''⟩)

lemma exists_mem_of_draft {o : DomainDrafts} {draft : Draft} {b : Binding}
    (ho : o ∈ kept settings description) (hdraft : draft ∈ o.drafts) (hb : b ∈ draft.bindings) :
    ∃ d ∈ (generate settings description).domains, d.name = o.domain.name ∧
      boxed settings description o b ∈ d.bindings := by
  rw [domains_generate]
  refine ⟨_, Boxing.mem_boxAll.mpr ⟨_, List.mem_map_of_mem ho, rfl⟩, rfl, ?_⟩
  exact List.mem_map_of_mem (mem_assemble.mpr ⟨draft, hdraft, hb⟩)

/-- Every type that a binding mentions has a binding, and every request has its response. -/
theorem references_are_bound (settings : Settings) (description : Description) :
    let domains := (generate settings description).domains
    (∀ d ∈ domains, ∀ b ∈ d.bindings, ∀ type ∈ b.references, ∀ domain name,
      type.Mentions domain name → ∃ e ∈ domains, e.name = domain ∧
        ∃ target ∈ e.bindings, target.name = Identifier.typeName name) ∧
    ∀ d ∈ domains, ∀ request ∈ d.bindings, request.kind = .request →
      ∃ response ∈ d.bindings, response.Answers request := by
  intro domains
  constructor
  · intro d hd b hb type htype domain name hmentions
    obtain ⟨o, ho, draft, hdraft, ⟨b', hb', rfl⟩, _⟩ := exists_draft_of_mem hd hb
    unfold boxed at htype
    rw [Boxing.references_box] at htype
    obtain ⟨o', ho', hdomain, draft', hdraft', target, htarget, hname⟩ :=
      exists_kept_binding ho hdraft hb' htype hmentions.named?
    obtain ⟨e, he, hename, hmem⟩ := exists_mem_of_draft ho' hdraft' htarget
    exact ⟨e, he, hename.trans hdomain, _, hmem, (Boxing.name_box _ _ _).trans hname⟩
  · intro d hd request hrequest hkind
    obtain ⟨o, ho, draft, hdraft, ⟨b', hb', rfl⟩, hothers⟩ := exists_draft_of_mem hd hrequest
    unfold boxed at hkind
    rw [Boxing.kind_box] at hkind
    obtain ⟨response, hresponse, hanswers⟩ := (kept_sound ho draft hdraft).answered b' hb' hkind
    exact ⟨_, hothers response hresponse, hanswers.kind, hanswers.name, hanswers.method⟩

/-- A field is boxed exactly when the type it holds by value leads back to its owner by value, and
so lies on a circle. What stays unboxed runs in no circle, and every binding has a finite size. -/
theorem boxed_exactly_on_circles (settings : Settings) (description : Description) :
    let domains := (generate settings description).domains
    (∀ d ∈ domains, ∀ b ∈ d.bindings, ∀ f ∈ b.fields,
      (f.boxed = true ↔ ∃ y, f.type.byValue? = some y ∧
        Relation.ReflTransGen (Boxing.HoldsByValue domains) y (d.name, b.name)) ∧
      (f.boxed = true →
        Relation.TransGen (Boxing.HoldsByValue domains) (d.name, b.name) (d.name, b.name))) ∧
    (∀ x, ¬ Relation.TransGen (Boxing.StoresInline domains) x x) ∧
    ∃ size : String × String → Nat, ∀ d ∈ domains, ∀ b ∈ d.bindings,
      total size (b.inlineTypes.filterMap TypeRef.byValue?) < size (d.name, b.name) := by
  rw [domains_generate]
  intro domains
  have hacyclic : ∀ x, ¬ Relation.TransGen (Boxing.StoresInline domains) x x :=
    Boxing.not_transGen_storesInline assembled_unboxed
  refine ⟨?_, hacyclic, Boxing.exists_size hacyclic⟩
  intro d hd b hb f hf
  have hboxed := Boxing.boxed_iff assembled_unboxed hd hb hf
  refine ⟨hboxed, ?_⟩
  intro h
  obtain ⟨y, hy, hback⟩ := hboxed.mp h
  have hholds : Boxing.HoldsByValue domains (d.name, b.name) y :=
    ⟨d, hd, b, hb, rfl, f.type, List.mem_append_left _ (List.mem_map_of_mem hf), hy⟩
  exact Relation.TransGen.head' hholds hback

/-- Nodes hold leaves, which refer back, beside lists of nodes. -/
def tree : Description :=
  { domains :=
      [{ name := "Dom"
         types :=
          [{ name := "Leaf", kind := .object
             properties := [{ name := "owner", reference := some "Node" }] },
            { name := "Node", kind := .object
              properties :=
                [{ name := "leaf", reference := some "Leaf" },
                  { name := "branches", kind := some .array
                    items := some { reference := some "Node" } }] }] }] }

example : (generate {} tree).domains.map (fun d => d.bindings.map fun b => b.fields.map (·.boxed)) =
    [[[true], [true, false]]] := by
  rfl

end Bindings

end InspectorProtocol
