import InspectorProtocol.Proofs.Generated
import InspectorProtocol.Proofs.InlineRecords
import Mathlib.Data.List.Nodup

/-!
# From declarations to drafts

A declared type, command or event determines the outlines of its bindings before anything is
resolved. Its draft, if there is one, carries them out. The drafts of a domain that are kept belong
to some of its declarations in order, and no two of them share a name.
-/

namespace InspectorProtocol

open Description Text

/-- Where the types that the main binding of a declared type refers to come from. -/
def Description.TypeDecl.origins (settings : Settings) (domain : String) (type : TypeDecl) :
    List Origin :=
  match settings.override? domain type.name, type.values, type.kind, type.properties with
  | some _, _, _, _ => [.plain]
  | none, _ :: _, _, _ => []
  | none, [], .object, p :: ps => (p :: ps).map (·.origin type.name)
  | none, [], .array, _ => (type.items.map (·.origin (type.name ++ "Item"))).toList
  | none, [], _, _ => [.plain]

namespace Declaration

/-- The outlines of the bindings that bear the name of a declaration. -/
def mainOutlines (settings : Settings) (domain : String) : Declaration → List Outline
  | .type decl => [⟨Identifier.typeName decl.name, decl.origins settings domain⟩]
  | .command decl =>
    let stem := Identifier.typeName domain ++ Identifier.typeName decl.name
    [⟨stem ++ "Request", decl.parameters.map (·.origin (stem ++ "Request"))⟩,
      ⟨stem ++ "Response", decl.returns.map (·.origin (stem ++ "Response"))⟩]
  | .event decl =>
    let name := Identifier.typeName domain ++ Identifier.typeName decl.name ++ "Payload"
    [⟨name, decl.parameters.map (·.origin name)⟩]

/-- The records made up for a declaration. -/
def inlineRecords (settings : Settings) (domain : String) (x : Declaration) : List InlineRecord :=
  ((x.mainOutlines settings domain).flatMap (·.records)).flatMap (·.tree)

/-- The outlines of all bindings of a declaration. -/
def outlines (settings : Settings) (domain : String) (x : Declaration) : List Outline :=
  x.mainOutlines settings domain ++ (x.inlineRecords settings domain).map (·.outline)

lemma mem_inlineRecords_of_origin {settings : Settings} {domain : String} {x : Declaration}
    {o : Outline} {r : InlineRecord} (ho : o ∈ x.outlines settings domain)
    (hr : .inline r ∈ o.origins) : r ∈ x.inlineRecords settings domain := by
  unfold inlineRecords
  rcases List.mem_append.mp ho with hmain | hinline
  · refine List.mem_flatMap.mpr ⟨r, List.mem_flatMap.mpr ⟨o, hmain, ?_⟩, r.mem_tree_self⟩
    exact List.mem_filterMap.mpr ⟨_, hr, rfl⟩
  · obtain ⟨owner, howner, rfl⟩ := List.mem_map.mp hinline
    obtain ⟨root, hroot, htree⟩ := List.mem_flatMap.mp howner
    obtain ⟨p, hp, horigin⟩ := List.mem_map.mp hr
    refine List.mem_flatMap.mpr ⟨root, hroot, InlineRecord.mem_tree_of_direct htree ?_⟩
    exact List.mem_filterMap.mpr ⟨p, hp, by rw [horigin]; rfl⟩

end Declaration

namespace Draft

variable {settings : Settings} {c : Catalogue} {domain : String} {draft : Draft}

lemma records_singleton (o : Origin) : [o].filterMap (·.record?) = o.record?.toList := by
  cases h : o.record? <;> simp [h]

lemma origin_of_kind (owner name : String) (kind : Kind) :
    PropertyOf.origin owner { name := name, kind := some kind } = .plain := by
  cases kind <;> rfl

lemma typeBinding_outline {type : TypeDecl} {binding : Binding} {records : List InlineRecord}
    (h : typeBinding settings c domain type = .ok (binding, records)) :
    records = (type.origins settings domain).filterMap (·.record?) ∧
      List.Forall₂ (·.Gives c domain) (type.origins settings domain) binding.references := by
  have hbinds := bindsType_of_typeBinding h
  unfold TypeDecl.origins
  cases hbinds with
  | @replaced replacement hoverride =>
    simp only [hoverride]
    exact ⟨rfl, .cons (by cases replacement <;> rfl) .nil⟩
  | values hoverride hvalues =>
    simp only [hoverride, hvalues]
    exact ⟨rfl, .nil⟩
  | record hoverride hvalues hkind hproperties hfields =>
    simp only [hoverride, hvalues, hkind, hproperties]
    obtain ⟨hrecords, hgives⟩ := fieldsFrom_spec hfields
    refine ⟨?_, ?_⟩
    · rw [hrecords, directRecords, List.filterMap_map]
      rfl
    · simpa [Binding.references] using hgives
  | array hoverride hvalues hkind hitems hresolved =>
    obtain ⟨hrecords, hgives⟩ := Catalogue.resolveItems_spec hresolved
    simp only [hoverride, hvalues, hkind, hitems]
    exact ⟨hrecords.trans (records_singleton _).symm, .cons hgives .nil⟩
  | plain hoverride hvalues harray hobject hresolved =>
    obtain ⟨hrecords, hgives⟩ := Catalogue.resolveProperty_spec hresolved
    rw [origin_of_kind] at hrecords hgives
    simp only [hoverride, hvalues]
    exact ⟨hrecords, .cons hgives .nil⟩

/-- A draft has the bindings that bear the name of its declaration, then those of the records made
up for them. -/
lemma attempt_mains {x : Declaration} (h : x.attempt settings c domain = .ok draft) :
    ∃ mains inline, draft.bindings = mains ++ inline ∧
      List.Forall₂ (Outline.Renders c domain) (x.mainOutlines settings domain) mains ∧
      inlineBindings c domain ((x.mainOutlines settings domain).flatMap (·.records)) =
        .ok inline := by
  cases made_of_attempt h with
  | type hbinding hinline =>
    obtain ⟨hrecords, hgives⟩ := typeBinding_outline hbinding
    refine ⟨[_], _, rfl, .cons ?_ .nil, ?_⟩
    · exact ⟨by simpa only using (typeBinding_spec hbinding).1, hgives⟩
    · simpa [Declaration.mainOutlines, Outline.records, hrecords] using hinline
  | command hrequest hresponse hparameters hreturns hinline =>
    refine ⟨[_, _], _, rfl, ?_, ?_⟩
    · rw [Declaration.mainOutlines, ← hrequest, ← hresponse]
      exact .cons (renders_of_fields hparameters rfl rfl rfl)
        (.cons (renders_of_fields hreturns rfl rfl rfl) .nil)
    · rw [(fieldsFrom_spec hparameters).1, (fieldsFrom_spec hreturns).1] at hinline
      simpa [Declaration.mainOutlines, ← hrequest, ← hresponse, Outline.records, directRecords,
        List.filterMap_map, Function.comp_def] using hinline
  | event hpayload hparameters hinline =>
    refine ⟨[_], _, rfl, ?_, ?_⟩
    · rw [Declaration.mainOutlines, ← hpayload]
      exact .cons (renders_of_fields hparameters rfl rfl rfl) .nil
    · rw [(fieldsFrom_spec hparameters).1] at hinline
      simpa [Declaration.mainOutlines, ← hpayload, Outline.records, directRecords,
        List.filterMap_map, Function.comp_def] using hinline

/-- The draft of a declaration carries out its outlines, those of records in the order in which
they are found. -/
theorem attempt_outlines {x : Declaration} (h : x.attempt settings c domain = .ok draft) :
    ∃ found : List Outline, found.Perm (x.outlines settings domain) ∧
      List.Forall₂ (Outline.Renders c domain) found draft.bindings := by
  obtain ⟨mains, inline, hbindings, hmains, hinline⟩ := attempt_mains h
  obtain ⟨order, hperm, hbuilds⟩ := recordBindings_spec (Nat.le_refl _) hinline
  refine ⟨x.mainOutlines settings domain ++ order.map (·.outline), ?_, ?_⟩
  · exact (hperm.map _).append_left _
  · rw [hbindings]
    refine List.rel_append hmains (List.forall₂_map_left_iff.mpr ?_)
    exact hbuilds.imp fun _ _ => renders_of_builds

lemma attempt_labels {x : Declaration} (h : x.attempt settings c domain = .ok draft) :
    draft.item = x.name ∧ draft.kind = x.kind ∧ draft.declares = x.declares := by
  cases made_of_attempt h with
  | type | command | event => exact ⟨rfl, rfl, rfl⟩

end Draft

namespace Bindings

/-- The domains of a description that are not repetitions. -/
def retained (description : Description) : List Domain :=
  (distinctDomains [] description.domains).1

def catalogue (settings : Settings) (description : Description) : Catalogue :=
  Catalogue.ofDomains settings (retained description)

lemma exists_sublist_of_forall₂ {α β : Type} {R : α → β → Prop} {xs : List α} {ys kept : List β}
    (h : List.Forall₂ R xs ys) (hkept : kept.Sublist ys) :
    ∃ used, used.Sublist xs ∧ List.Forall₂ R used kept := by
  induction hkept generalizing xs with
  | slnil =>
    cases h
    exact ⟨[], .slnil, .nil⟩
  | cons y _ ih =>
    cases h with
    | cons _ hrest =>
      obtain ⟨used, hsub, hused⟩ := ih hrest
      exact ⟨used, hsub.cons _, hused⟩
  | cons_cons y _ ih =>
    cases h with
    | cons hhead hrest =>
      obtain ⟨used, hsub, hused⟩ := ih hrest
      exact ⟨_ :: used, hsub.cons_cons _, .cons hhead hused⟩

variable {settings : Settings} {description : Description}

/-- The kept drafts of a domain are those of some of its declarations in order, and no two of them
share a name. -/
theorem kept_items {o : DomainDrafts} (ho : o ∈ kept settings description) :
    o.domain ∈ retained description ∧ o.drafts.Pairwise (fun x y => x.names.Disjoint y.names) ∧
      ∃ items : List Declaration, items.Sublist o.domain.declarations ∧
        List.Forall₂ (fun x draft =>
          x.attempt settings (catalogue settings description) o.domain.name = .ok draft)
          items o.drafts := by
  obtain ⟨o', ho', hdomain, hdrafts⟩ := (Pruning.prune_thins _).exists_sublist_of_mem ho
  obtain ⟨domain, hretained, rfl⟩ := List.mem_map.mp ho'
  have hsifts := Draft.sifts_keepFree domain.name []
    (Draft.attempts settings (catalogue settings description) domain)
  obtain ⟨_, hpairwise⟩ := hsifts.apart
  obtain ⟨used, hused, hattempts⟩ := hsifts.sublist
  rw [Draft.attempts_eq] at hused
  obtain ⟨items, hitems, rfl⟩ := List.sublist_map_iff.mp hused
  obtain ⟨kept, hkept, hrenders⟩ :=
    exists_sublist_of_forall₂ (List.forall₂_map_left_iff.mp hattempts) hdrafts
  rw [hdomain]
  exact ⟨hretained, hpairwise.sublist hdrafts, kept, hkept.trans hitems, hrenders⟩

lemma exists_item_of_draft {o : DomainDrafts} {draft : Draft}
    (ho : o ∈ kept settings description) (hdraft : draft ∈ o.drafts) :
    ∃ x ∈ o.domain.declarations,
      x.attempt settings (catalogue settings description) o.domain.name = .ok draft := by
  obtain ⟨_, _, items, hitems, hdrafts⟩ := kept_items ho
  obtain ⟨x, hx, hattempt⟩ := exists_left_of_mem hdrafts hdraft
  exact ⟨x, hitems.subset hx, hattempt⟩

/-! ### Names of domains -/

/-- The drafts of a description before pruning. -/
def drafted (settings : Settings) (description : Description) : List DomainDrafts :=
  (retained description).map fun d =>
    ⟨d, (Draft.ofDomain settings (catalogue settings description) d).1⟩

lemma distinctDomains_nodup (seen : List String) (domains : List Domain) :
    ((distinctDomains seen domains).1.map (foldCase ·.name)).Nodup ∧
      ∀ d ∈ (distinctDomains seen domains).1, foldCase d.name ∉ seen := by
  induction domains generalizing seen with
  | nil => simp [distinctDomains]
  | cons d rest ih =>
    unfold distinctDomains
    simp only
    split
    · exact ih seen
    · rename_i hnew
      obtain ⟨hnodup, hfresh⟩ := ih (foldCase d.name :: seen)
      refine ⟨List.nodup_cons.mpr ⟨fun hmem => ?_, hnodup⟩, fun other hother => ?_⟩
      · obtain ⟨other, hother, heq⟩ := List.mem_map.mp hmem
        exact hfresh other hother (heq ▸ List.mem_cons_self)
      · rcases List.mem_cons.mp hother with rfl | hlater
        · simpa using hnew
        · exact fun hseen => hfresh other hlater (List.mem_cons_of_mem _ hseen)

lemma kept_domains : (kept settings description).map (·.domain) = retained description := by
  have hthins : Pruning.Thins (kept settings description) (drafted settings description) :=
    Pruning.prune_thins _
  rw [hthins.domains, drafted, List.map_map]
  exact List.map_id _

lemma kept_names_nodup : ((kept settings description).map (·.domain.name)).Nodup := by
  have hnodup : ((retained description).map (foldCase ·.name)).Nodup :=
    (distinctDomains_nodup [] description.domains).1
  rw [← @kept_domains settings] at hnodup
  refine List.Nodup.of_map foldCase ?_
  simpa [List.map_map, Function.comp_def] using hnodup

lemma eq_of_name_eq {o o' : DomainDrafts} (ho : o ∈ kept settings description)
    (ho' : o' ∈ kept settings description) (h : o.domain.name = o'.domain.name) : o = o' :=
  List.inj_on_of_nodup_map kept_names_nodup ho ho' h

end Bindings

end InspectorProtocol
