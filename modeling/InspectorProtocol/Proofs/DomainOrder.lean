import InspectorProtocol.Proofs.Lookup
import InspectorProtocol.Proofs.Reports

/-!
# The order of domains

References may point forward and into other domains, so what a domain gets must not depend on where
it stands. Every stage looks at the other domains through something that has no order: the entries
of the catalogue, which have distinct keys, the set of declared types, and the relation between
bindings that hold each other.
-/

namespace InspectorProtocol

open Description Text

namespace Catalogue

variable {settings : Settings} {c c' : Catalogue}

/-- The entry of a domain whose name no other domain has. -/
def entryOf (settings : Settings) (d : Domain) : String × CatalogueEntry :=
  (foldCase d.name, ⟨d.name, (d.types.map (declaration settings d.name)).reverse⟩)

lemma enter_of_notMem {key name : String} {types : List (String × TypeRef)}
    {entries : List (String × CatalogueEntry)} (h : key ∉ entries.map (·.1)) :
    enter key name types entries = entries ++ [(key, ⟨name, types⟩)] := by
  induction entries with
  | nil => rfl
  | cons entry rest ih =>
    rw [List.map_cons, List.mem_cons, not_or] at h
    have hother : (entry.1 == key) = false := beq_eq_false_iff_ne.mpr (Ne.symm h.1)
    rw [enter, hother, ih h.2]
    rfl

lemma entries_foldl {domains : List Domain}
    (h : (c.entries.map (·.1) ++ domains.map (foldCase ·.name)).Nodup) :
    (domains.foldl (addDomain settings) c).entries =
      c.entries ++ domains.map (entryOf settings) := by
  induction domains generalizing c with
  | nil => exact (List.append_nil _).symm
  | cons d rest ih =>
    have hnew : foldCase d.name ∉ c.entries.map (·.1) := by
      intro hmem
      exact (List.nodup_append.mp h).2.2 _ hmem _ List.mem_cons_self rfl
    have hentries : (addDomain settings c d).entries = c.entries ++ [entryOf settings d] :=
      enter_of_notMem hnew
    rw [List.foldl_cons, ih, hentries, List.append_assoc]
    · rfl
    · rw [hentries, List.map_append, List.append_assoc]
      exact h

lemma entries_ofDomains {domains : List Domain} (h : (domains.map (foldCase ·.name)).Nodup) :
    (ofDomains settings domains).entries = domains.map (entryOf settings) :=
  entries_foldl h

lemma resolveReference_congr
    (hdeclared : ∀ domain type, c.declared? domain type = c'.declared? domain type)
    (heverywhere : ∀ type, (c.everywhere type).Perm (c'.everywhere type)) :
    c.resolveReference = c'.resolveReference := by
  funext here reference
  unfold resolveReference
  simp only [hdeclared]
  cases cutAt? '.' reference with
  | some => rfl
  | none =>
    cases c'.declared? here reference with
    | some => rfl
    | none =>
      have hperm := heverywhere reference
      generalize c.everywhere reference = types, c'.everywhere reference = types' at hperm
      rcases types with _ | ⟨type, _ | ⟨second, rest⟩⟩
      · rw [hperm.nil_eq]
      · rw [List.singleton_perm.mp hperm]
      · have hlength := hperm.length_eq
        rcases types' with _ | ⟨type', _ | ⟨second', rest'⟩⟩
        · cases hlength
        · cases hlength
        · rfl

lemma resolveReference_of_entries (h : c.entries.Perm c'.entries)
    (hkeys : (c.entries.map (·.1)).Nodup) : c.resolveReference = c'.resolveReference := by
  apply resolveReference_congr
  · intro domain type
    rw [declared?, declared?, entry?, entry?, lookup_eq_of_perm h hkeys]
  · intro type
    exact h.filterMap _

lemma keys_ofDomains {domains : List Domain} (h : (domains.map (foldCase ·.name)).Nodup) :
    ((ofDomains settings domains).entries.map (·.1)).Nodup := by
  rw [entries_ofDomains h, List.map_map]
  exact h

lemma resolveReference_of_perm {domains domains' : List Domain} (h : domains.Perm domains')
    (hnodup : (domains.map (foldCase ·.name)).Nodup) :
    (ofDomains settings domains).resolveReference =
      (ofDomains settings domains').resolveReference := by
  have hentries := @entries_ofDomains settings _ hnodup
  have hentries' := @entries_ofDomains settings _ ((h.map _).nodup_iff.mp hnodup)
  have hperm : (ofDomains settings domains).entries.Perm (ofDomains settings domains').entries := by
    rw [hentries, hentries']
    exact h.map _
  exact resolveReference_of_entries hperm (keys_ofDomains hnodup)

lemma resolveItems_congr (h : c.resolveReference = c'.resolveReference) (here record : String)
    (items : Items) : c.resolveItems here record items = c'.resolveItems here record items := by
  fun_induction resolveItems c here record items with
  | case1 => rw [resolveItems, h]
  | case2 => rw [resolveItems]
  | case3 properties nested ih => rw [resolveItems, ih]
  | case4 | case5 | case6 => rfl
  | case7 => rw [resolveItems]
  | case8 _ _ _ _ _ _ _ hprimitive | case9 _ _ _ _ _ _ hprimitive =>
    simp only [resolveItems, hprimitive]

lemma resolveProperty_congr (h : c.resolveReference = c'.resolveReference) (here owner : String)
    (p : Property) : c.resolveProperty here owner p = c'.resolveProperty here owner p := by
  simp only [resolveProperty, h, resolveItems_congr h]

end Catalogue

namespace Draft

variable {settings : Settings} {c c' : Catalogue}

lemma fieldsFrom_congr (h : c.resolveReference = c'.resolveReference) (domain owner : String)
    (namer : Identifier.FieldNamer) (properties : List Property) :
    fieldsFrom c domain owner namer properties = fieldsFrom c' domain owner namer properties := by
  induction properties generalizing namer with
  | nil => rfl
  | cons p rest ih => simp only [fieldsFrom, Catalogue.resolveProperty_congr h, ih]

lemma fields_congr (h : c.resolveReference = c'.resolveReference) : fields c = fields c' := by
  funext domain owner properties
  exact fieldsFrom_congr h domain owner _ properties

lemma recordBindings_congr (h : c.resolveReference = c'.resolveReference) (domain : String)
    (fuel : Nat) (queue : List InlineRecord) :
    recordBindings c domain fuel queue = recordBindings c' domain fuel queue := by
  induction fuel generalizing queue with
  | zero => rfl
  | succ fuel ih =>
    cases queue with
    | nil => rfl
    | cons r queue => simp only [recordBindings, fields_congr h, ih]

lemma inlineBindings_congr (h : c.resolveReference = c'.resolveReference) :
    inlineBindings c = inlineBindings c' := by
  funext domain queue
  exact recordBindings_congr h domain _ queue

lemma typeBinding_congr (h : c.resolveReference = c'.resolveReference) (domain : String)
    (type : TypeDecl) :
    typeBinding settings c domain type = typeBinding settings c' domain type := by
  simp only [typeBinding, fields_congr h, Catalogue.resolveItems_congr h,
    Catalogue.resolveProperty_congr h]

/-- The drafts of a domain depend on the other domains only through what references resolve to. -/
lemma ofDomain_congr (h : c.resolveReference = c'.resolveReference) (d : Domain) :
    ofDomain settings c d = ofDomain settings c' d := by
  simp only [ofDomain, attempts, ofType, ofCommand, ofEvent, typeBinding_congr h, fields_congr h,
    inlineBindings_congr h]

end Draft

namespace Pruning

variable {outputs outputs' : List DomainDrafts}

/-- The drafts of a domain without those that need what is not available. -/
def thin (available : List (String × String)) (o : DomainDrafts) : DomainDrafts :=
  { o with drafts := o.drafts.filter fun d => (missing? available d).isNone }

lemma missing?_congr {available available' : List (String × String)}
    (h : available.Perm available') (d : Draft) : missing? available d = missing? available' d := by
  unfold missing?
  congr 1
  funext need
  rw [List.contains_eq_mem, List.contains_eq_mem, decide_eq_decide.mpr h.mem_iff]

lemma dropped_congr {available available' : List (String × String)}
    (h : available.Perm available') : dropped available = dropped available' := by
  funext domain d
  rw [dropped, dropped, missing?_congr h]

lemma thin_congr {available available' : List (String × String)}
    (h : available.Perm available') : thin available = thin available' := by
  funext o
  simp only [thin, missing?_congr h]

lemma declared_perm (h : outputs.Perm outputs') : (declared outputs).Perm (declared outputs') :=
  (h.map _).flatten

/-- One function thins out the drafts of every domain, wherever it stands. -/
structure SameThinning (run run' : List DomainDrafts × List Skipped)
    (outputs outputs' : List DomainDrafts) (f : DomainDrafts → DomainDrafts) : Prop where
  domain : ∀ o, (f o).domain = o.domain
  kept : run.1 = outputs.map f
  kept' : run'.1 = outputs'.map f
  skipped : run.2.Perm run'.2

lemma round_of_perm (h : outputs.Perm outputs') :
    SameThinning (round outputs) (round outputs') outputs outputs' (thin (declared outputs)) := by
  have hdeclared := declared_perm h
  refine ⟨fun _ => rfl, rfl, ?_, ?_⟩
  · rw [thin_congr hdeclared]
    rfl
  · have hskipped (outputs : List DomainDrafts) : (round outputs).2 =
        (outputs.map fun o => o.drafts.filterMap
          (dropped (declared outputs) o.domain.name)).flatten := rfl
    rw [hskipped, hskipped, dropped_congr hdeclared]
    exact (h.map _).flatten

/-- Each round reports the same for both orders, so pruning ends after the same number of them. -/
lemma rounds_of_perm (fuel : Nat) (h : outputs.Perm outputs') :
    ∃ f, SameThinning (rounds fuel outputs) (rounds fuel outputs') outputs outputs' f := by
  induction fuel generalizing outputs outputs' with
  | zero => exact ⟨id, fun _ => rfl, (List.map_id _).symm, (List.map_id _).symm, .nil⟩
  | succ fuel ih =>
    have hround := round_of_perm h
    by_cases hnil : (round outputs).2 = []
    · have hnil' : (round outputs').2 = [] := (hnil ▸ hround.skipped).nil_eq.symm
      rw [rounds_of_nil hnil, rounds_of_nil hnil']
      exact ⟨id, fun _ => rfl, (List.map_id _).symm, (List.map_id _).symm, .nil⟩
    · have hsome : (round outputs').2 ≠ [] :=
        fun hnil' => hnil (hnil' ▸ hround.skipped).eq_nil
      have hkept : (round outputs).1.Perm (round outputs').1 := by
        rw [hround.kept, hround.kept']
        exact h.map _
      obtain ⟨f, hrest⟩ := ih hkept
      rw [rounds_of_ne_nil hnil, rounds_of_ne_nil hsome]
      refine ⟨f ∘ thin (declared outputs), ?_, ?_, ?_, ?_⟩
      · intro o
        exact (hrest.domain _).trans (hround.domain o)
      · rw [← List.map_map, ← hround.kept, ← hrest.kept]
      · rw [← List.map_map, ← hround.kept', ← hrest.kept']
      · exact hround.skipped.append hrest.skipped

lemma draftCount_perm (h : outputs.Perm outputs') : draftCount outputs = draftCount outputs' := by
  exact total_perm h

lemma prune_of_perm (h : outputs.Perm outputs') :
    ∃ f, SameThinning (prune outputs) (prune outputs') outputs outputs' f := by
  unfold prune
  rw [draftCount_perm h]
  exact rounds_of_perm _ h

end Pruning

namespace Boxing

variable {domains domains' : List DomainBindings}

lemma holdsByValue_of_perm (h : domains.Perm domains') :
    HoldsByValue domains = HoldsByValue domains' := by
  funext x y
  simp only [HoldsByValue, h.mem_iff]

lemma boxField_of_perm (h : domains.Perm domains') {d : DomainBindings} {b : Binding} {f : Field}
    (hd : d ∈ domains) (hb : b ∈ d.bindings) (hf : f ∈ b.fields) (hunboxed : f.boxed = false) :
    boxField domains (d.name, b.name) f = boxField domains' (d.name, b.name) f := by
  have hboxed := boxed_boxField hd hb hf hunboxed
  have hboxed' := boxed_boxField (h.mem_iff.mp hd) hb hf hunboxed
  rw [holdsByValue_of_perm h, ← hboxed'] at hboxed
  calc boxField domains (d.name, b.name) f
      = { f with boxed := (boxField domains (d.name, b.name) f).boxed } := boxField_eq _ f
    _ = { f with boxed := (boxField domains' (d.name, b.name) f).boxed } := by
        rw [Bool.eq_iff_iff.mpr hboxed]
    _ = boxField domains' (d.name, b.name) f := (boxField_eq _ f).symm

lemma box_of_perm (h : domains.Perm domains')
    (hunboxed : ∀ d ∈ domains, ∀ b ∈ d.bindings, b.Unboxed) {d : DomainBindings} {b : Binding}
    (hd : d ∈ domains) (hb : b ∈ d.bindings) : box domains d.name b = box domains' d.name b := by
  have hfields : b.fields.map (boxField domains (d.name, b.name)) =
      b.fields.map (boxField domains' (d.name, b.name)) := by
    refine List.map_congr_left fun f hf => ?_
    exact boxField_of_perm h hd hb hf ((hunboxed d hd b hb).fields f hf)
  exact congrArg (fun fields => { b with fields := fields }) hfields

/-- A domain with the fields boxed that lead back to their owners. -/
def boxDomain (domains : List DomainBindings) (d : DomainBindings) : DomainBindings :=
  { d with bindings := d.bindings.map (box domains d.name) }

lemma boxAll_of_perm (h : domains.Perm domains')
    (hunboxed : ∀ d ∈ domains, ∀ b ∈ d.bindings, b.Unboxed) :
    boxAll domains' = domains'.map (boxDomain domains) := by
  refine List.map_congr_left fun d hd => ?_
  have hbindings : d.bindings.map (box domains' d.name) = d.bindings.map (box domains d.name) :=
    List.map_congr_left fun b hb => (box_of_perm h hunboxed (h.mem_iff.mpr hd) hb).symm
  exact congrArg (fun bindings => { d with bindings := bindings }) hbindings

end Boxing

namespace Bindings

variable {settings : Settings} {description : Description} {domains : List Domain}

lemma distinctDomains_of_nodup {seen : List String}
    (h : (seen ++ domains.map (foldCase ·.name)).Nodup) :
    distinctDomains seen domains = (domains, []) := by
  induction domains generalizing seen with
  | nil => rfl
  | cons d rest ih =>
    have hmiddle : (foldCase d.name :: seen ++ rest.map (foldCase ·.name)).Nodup :=
      List.perm_middle.nodup_iff.mp h
    have hnew : foldCase d.name ∉ seen :=
      fun hmem => (List.nodup_cons.mp hmiddle).1 (List.mem_append_left _ hmem)
    rw [distinctDomains]
    simp only [List.contains_eq_mem, hnew, decide_false, Bool.false_eq_true, if_false]
    rw [ih hmiddle]

lemma retained_of_nodup (h : (description.domains.map (foldCase ·.name)).Nodup) :
    retained description = description.domains := by
  rw [retained, distinctDomains_of_nodup h]

/-- The domains of a description in another order. -/
abbrev reordered (description : Description) (domains : List Domain) : Description :=
  { description with domains := domains }

/-- The drafts of a domain before pruning. -/
def draftsOf (settings : Settings) (description : Description) (d : Domain) : DomainDrafts :=
  ⟨d, (Draft.ofDomain settings (catalogue settings description) d).1⟩

section Reordered

variable (hperm : domains.Perm description.domains)
  (hnodup : (description.domains.map (foldCase ·.name)).Nodup)

include hperm hnodup

lemma retained_reordered : retained (reordered description domains) = domains :=
  retained_of_nodup ((hperm.map _).nodup_iff.mpr hnodup)

lemma ofDomain_reordered : Draft.ofDomain settings (catalogue settings description) =
    Draft.ofDomain settings (catalogue settings (reordered description domains)) := by
  funext d
  apply Draft.ofDomain_congr
  rw [catalogue, catalogue, retained_of_nodup hnodup, retained_reordered hperm hnodup]
  exact Catalogue.resolveReference_of_perm hperm.symm hnodup

lemma drafted_reordered : drafted settings (reordered description domains) =
    domains.map (draftsOf settings description) := by
  rw [drafted, retained_reordered hperm hnodup, ← ofDomain_reordered hperm hnodup]
  rfl

lemma exists_thinning : ∃ f, Pruning.SameThinning (Pruning.prune (drafted settings description))
    (Pruning.prune (drafted settings (reordered description domains)))
    (description.domains.map (draftsOf settings description))
    (domains.map (draftsOf settings description)) f := by
  have hdrafted : drafted settings description =
      description.domains.map (draftsOf settings description) := by
    rw [drafted, retained_of_nodup hnodup]
    rfl
  rw [hdrafted, drafted_reordered hperm hnodup]
  exact Pruning.prune_of_perm (hperm.symm.map _)

lemma skipped_reordered : (generate settings (reordered description domains)).report.skipped.Perm
    (generate settings description).report.skipped := by
  obtain ⟨f, hsame⟩ := @exists_thinning settings description domains hperm hnodup
  have hduplicates : (distinctDomains [] description.domains).2 = [] := by
    rw [distinctDomains_of_nodup hnodup]
  have hduplicates' : (distinctDomains [] (reordered description domains).domains).2 = [] := by
    rw [distinctDomains_of_nodup ((hperm.map _).nodup_iff.mpr hnodup)]
  rw [skipped_generate, skipped_generate, hduplicates, hduplicates', retained_of_nodup hnodup,
    retained_reordered hperm hnodup, ← ofDomain_reordered hperm hnodup]
  exact (hperm.flatMap_right _).append hsame.skipped.symm

end Reordered

/-- With domain names that differ in more than case, the order of the domains decides nothing but
the order of what is generated: each domain gets the same bindings and method constants, and the
same items are reported for the same reasons. -/
theorem domain_order_does_not_matter (settings : Settings) (description : Description)
    (domains : List Domain) (hperm : domains.Perm description.domains)
    (hdistinct : description.domains.Pairwise fun d e => sameIgnoringCase d.name e.name = false) :
    let here := generate settings description
    let there := generate settings { description with domains := domains }
    (∃ bindingsOf : Domain → DomainBindings, (∀ d, (bindingsOf d).name = d.name) ∧
      here.domains = description.domains.map bindingsOf ∧
      there.domains = domains.map bindingsOf) ∧
    there.report.skipped.Perm here.report.skipped ∧
    there.report.generated = here.report.generated := by
  intro here there
  have hnodup : (description.domains.map (foldCase ·.name)).Nodup := by
    refine List.pairwise_map.mpr (hdistinct.imp fun hne heq => ?_)
    simp [sameIgnoringCase, heq] at hne
  obtain ⟨f, hsame⟩ := @exists_thinning settings description domains hperm hnodup
  let assembled := fun d => assemble (f (draftsOf settings description d))
  have hbefore : (kept settings description).map assemble = description.domains.map assembled := by
    have hkept : kept settings description = _ := hsame.kept
    rw [hkept, List.map_map, List.map_map]
    rfl
  have hafter : (kept settings (reordered description domains)).map assemble =
      domains.map assembled := by
    have hkept : kept settings (reordered description domains) = _ := hsame.kept'
    rw [hkept, List.map_map, List.map_map]
    rfl
  let bindingsOf := fun d => Boxing.boxDomain (description.domains.map assembled) (assembled d)
  have hhere : here.domains = description.domains.map bindingsOf := by
    calc here.domains = Boxing.boxAll ((kept settings description).map assemble) :=
          domains_generate settings description
      _ = Boxing.boxAll (description.domains.map assembled) := by rw [hbefore]
      _ = description.domains.map bindingsOf := List.map_map
  have hthere : there.domains = domains.map bindingsOf := by
    calc there.domains =
          Boxing.boxAll ((kept settings (reordered description domains)).map assemble) :=
          domains_generate settings (reordered description domains)
      _ = Boxing.boxAll (domains.map assembled) := by rw [hafter]
      _ = (domains.map assembled).map
          (Boxing.boxDomain (description.domains.map assembled)) :=
        Boxing.boxAll_of_perm (hperm.symm.map _) (hbefore ▸ assembled_unboxed)
      _ = domains.map bindingsOf := List.map_map
  refine ⟨⟨bindingsOf, fun d => ?_, hhere, hthere⟩, skipped_reordered hperm hnodup, ?_⟩
  · exact congrArg (·.name) (hsame.domain (draftsOf settings description d))
  · have htotal : there.report.generated = total (·.bindings.length) there.domains := rfl
    have htotal' : here.report.generated = total (·.bindings.length) here.domains := rfl
    rw [htotal, htotal', hthere, hhere]
    exact total_perm (hperm.map _)

/-- A node belongs to a frame and a frame holds a node; the frame is named with its domain, the node
without, and one reference leads nowhere. -/
def nodeDomain : Domain :=
  { name := "DOM"
    types :=
      [{ name := "Node", kind := .object
         properties := [{ name := "frame", reference := some "Page.Frame" }] },
        { name := "Lost", kind := .object
          properties := [{ name := "shadow", reference := some "Shadow" }] }] }

def frameDomain : Domain :=
  { name := "Page"
    types :=
      [{ name := "Frame", kind := .object
         properties := [{ name := "root", reference := some "Node" }] }] }

def nodesFirst : Description := { domains := [nodeDomain, frameDomain] }

def framesFirst : List Domain := [frameDomain, nodeDomain]

theorem swapped_domains_get_the_same_bindings :
    framesFirst.Perm nodesFirst.domains ∧
    nodesFirst.domains.Pairwise (fun d e => sameIgnoringCase d.name e.name = false) ∧
    let here := generate {} nodesFirst
    let there := generate {} { nodesFirst with domains := framesFirst }
    (∃ bindingsOf : Domain → DomainBindings, (∀ d, (bindingsOf d).name = d.name) ∧
      here.domains = nodesFirst.domains.map bindingsOf ∧
      there.domains = framesFirst.map bindingsOf) ∧
    there.report.skipped.Perm here.report.skipped ∧
    there.report.generated = here.report.generated := by
  have hperm : framesFirst.Perm nodesFirst.domains := .swap nodeDomain frameDomain []
  have hdistinct : nodesFirst.domains.Pairwise
      fun d e => sameIgnoringCase d.name e.name = false := by
    refine List.pairwise_pair.mpr ?_
    decide
  exact ⟨hperm, hdistinct, domain_order_does_not_matter {} nodesFirst framesFirst hperm hdistinct⟩

end Bindings

end InspectorProtocol
