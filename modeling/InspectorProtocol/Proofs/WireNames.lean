import InspectorProtocol.Proofs.Accounting

/-!
# Names on the wire

Fields and variants get identifiers of their own, whatever they are called in the description, and
keep what they are called there as the name or value on the wire. Nobody compares these, so two
parts of a binding meet on the wire exactly where the description repeats a name or a value.
-/

namespace InspectorProtocol

open Description

/-- What a binding and its parts are called. -/
structure WireNames where
  /-- the name of the binding -/
  name : String
  /-- the wire names of its fields -/
  fields : List String := []
  /-- the wire values of its variants -/
  values : List String := []

/-- Whether no two parts of a binding are called the same. -/
structure WireNames.Distinct (w : WireNames) : Prop where
  fields : w.fields.Nodup
  values : w.values.Nodup

def Binding.wireNames (b : Binding) : WireNames :=
  ⟨b.name, b.fields.map (·.wireName), b.variants.map (·.wireValue)⟩

/-- The names that a record has from its properties. -/
def WireNames.ofProperties (name : String) (properties : List Property) : WireNames :=
  { name := name, fields := properties.map (·.name) }

/-- The names that a declared type has: from its values or its properties, if it has any. -/
def Description.TypeDecl.wireNames (settings : Settings) (domain : String) (type : TypeDecl) :
    WireNames :=
  let name := Identifier.typeName type.name
  match type.bindingKind settings domain with
  | .enumeration => { name := name, values := type.values }
  | .record => .ofProperties name type.properties
  | _ => { name := name }

def InlineRecord.wireNames (r : InlineRecord) : WireNames :=
  .ofProperties (Identifier.typeName r.name) r.properties

namespace Declaration

/-- The names that a declaration gives to the bindings that bear its name. -/
def mainWireNames (settings : Settings) (domain : String) : Declaration → List WireNames
  | .type decl => [decl.wireNames settings domain]
  | .command decl =>
    let stem := Identifier.typeName domain ++ Identifier.typeName decl.name
    [.ofProperties (stem ++ "Request") decl.parameters,
      .ofProperties (stem ++ "Response") decl.returns]
  | .event decl =>
    let name := Identifier.typeName domain ++ Identifier.typeName decl.name ++ "Payload"
    [.ofProperties name decl.parameters]

/-- The names that a declaration gives to all its bindings. -/
def wireNames (settings : Settings) (domain : String) (x : Declaration) : List WireNames :=
  x.mainWireNames settings domain ++ (x.inlineRecords settings domain).map (·.wireNames)

end Declaration

namespace Draft

variable {settings : Settings} {c : Catalogue} {domain owner : String} {draft : Draft}

lemma wireNames_fields {properties : List Property} {fs : List Field} {records : List InlineRecord}
    (h : fields c domain owner properties = .ok (fs, records)) :
    properties.map (·.name) = fs.map (·.wireName) := by
  refine Bindings.map_eq_of_forall₂ ((fieldsFrom_fieldOf h).imp fun p f hfield => ?_)
  cases hfield
  rfl

lemma wireNames_of_fields {properties : List Property} {fs : List Field}
    {records : List InlineRecord} (h : fields c domain owner properties = .ok (fs, records))
    {b : Binding} {name : String} (hname : b.name = name) (hfields : b.fields = fs)
    (hvariants : b.variants = []) : b.wireNames = .ofProperties name properties := by
  rw [Binding.wireNames, WireNames.ofProperties, hname, hfields, hvariants, wireNames_fields h]
  rfl

lemma wireValues_variants (values : List String) :
    (variants values).map (·.wireValue) = values := by
  have hlength (namer : Identifier.VariantNamer) :
      (namer.nameAll values).length = values.length := by
    induction values generalizing namer with
    | nil => rfl
    | cons value rest ih => simp [Identifier.VariantNamer.nameAll, ih]
  rw [variants, ← List.map_uncurry_zip_eq_zipWith, List.map_map]
  exact List.map_snd_zip (hlength _).ge

lemma wireNames_of_typeBinding {type : TypeDecl} {binding : Binding} {records : List InlineRecord}
    (h : typeBinding settings c domain type = .ok (binding, records)) :
    binding.wireNames = type.wireNames settings domain := by
  have hkind : type.bindingKind settings domain = binding.kind :=
    (congrArg Label.kind (label_typeBinding h)).symm
  have hbinds := bindsType_of_typeBinding h
  unfold TypeDecl.wireNames
  rw [hkind]
  generalize Identifier.typeName type.name = name at hbinds ⊢
  cases hbinds with
  | replaced | array | plain => rfl
  | values _ hvalues =>
    rw [Binding.wireNames, wireValues_variants, hvalues]
    rfl
  | record _ _ _ hproperties hfields =>
    rw [hproperties]
    exact wireNames_of_fields hfields rfl rfl rfl

lemma wireNames_of_builds {r : InlineRecord} {b : Binding} (h : r.Builds c domain b) :
    b.wireNames = r.wireNames := by
  obtain ⟨fs, records, hfields, rfl⟩ := h
  exact wireNames_of_fields hfields (by simp only) rfl rfl

lemma wireNames_mains {x : Declaration} (h : x.attempt settings c domain = .ok draft) :
    (draft.bindings.take (x.mainOutlines settings domain).length).map (·.wireNames) =
      x.mainWireNames settings domain := by
  cases made_of_attempt h with
  | type hbinding _ =>
    have hnames := wireNames_of_typeBinding hbinding
    exact congrArg (fun w => [w]) hnames
  | command hrequest hresponse hparameters hreturns _ =>
    rw [Declaration.mainWireNames, ← hrequest, ← hresponse]
    exact congrArg₂ (fun v w => [v, w]) (wireNames_of_fields hparameters rfl rfl rfl)
      (wireNames_of_fields hreturns rfl rfl rfl)
  | event hpayload hparameters _ =>
    rw [Declaration.mainWireNames, ← hpayload]
    exact congrArg (fun w => [w]) (wireNames_of_fields hparameters rfl rfl rfl)

/-- The bindings of a draft have the names that its declaration gives them. -/
lemma wireNames_perm {x : Declaration} (h : x.attempt settings c domain = .ok draft) :
    (draft.bindings.map (·.wireNames)).Perm (x.wireNames settings domain) := by
  obtain ⟨mains, inline, hbindings, hmains, hinline⟩ := attempt_mains h
  obtain ⟨order, hperm, hbuilds⟩ := recordBindings_spec (Nat.le_refl _) hinline
  have hfirst := wireNames_mains h
  rw [hbindings, hmains.length_eq, List.take_left] at hfirst
  have hrest : order.map (·.wireNames) = inline.map (·.wireNames) :=
    Bindings.map_eq_of_forall₂ (hbuilds.imp fun _ _ h => (wireNames_of_builds h).symm)
  rw [hbindings, List.map_append, hfirst, ← hrest]
  exact (hperm.map _).append_left _

end Draft

namespace Bindings

variable {settings : Settings} {description : Description}

lemma wireNames_boxed (o : DomainDrafts) (b : Binding) :
    (boxed settings description o b).wireNames = b.wireNames := by
  rw [Binding.wireNames, boxed, Boxing.fields_box, List.map_map]
  refine congrArg (fun fields => WireNames.mk b.name fields (b.variants.map (·.wireValue))) ?_
  exact List.map_congr_left fun f _ => by rw [Function.comp_apply, Boxing.boxField_eq]

/-- Bindings have the names that their declarations give them, on the wire too: the properties,
parameters, returned values and literals as they are declared. So all are distinct within their
binding exactly if no list of them in a declaration repeats one. -/
theorem wire_names_are_those_declared (settings : Settings) (description : Description) :
    let b := generate settings description
    ∀ d ∈ b.domains,
      ∃ source ∈ retained description, ∃ items : List Declaration,
        d.name = source.name ∧ items.Sublist source.declarations ∧
        (d.bindings.map (·.wireNames)).Perm
          (items.flatMap (·.wireNames settings source.name)) ∧
        ((∀ b ∈ d.bindings, b.wireNames.Distinct) ↔
          ∀ x ∈ items, ∀ w ∈ x.wireNames settings source.name, w.Distinct) := by
  intro b d hd
  obtain ⟨o, ho, hname, hbindings⟩ := exists_kept_of_mem hd
  have hrows : d.bindings.map (·.wireNames) =
      o.drafts.flatMap fun draft => draft.bindings.map (·.wireNames) := by
    rw [hbindings, List.map_map]
    simp [Function.comp_def, wireNames_boxed, assemble, List.map_flatten, List.flatMap]
  obtain ⟨hretained, _, items, hitems, hdrafts⟩ := kept_items ho
  have hperm : (d.bindings.map (·.wireNames)).Perm
      (items.flatMap (·.wireNames settings o.domain.name)) := by
    rw [hrows]
    exact perm_flatMap_of_forall₂ (hdrafts.imp fun _ _ h => Draft.wireNames_perm h)
  refine ⟨o.domain, hretained, items, hname, hitems, hperm, ?_⟩
  calc (∀ b ∈ d.bindings, b.wireNames.Distinct)
    _ ↔ ∀ w ∈ d.bindings.map (·.wireNames), w.Distinct := List.forall_mem_map.symm
    _ ↔ ∀ w ∈ items.flatMap (·.wireNames settings o.domain.name), w.Distinct := by
      simp only [hperm.mem_iff]
    _ ↔ ∀ x ∈ items, ∀ w ∈ x.wireNames settings o.domain.name, w.Distinct := by
      simp only [List.mem_flatMap, forall_exists_index, and_imp]
      exact ⟨fun h x hx w hw => h w x hx hw, fun h w x hx hw => h x hx w hw⟩

/-- A record with two properties of one name, and an enumeration with a literal twice. -/
def repeatedNames : Description :=
  { domains :=
      [{ name := "D"
         types :=
          [{ name := "T", kind := .object
             properties :=
              [{ name := "a", kind := some .integer }, { name := "a", kind := some .string }] },
            { name := "E", kind := .string, values := ["x", "x"] }] }] }

/-- Both are emitted with different identifiers for what is one on the wire, and nothing is
reported. -/
theorem repeated_names_meet_on_the_wire :
    let b := generate {} repeatedNames
    b.report.isClean = true ∧ ∃ d ∈ b.domains, ∃ record ∈ d.bindings, ∃ enumeration ∈ d.bindings,
      record.kind = .record ∧ record.fields.map (·.ident) = ["a", "a_2"] ∧
        ¬ record.wireNames.Distinct ∧
      enumeration.kind = .enumeration ∧ enumeration.variants.map (·.ident) = ["X", "X2"] ∧
        ¬ enumeration.wireNames.Distinct := by
  intro b
  refine ⟨rfl, _, List.mem_singleton_self _, _, List.mem_cons_self, _,
    List.mem_cons_of_mem _ List.mem_cons_self, rfl, rfl, fun h => ?_, rfl, rfl, fun h => ?_⟩
  · exact absurd h.fields (by decide)
  · exact absurd h.values (by decide)

end Bindings

end InspectorProtocol
