import InspectorProtocol.Proofs.Sifting
import Mathlib.Logic.Basic

/-!
# What a draft consists of

What the draft of a declaration is made of is said once, case by case, and so it is for fields and
for the bindings of declared types. From this follows what all drafts have in common, whichever item
they come from, and what reading the drafts of a domain one by one keeps of it.
-/

namespace InspectorProtocol

open Description

/-- No field is behind a pointer, and an alias stands for no named type itself. -/
structure Binding.Unboxed (b : Binding) : Prop where
  fields : ∀ f ∈ b.fields, f.boxed = false
  target : ∀ type, b.target = some type → type.isNamed = false

/-- Replies to the request, by name and wire method. -/
structure Binding.Answers (response request : Binding) : Prop where
  kind : response.kind = .response
  name : request.response = some response.name
  method : ∃ method, response.method = some method ∧ request.method = some method

lemma Replacement.not_isNamed (r : Replacement) : r.typeRef.isNamed = false := by
  cases r <;> rfl

namespace Catalogue

lemma not_isNamed_of_resolveItems {c : Catalogue} {here record : String} {items : Items}
    {type : TypeRef} {records : List InlineRecord}
    (h : c.resolveItems here record items = .ok (type, records)) : type.isNamed = false := by
  unfold resolveItems at h
  split at h
  · obtain ⟨element, _, heq⟩ := exists_of_bind_ok h
    cases heq
    rfl
  · split at h
    · cases h
    · obtain ⟨inner, _, heq⟩ := exists_of_bind_ok h
      cases heq
      rfl
  · cases h
    rfl
  · cases h
    rfl
  · cases h
  · cases h
  · split at h
    · cases h
      rfl
    · cases h

lemma not_isNamed_of_primitive? {kind : Kind} {type : TypeRef} (h : primitive? kind = some type) :
    type.isNamed = false := by
  cases kind <;> cases h <;> rfl

lemma not_isNamed_of_resolveProperty {c : Catalogue} {here owner : String} {p : Property}
    {type : TypeRef} {records : List InlineRecord} (hnone : p.reference = none)
    (h : c.resolveProperty here owner p = .ok (type, records)) : type.isNamed = false := by
  unfold resolveProperty at h
  rw [hnone] at h
  split at h
  · contradiction
  · split at h
    · cases h
    · exact not_isNamed_of_resolveItems h
  · cases h
  · split at h
    · rename_i hprimitive
      cases h
      exact not_isNamed_of_primitive? hprimitive
    · cases h
  · cases h

end Catalogue

/-! ### Declarations -/

/-- What a domain declares. -/
inductive Declaration where
  | type (decl : TypeDecl)
  | command (decl : CommandDecl)
  | event (decl : EventDecl)

/-- What a domain declares, in order. -/
def Description.Domain.declarations (d : Domain) : List Declaration :=
  d.types.map .type ++ d.commands.map .command ++ d.events.map .event

namespace Declaration

def name : Declaration → String
  | .type decl => decl.name
  | .command decl => decl.name
  | .event decl => decl.name

def kind : Declaration → ItemKind
  | .type _ => .type
  | .command _ => .command
  | .event _ => .event

/-- The type that is declared. -/
def declares : Declaration → Option String
  | .type decl => some decl.name
  | _ => none

/-- The draft of a declaration. -/
def attempt (settings : Settings) (c : Catalogue) (domain : String) :
    Declaration → Except Failure Draft
  | .type decl => Draft.ofType settings c domain decl
  | .command decl => Draft.ofCommand c domain decl
  | .event decl => Draft.ofEvent c domain decl

end Declaration

/-! ### Lists member by member -/

namespace Bindings

lemma exists_right_of_mem {α β : Type} {R : α → β → Prop} {xs : List α} {ys : List β}
    (h : List.Forall₂ R xs ys) {x : α} (hx : x ∈ xs) : ∃ y ∈ ys, R x y := by
  induction h with
  | nil => cases hx
  | cons hhead _ ih =>
    rcases List.mem_cons.mp hx with rfl | hlater
    · exact ⟨_, List.mem_cons_self, hhead⟩
    · obtain ⟨y, hy, hR⟩ := ih hlater
      exact ⟨y, List.mem_cons_of_mem _ hy, hR⟩

lemma exists_left_of_mem {α β : Type} {R : α → β → Prop} {xs : List α} {ys : List β}
    (h : List.Forall₂ R xs ys) {y : β} (hy : y ∈ ys) : ∃ x ∈ xs, R x y :=
  exists_right_of_mem h.flip hy

lemma map_eq_of_forall₂ {α β γ : Type} {f : α → γ} {g : β → γ} {xs : List α} {ys : List β}
    (h : List.Forall₂ (fun x y => f x = g y) xs ys) : xs.map f = ys.map g := by
  rw [← List.forall₂_eq_eq_eq, List.forall₂_map_left_iff, List.forall₂_map_right_iff]
  exact h

end Bindings

namespace Draft

variable {settings : Settings} {c : Catalogue} {domain owner : String}

/-- Whether a field is that of a property: of the type that the property resolves to, under the
property's name on the wire and some identifier for it. -/
inductive FieldOf (c : Catalogue) (domain owner : String) (p : Property) : Field → Prop where
  | mk {type : TypeRef} {records : List InlineRecord} (namer : Identifier.FieldNamer)
      (resolved : c.resolveProperty domain owner p = .ok (type, records)) :
      FieldOf c domain owner p
        { ident := (namer.next p.name).1, wireName := p.name, type := type, optional := p.optional,
          description := p.description, deprecated := p.deprecated,
          experimental := p.experimental }

lemma fieldsFrom_fieldOf {namer : Identifier.FieldNamer} {properties : List Property}
    {fields : List Field} {records : List InlineRecord}
    (h : fieldsFrom c domain owner namer properties = .ok (fields, records)) :
    List.Forall₂ (FieldOf c domain owner) properties fields := by
  induction properties generalizing namer fields records with
  | nil =>
    cases h
    exact .nil
  | cons p rest ih =>
    unfold fieldsFrom at h
    obtain ⟨_, hproperty, h⟩ := exists_of_bind_ok h
    obtain ⟨_, hrest, h⟩ := exists_of_bind_ok h
    cases h
    exact .cons (.mk namer hproperty) (ih hrest)

lemma fields_unboxed {properties : List Property} {fs : List Field} {records : List InlineRecord}
    (h : fields c domain owner properties = .ok (fs, records)) : ∀ f ∈ fs, f.boxed = false := by
  intro f hf
  obtain ⟨p, _, hfield⟩ := Bindings.exists_left_of_mem (fieldsFrom_fieldOf h) hf
  cases hfield
  rfl

lemma eq_of_mem_recordBindings {fuel : Nat} {queue : List InlineRecord} {bindings : List Binding}
    (h : recordBindings c domain fuel queue = .ok bindings) :
    ∀ b ∈ bindings, b = { name := b.name, kind := .record, fields := b.fields } ∧
      ∀ f ∈ b.fields, f.boxed = false := by
  induction fuel generalizing queue bindings with
  | zero =>
    cases h
    simp
  | succ fuel ih =>
    cases queue with
    | nil =>
      cases h
      simp
    | cons r queue =>
      unfold recordBindings at h
      obtain ⟨⟨fs, more⟩, hfields, h⟩ := exists_of_bind_ok h
      obtain ⟨others, hothers, h⟩ := exists_of_bind_ok h
      cases h
      intro b hb
      rcases List.mem_cons.mp hb with rfl | hlater
      · -- not `rfl`, which would evaluate `typeName`
        exact ⟨by simp only, fields_unboxed hfields⟩
      · exact ih hothers b hlater

lemma mem_recordBindings {fuel : Nat} {queue : List InlineRecord} {bindings : List Binding}
    (h : recordBindings c domain fuel queue = .ok bindings) :
    ∀ b ∈ bindings, b.kind = .record ∧ b.Unboxed := by
  intro b hb
  obtain ⟨heq, hunboxed⟩ := eq_of_mem_recordBindings h b hb
  have htarget : b.target = none := congrArg Binding.target heq
  refine ⟨congrArg Binding.kind heq, hunboxed, ?_⟩
  intro type htype
  cases htarget.symm.trans htype

/-- The ways in which a declared type is bound to a name: it is replaced, it lists its values, it
has properties or items, or it is of a kind that stands alone. -/
inductive BindsType (settings : Settings) (c : Catalogue) (domain : String) (type : TypeDecl)
    (name : String) : Binding → List InlineRecord → Prop where
  | replaced {replacement : Replacement}
      (override : settings.override? domain type.name = some replacement) :
      BindsType settings c domain type name
        { name := name, kind := .alias, target := some replacement.typeRef } []
  | values {value : String} {rest : List String}
      (override : settings.override? domain type.name = none)
      (values : type.values = value :: rest) :
      BindsType settings c domain type name
        { name := name, kind := .enumeration, variants := variants (value :: rest) } []
  | record {p : Property} {ps : List Property} {fs : List Field} {records : List InlineRecord}
      (override : settings.override? domain type.name = none) (values : type.values = [])
      (kind : type.kind = .object) (properties : type.properties = p :: ps)
      (resolved : fields c domain type.name (p :: ps) = .ok (fs, records)) :
      BindsType settings c domain type name { name := name, kind := .record, fields := fs } records
  | array {elements : Items} {target : TypeRef} {records : List InlineRecord}
      (override : settings.override? domain type.name = none) (values : type.values = [])
      (kind : type.kind = .array) (items : type.items = some elements)
      (resolved : c.resolveItems domain (type.name ++ "Item") elements = .ok (target, records)) :
      BindsType settings c domain type name
        { name := name, kind := .alias, target := some target } records
  | plain {target : TypeRef} {records : List InlineRecord}
      (override : settings.override? domain type.name = none) (values : type.values = [])
      (array : type.kind = .array → False)
      (object : ∀ p ps, type.kind = .object → type.properties = p :: ps → False)
      (resolved : c.resolveProperty domain type.name { name := type.name, kind := some type.kind } =
        .ok (target, records)) :
      BindsType settings c domain type name
        { name := name, kind := .alias, target := some target } records

lemma bindsType_of_typeBinding {type : TypeDecl} {binding : Binding} {records : List InlineRecord}
    (h : typeBinding settings c domain type = .ok (binding, records)) :
    BindsType settings c domain type (Identifier.typeName type.name) binding records := by
  unfold typeBinding at h
  simp only at h
  generalize Identifier.typeName type.name = name at h ⊢
  split at h
  · rename_i hoverride
    cases h
    exact .replaced hoverride
  · rename_i hoverride hvalues
    cases h
    exact .values hoverride hvalues
  · rename_i hoverride hvalues hkind hproperties
    obtain ⟨⟨fs, queue⟩, hfields, h⟩ := exists_of_bind_ok h
    cases h
    exact .record hoverride hvalues hkind hproperties hfields
  · rename_i hoverride hvalues hkind
    split at h
    · cases h
    · rename_i hitems
      obtain ⟨⟨target, queue⟩, hresolved, h⟩ := exists_of_bind_ok h
      cases h
      exact .array hoverride hvalues hkind hitems hresolved
  · cases h
  · rename_i hoverride hvalues harray _ hobject
    obtain ⟨⟨target, queue⟩, hresolved, h⟩ := exists_of_bind_ok h
    cases h
    exact .plain hoverride hvalues harray hobject hresolved

lemma typeBinding_spec {type : TypeDecl} {binding : Binding} {records : List InlineRecord}
    (h : typeBinding settings c domain type = .ok (binding, records)) :
    binding.name = Identifier.typeName type.name ∧ binding.kind ≠ .request ∧ binding.Unboxed := by
  have hbinds := bindsType_of_typeBinding h
  have halias (name : String) {target : TypeRef} (hplain : target.isNamed = false) :
      Binding.Unboxed { name := name, kind := .alias, target := some target } := by
    refine ⟨by simp, fun type htype => ?_⟩
    cases htype
    exact hplain
  generalize Identifier.typeName type.name = name at hbinds ⊢
  cases hbinds with
  | @replaced replacement => exact ⟨rfl, by simp, halias name replacement.not_isNamed⟩
  | values => exact ⟨rfl, by simp, by simp, by simp⟩
  | record _ _ _ _ hfields => exact ⟨rfl, by simp, fields_unboxed hfields, by simp⟩
  | array _ _ _ _ hitems =>
    exact ⟨rfl, by simp, halias name (Catalogue.not_isNamed_of_resolveItems hitems)⟩
  | plain _ _ _ _ hproperty =>
    exact ⟨rfl, by simp, halias name (Catalogue.not_isNamed_of_resolveProperty rfl hproperty)⟩

lemma attempts_eq (settings : Settings) (c : Catalogue) (d : Domain) : attempts settings c d =
    d.declarations.map fun x => (x.name, x.kind, x.attempt settings c d.name) := by
  simp [attempts, Domain.declarations, Declaration.name, Declaration.kind, Declaration.attempt,
    Function.comp_def]

/-- What the draft of a declaration is made of: the fields or the main binding that its descriptors
resolve to, and the bindings of the records made up for them. -/
inductive Made (settings : Settings) (c : Catalogue) (domain : String) :
    Declaration → Draft → Prop where
  | type {decl : TypeDecl} {main : Binding} {records : List InlineRecord} {inline : List Binding}
      (bound : typeBinding settings c domain decl = .ok (main, records))
      (found : inlineBindings c domain records = .ok inline) :
      Made settings c domain (.type decl)
        (ofBindings domain decl.name .type (some decl.name)
          ({ main with
              description := decl.description, deprecated := decl.deprecated
              experimental := decl.experimental } :: inline) [])
  | command {decl : CommandDecl} {request response : String} {parameters returns : List Field}
      {first second : List InlineRecord} {inline : List Binding}
      (named : request =
        Identifier.typeName domain ++ Identifier.typeName decl.name ++ "Request")
      (paired : response =
        Identifier.typeName domain ++ Identifier.typeName decl.name ++ "Response")
      (taken : fields c domain request decl.parameters = .ok (parameters, first))
      (given : fields c domain response decl.returns = .ok (returns, second))
      (found : inlineBindings c domain (first ++ second) = .ok inline) :
      Made settings c domain (.command decl)
        (ofBindings domain decl.name .command none
          ({ name := request, kind := .request, method := some (domain ++ "." ++ decl.name),
             response := some response, description := decl.description,
             deprecated := decl.deprecated, experimental := decl.experimental,
             fields := parameters } ::
            { name := response, kind := .response, method := some (domain ++ "." ++ decl.name),
              deprecated := decl.deprecated, experimental := decl.experimental,
              fields := returns } :: inline)
          [⟨Identifier.screamingCase decl.name, domain ++ "." ++ decl.name, .command, request⟩])
  | event {decl : EventDecl} {payload : String} {parameters : List Field}
      {records : List InlineRecord} {inline : List Binding}
      (named : payload =
        Identifier.typeName domain ++ Identifier.typeName decl.name ++ "Payload")
      (taken : fields c domain payload decl.parameters = .ok (parameters, records))
      (found : inlineBindings c domain records = .ok inline) :
      Made settings c domain (.event decl)
        (ofBindings domain decl.name .event none
          ({ name := payload, kind := .payload, method := some (domain ++ "." ++ decl.name),
             description := decl.description, deprecated := decl.deprecated,
             experimental := decl.experimental, fields := parameters } :: inline)
          [⟨Identifier.screamingCase decl.name, domain ++ "." ++ decl.name, .event, payload⟩])

lemma made_of_attempt {x : Declaration} (h : x.attempt settings c domain = .ok draft) :
    Made settings c domain x draft := by
  cases x with
  | type =>
    obtain ⟨_, hbinding, h⟩ := exists_of_bind_ok h
    obtain ⟨_, hinline, h⟩ := exists_of_bind_ok h
    cases Except.ok.inj h
    exact .type hbinding hinline
  | command =>
    obtain ⟨_, hparameters, h⟩ := exists_of_bind_ok h
    obtain ⟨_, hreturns, h⟩ := exists_of_bind_ok h
    obtain ⟨_, hinline, h⟩ := exists_of_bind_ok h
    cases Except.ok.inj h
    exact .command rfl rfl hparameters hreturns hinline
  | event =>
    obtain ⟨_, hparameters, h⟩ := exists_of_bind_ok h
    obtain ⟨_, hinline, h⟩ := exists_of_bind_ok h
    cases Except.ok.inj h
    exact .event rfl hparameters hinline

lemma ofType_eq_ok {type : TypeDecl} {draft : Draft}
    (h : ofType settings c domain type = .ok draft) :
    ∃ binding inline, binding.name = Identifier.typeName type.name ∧ binding.kind ≠ .request ∧
      binding.Unboxed ∧ (∀ b ∈ inline, b.kind = .record ∧ b.Unboxed) ∧
      draft = ofBindings domain type.name .type (some type.name) (binding :: inline) [] := by
  cases made_of_attempt (x := .type type) h with
  | type hbinding hinline =>
    obtain ⟨hname, hkind, hunboxed⟩ := typeBinding_spec hbinding
    refine ⟨_, _, ?_, ?_, ?_, mem_recordBindings hinline, rfl⟩
    · exact hname
    · exact hkind
    · exact ⟨hunboxed.fields, hunboxed.target⟩

/-- What all drafts of a domain have in common. -/
structure Sound (domain : String) (draft : Draft) : Prop where
  unboxed : ∀ b ∈ draft.bindings, b.Unboxed
  answered : ∀ b ∈ draft.bindings, b.kind = .request →
    ∃ response ∈ draft.bindings, response.Answers b
  declared : ∀ name, draft.declares = some name →
    ∃ b ∈ draft.bindings, b.name = Identifier.typeName name
  needs : draft.needs = neededTypes domain draft.bindings

/-- One main binding and records make a sound draft, if the main binding awaits no response. -/
lemma sound_of_main {item : String} {kind : ItemKind} {declares : Option String} {main : Binding}
    {inline : List Binding} {methods : List MethodConstant} (hkind : main.kind ≠ .request)
    (hmain : main.Unboxed) (hinline : ∀ b ∈ inline, b.kind = .record ∧ b.Unboxed)
    (hname : ∀ name, declares = some name → main.name = Identifier.typeName name) :
    (ofBindings domain item kind declares (main :: inline) methods).Sound domain := by
  refine ⟨?_, ?_, ?_, rfl⟩
  · intro b hb
    rcases List.mem_cons.mp hb with rfl | hlater
    · exact hmain
    · exact (hinline b hlater).2
  · intro b hb hrequest
    rcases List.mem_cons.mp hb with rfl | hlater
    · exact absurd hrequest hkind
    · simp [(hinline b hlater).1] at hrequest
  · intro name hdeclares
    exact ⟨main, List.mem_cons_self, hname name hdeclares⟩

lemma sound_of_attempt {x : Declaration} {draft : Draft}
    (h : x.attempt settings c domain = .ok draft) : draft.Sound domain := by
  cases made_of_attempt h with
  | type =>
    obtain ⟨binding, inline, hname, hkind, hunboxed, hinline, heq⟩ := ofType_eq_ok h
    rw [heq]
    apply sound_of_main hkind hunboxed hinline
    intro name hdeclares
    cases hdeclares
    exact hname
  | command _ _ hparameters hreturns hinline =>
    have hrecords := mem_recordBindings hinline
    refine ⟨?_, ?_, ?_, rfl⟩
    · intro b hb
      rcases List.mem_cons.mp hb with rfl | hrest
      · exact ⟨fields_unboxed hparameters, by simp⟩
      · rcases List.mem_cons.mp hrest with rfl | hlater
        · exact ⟨fields_unboxed hreturns, by simp⟩
        · exact (hrecords b hlater).2
    · intro b hb hkind
      rcases List.mem_cons.mp hb with rfl | hrest
      · exact ⟨_, List.mem_cons_of_mem _ List.mem_cons_self, rfl, rfl, _, rfl, rfl⟩
      · rcases List.mem_cons.mp hrest with rfl | hlater
        · cases hkind
        · simp [(hrecords b hlater).1] at hkind
    · intro name hdeclares
      cases hdeclares
  | event _ hparameters hinline =>
    apply sound_of_main (by simp) ⟨fields_unboxed hparameters, by simp⟩
      (mem_recordBindings hinline)
    intro name hdeclares
    cases hdeclares

theorem sound_of_mem_ofDomain {d : Domain} {draft : Draft}
    (h : draft ∈ (ofDomain settings c d).1) : draft.Sound d.name := by
  obtain ⟨used, hused, hattempts⟩ := (sifts_keepFree d.name [] _).sublist
  obtain ⟨attempt, hmem, hok⟩ := Bindings.exists_left_of_mem hattempts h
  have hattempt := hused.subset hmem
  rw [attempts_eq] at hattempt
  obtain ⟨x, _, rfl⟩ := List.mem_map.mp hattempt
  exact sound_of_attempt hok

lemma mem_insertPair {x y : String × String} {pairs : List (String × String)} :
    y ∈ insertPair x pairs ↔ y = x ∨ y ∈ pairs := by
  induction pairs with
  | nil => simp [insertPair]
  | cons z rest ih =>
    unfold insertPair
    split
    · rename_i heq
      rw [heq, List.mem_cons, or_self_left]
    · split
      · exact List.mem_cons
      · rw [List.mem_cons, ih, List.mem_cons, or_left_comm]

lemma mem_namedTypes {bindings : List Binding} {x : String × String} :
    x ∈ namedTypes bindings ↔ ∃ b ∈ bindings, ∃ type ∈ b.references, type.named? = some x := by
  have hfold (found collected : List (String × String)) :
      x ∈ found.foldl (fun acc y => insertPair y acc) collected ↔ x ∈ found ∨ x ∈ collected := by
    induction found generalizing collected with
    | nil => simp
    | cons y rest ih =>
      rw [List.foldl_cons, ih, mem_insertPair, List.mem_cons, or_left_comm, or_assoc]
  simp [namedTypes, hfold]

lemma mem_neededTypes {bindings : List Binding} {x : String × String} :
    x ∈ neededTypes domain bindings ↔ x ∈ namedTypes bindings ∧
      ¬ (x.1 = domain ∧ ∃ b ∈ bindings, b.name = Identifier.typeName x.2) := by
  simp [neededTypes, imp_iff_not_or]

end Draft

end InspectorProtocol
