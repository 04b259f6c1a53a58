import InspectorProtocol.Proofs.Declarations

/-!
# Names of bindings

An item is refused when one of its names is taken by an item before it, so two items of a domain
never share a name. Nobody compares the names within one item, where the record for an inline
object is named after its property: different properties can give one name.
-/

namespace InspectorProtocol

open Description

/-- The names of all bindings of a declaration. -/
def Declaration.bindingNames (settings : Settings) (domain : String) (x : Declaration) :
    List String :=
  (x.outlines settings domain).map (·.name)

lemma Outline.names_of_renders {c : Catalogue} {domain : String} {outlines : List Outline}
    {bindings : List Binding} (h : List.Forall₂ (Outline.Renders c domain) outlines bindings) :
    bindings.map (·.name) = outlines.map (·.name) :=
  (Bindings.map_eq_of_forall₂ (h.imp fun _ _ hrender => hrender.name.symm)).symm

lemma Draft.names_perm {settings : Settings} {c : Catalogue} {domain : String} {x : Declaration}
    {draft : Draft} (h : x.attempt settings c domain = .ok draft) :
    draft.names.Perm (x.bindingNames settings domain) := by
  obtain ⟨found, hperm, hrenders⟩ := attempt_outlines h
  rw [names, Outline.names_of_renders hrenders]
  exact hperm.map _

namespace Bindings

variable {settings : Settings} {description : Description}

lemma names_assemble (o : DomainDrafts) :
    (assemble o).bindings.map (·.name) = o.drafts.flatMap (·.names) := by
  simp [assemble, List.map_flatten, List.flatMap, Draft.names, Function.comp_def]

lemma names_generate (settings : Settings) (description : Description) :
    (generate settings description).domains.map (·.name) =
      (retained description).map (·.name) := by
  rw [domains_generate, ← @kept_domains settings]
  simp [Boxing.boxAll, assemble, Function.comp_def]

/-- An emitted domain has the bindings of its kept drafts, with their fields boxed. -/
lemma exists_kept_of_mem {d : DomainBindings} (hd : d ∈ (generate settings description).domains) :
    ∃ o ∈ kept settings description, d.name = o.domain.name ∧
      d.bindings = (assemble o).bindings.map (boxed settings description o) := by
  rw [domains_generate, Boxing.mem_boxAll] at hd
  obtain ⟨d', hd', rfl⟩ := hd
  obtain ⟨o, ho, rfl⟩ := List.mem_map.mp hd'
  exact ⟨o, ho, rfl, rfl⟩

lemma perm_flatMap_of_forall₂ {α β γ : Type} {f : α → List γ} {g : β → List γ} {xs : List α}
    {ys : List β} (h : List.Forall₂ (fun x y => (g y).Perm (f x)) xs ys) :
    (ys.flatMap g).Perm (xs.flatMap f) := by
  induction h with
  | nil => exact .nil
  | cons hhead _ ih => exact hhead.append ih

lemma pairwise_of_forall₂ {α β : Type} {R : α → β → Prop} {S : β → β → Prop} {S' : α → α → Prop}
    {xs : List α} {ys : List β} (h : List.Forall₂ R xs ys) (hys : ys.Pairwise S)
    (himp : ∀ x x' y y', R x y → R x' y' → S y y' → S' x x') : xs.Pairwise S' := by
  induction h with
  | nil => exact .nil
  | cons hhead htail ih =>
    obtain ⟨hfirst, hrest⟩ := List.pairwise_cons.mp hys
    refine .cons (fun x' hx' => ?_) (ih hrest)
    obtain ⟨y', hy', hR⟩ := exists_right_of_mem htail hx'
    exact himp _ _ _ _ hhead hR (hfirst y' hy')

/-- Each domain that is not a repetition is emitted, and its bindings have the names of some of its
declarations. No two declarations share a name, so the names are distinct exactly when those of each
declaration are. -/
theorem names_clash_within_items_only (settings : Settings) (description : Description) :
    (generate settings description).domains.map (·.name) =
      (retained description).map (·.name) ∧
    ∀ d ∈ (generate settings description).domains,
      ∃ source ∈ retained description, ∃ items : List Declaration,
        d.name = source.name ∧ items.Sublist source.declarations ∧
        (d.bindings.map (·.name)).Perm
          (items.flatMap (·.bindingNames settings source.name)) ∧
        items.Pairwise (fun x y => (x.bindingNames settings source.name).Disjoint
          (y.bindingNames settings source.name)) ∧
        ((d.bindings.map (·.name)).Nodup ↔
          ∀ x ∈ items, (x.bindingNames settings source.name).Nodup) := by
  refine ⟨names_generate settings description, fun d hd => ?_⟩
  obtain ⟨o, ho, hname, hbindings⟩ := exists_kept_of_mem hd
  have hnames : d.bindings.map (·.name) = o.drafts.flatMap (·.names) := by
    rw [hbindings, List.map_map, ← names_assemble]
    rfl
  obtain ⟨hretained, hapart, items, hitems, hdrafts⟩ := kept_items ho
  have hperms : List.Forall₂ (fun (x : Declaration) (draft : Draft) =>
      draft.names.Perm (x.bindingNames settings o.domain.name)) items o.drafts :=
    hdrafts.imp fun _ _ h => Draft.names_perm h
  have hperm := perm_flatMap_of_forall₂ hperms
  have hdisjoint : items.Pairwise fun x y => (x.bindingNames settings o.domain.name).Disjoint
      (y.bindingNames settings o.domain.name) := by
    refine pairwise_of_forall₂ hperms hapart fun x y draft draft' hx hy h name hnx hny => ?_
    exact h (hx.mem_iff.mpr hnx) (hy.mem_iff.mpr hny)
  refine ⟨o.domain, hretained, items, hname, hitems, hnames ▸ hperm, hdisjoint, ?_⟩
  rw [hnames, hperm.nodup_iff, List.nodup_flatMap]
  exact and_iff_left hdisjoint

/-- A type with two arrays of different inline objects, whose properties differ only in how they
part their words. -/
def twoArrays : Description :=
  { domains :=
      [{ name := "D"
         types :=
          [{ name := "T", kind := .object
             properties :=
              [{ name := "a-b", kind := some .array
                 items :=
                   some { kind := some .object
                          properties := [{ name := "k", kind := some .string }] } },
                { name := "aB", kind := some .array
                  items :=
                    some { kind := some .object
                           properties := [{ name := "n", kind := some .integer }] } }] }] }] }

/-- Both records get the same name, and nothing is reported. -/
theorem inline_records_share_a_name :
    (generate {} twoArrays).report.isClean = true ∧
      ∃ d ∈ (generate {} twoArrays).domains, ¬ (d.bindings.map (·.name)).Nodup := by
  have hnames : (generate {} twoArrays).domains.map (·.bindings.map (·.name)) =
      [["T", "TABItem", "TABItem"]] := rfl
  obtain ⟨d, hd, heq⟩ := List.mem_map.mp (hnames ▸ List.mem_singleton_self _)
  refine ⟨rfl, d, hd, ?_⟩
  rw [heq]
  decide

end Bindings

end InspectorProtocol
