import InspectorProtocol.Binding.Draft
import Mathlib.Data.List.Forall2
import Mathlib.Data.List.Pairwise
import Mathlib.Tactic.Lemma

/-!
# Which drafts of a domain are kept

The attempts of a domain are sifted one by one. A draft is kept if its names are free, and takes
them; whatever else comes up is reported with the reason. So the drafts that are kept are in order
and no two of them share a name.
-/

namespace InspectorProtocol.Draft

def names (draft : Draft) : List String := draft.bindings.map (·.name)

/-- Why an attempt is reported: it has no draft, or a name of its draft is taken. -/
inductive Refusal (domain : String) (taken : List String) (item : String) :
    Except Failure Draft → Failure → Prop where
  | failed (reason : Failure) : Refusal domain taken item (.error reason) reason
  | clash {draft : Draft} {name : String} (named : name ∈ draft.names) (inUse : name ∈ taken) :
    Refusal domain taken item (.ok draft)
      (.malformedDescriptor (domain ++ "." ++ item) (.nameInUse name))

/-- Reading attempts in order: a draft with free names is kept and takes its names, and any other
attempt is reported. -/
inductive Sifts (domain : String) : List String → List (String × ItemKind × Except Failure Draft) →
    List Draft → List Skipped → Prop where
  | nil (taken : List String) : Sifts domain taken [] [] []
  | kept {taken : List String} {item : String} {kind : ItemKind} {draft : Draft}
      {rest : List (String × ItemKind × Except Failure Draft)} {drafts : List Draft}
      {skipped : List Skipped} (free : draft.names.Disjoint taken)
      (later : Sifts domain (draft.names ++ taken) rest drafts skipped) :
    Sifts domain taken ((item, kind, .ok draft) :: rest) (draft :: drafts) skipped
  | refused {taken : List String} {item : String} {kind : ItemKind}
      {attempt : Except Failure Draft} {reason : Failure}
      {rest : List (String × ItemKind × Except Failure Draft)} {drafts : List Draft}
      {skipped : List Skipped} (refusal : Refusal domain taken item attempt reason)
      (later : Sifts domain taken rest drafts skipped) :
    Sifts domain taken ((item, kind, attempt) :: rest) drafts
      (⟨domain, item, kind, reason⟩ :: skipped)

theorem sifts_keepFree (domain : String) (taken : List String)
    (attempts : List (String × ItemKind × Except Failure Draft)) :
    Sifts domain taken attempts (keepFree domain taken attempts).1
      (keepFree domain taken attempts).2 := by
  induction attempts generalizing taken with
  | nil => exact .nil taken
  | cons attempt rest ih =>
    obtain ⟨item, kind, result⟩ := attempt
    cases result with
    | error reason => exact .refused (.failed reason) (ih taken)
    | ok draft =>
      simp only [keepFree, bind, Except.bind]
      cases hclash : draft.bindings.find? (taken.contains ·.name) with
      | some clash =>
        have hmem := List.mem_of_find?_eq_some hclash
        have hinUse : clash.name ∈ taken := by simpa using List.find?_some hclash
        exact .refused (.clash (List.mem_map_of_mem hmem) hinUse) (ih taken)
      | none =>
        refine .kept (fun name hname htaken => ?_) (ih (draft.names ++ taken))
        obtain ⟨b, hb, rfl⟩ := List.mem_map.mp hname
        have hfree := List.find?_eq_none.mp hclash b hb
        simp [htaken] at hfree

namespace Sifts

variable {domain : String} {taken : List String}
  {attempts : List (String × ItemKind × Except Failure Draft)}
  {drafts : List Draft} {skipped : List Skipped}

lemma sublist (h : Sifts domain taken attempts drafts skipped) :
    ∃ used, used.Sublist attempts ∧
      List.Forall₂ (fun a draft => a.2.2 = .ok draft) used drafts := by
  induction h with
  | nil => exact ⟨[], .slnil, .nil⟩
  | kept _ _ ih =>
    obtain ⟨used, hsub, hused⟩ := ih
    exact ⟨_ :: used, hsub.cons_cons _, .cons rfl hused⟩
  | refused _ _ ih =>
    obtain ⟨used, hsub, hused⟩ := ih
    exact ⟨used, hsub.cons _, hused⟩

/-- The drafts that are kept have free names, and no two share one. -/
lemma apart (h : Sifts domain taken attempts drafts skipped) :
    (∀ draft ∈ drafts, draft.names.Disjoint taken) ∧
      drafts.Pairwise fun x y => x.names.Disjoint y.names := by
  induction h with
  | nil => exact ⟨by simp, .nil⟩
  | kept free _ ih =>
    obtain ⟨hrest, hpairwise⟩ := ih
    refine ⟨List.forall_mem_cons.mpr ⟨free, fun other hother => ?_⟩,
      .cons (fun other hother => ?_) hpairwise⟩
    · exact (List.disjoint_append_right.mp (hrest other hother)).2
    · exact List.disjoint_symm (List.disjoint_append_right.mp (hrest other hother)).1
  | refused _ _ ih => exact ih

lemma domain_of_mem (h : Sifts domain taken attempts drafts skipped) {s : Skipped}
    (hs : s ∈ skipped) : s.domain = domain := by
  induction h with
  | nil => cases hs
  | kept _ _ ih => exact ih hs
  | refused _ _ ih =>
    rcases List.mem_cons.mp hs with rfl | hlater
    · rfl
    · exact ih hlater

end Sifts

lemma eq_of_shared_name {drafts : List Draft}
    (h : drafts.Pairwise fun x y => x.names.Disjoint y.names) {draft draft' : Draft} {name : String}
    (hdraft : draft ∈ drafts) (hdraft' : draft' ∈ drafts) (hname : name ∈ draft.names)
    (hname' : name ∈ draft'.names) : draft = draft' := by
  have : Std.Symm fun x y : Draft => x.names.Disjoint y.names :=
    ⟨fun _ _ => List.disjoint_symm⟩
  by_contra hne
  exact h.forall hdraft hdraft' hne hname hname'

end InspectorProtocol.Draft
