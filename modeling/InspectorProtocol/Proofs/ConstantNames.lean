import InspectorProtocol.Proofs.Identifiers
import Mathlib.Data.List.Induction

/-!
# Names of method constants

A method constant bears the name of its command or event in capitals. If an earlier constant of the
domain bears that already, the kind of the item is added. Nobody looks whether the name with the
kind is free, so this is where two constants of a domain can meet. As long as they do not, the path
that a binding has for its method leads to one constant, which has that method.
-/

namespace InspectorProtocol

open Description Text Identifier

namespace MethodConstant

/-- The name of a constant's command or event in capitals. -/
def word (domain : String) (c : MethodConstant) : String :=
  screamingCase (String.ofList (c.method.toList.drop (domain.length + 1)))

/-- The name with the kind added. -/
def suffixed (domain : String) (c : MethodConstant) : String :=
  c.word domain ++ "_" ++ screamingCase c.kind.name

lemma word_eq {domain name : String} {c : MethodConstant} (h : c.method = domain ++ "." ++ name) :
    c.word domain = screamingCase name := by
  have hlength : domain.length + 1 = (domain.toList ++ ['.']).length := by
    rw [List.length_append, String.length_toList, List.length_singleton]
  rw [word, h, String.toList_append, String.toList_append, hlength]
  congr 1
  simp

end MethodConstant

lemma Declaration.method_of_mem_mainLabels {settings : Settings} {domain : String}
    {x : Declaration} {label : Label} (h : label ∈ x.mainLabels settings domain)
    (hrole : label.kind = .request ∨ label.kind = .response ∨ label.kind = .payload) :
    ∃ s ∈ x.signatures domain, label.method = some s.2.1 := by
  cases x with
  | type decl =>
    obtain rfl := List.mem_singleton.mp h
    simp only [TypeDecl.bindingKind] at hrole
    split at hrole <;> simp at hrole
  | command decl =>
    refine ⟨_, List.mem_singleton_self _, ?_⟩
    rcases List.mem_cons.mp h with rfl | h
    · rfl
    · obtain rfl := List.mem_singleton.mp h
      rfl
  | event decl =>
    obtain rfl := List.mem_singleton.mp h
    exact ⟨_, List.mem_singleton_self _, rfl⟩

namespace Bindings

/-- The path of a constant as seen from the module of a domain. -/
def constantPath (d : DomainBindings) (c : MethodConstant) : String :=
  "super::methods::" ++ d.module ++ "::" ++ c.ident

/-- The constants that a path leads to. -/
def constantsAt (b : Bindings) (path : String) : List MethodConstant :=
  b.domains.flatMap fun d => d.methods.filter (constantPath d · == path)

variable {settings : Settings} {description : Description} {d : DomainBindings}

/-! ### Constants and the ones before them -/

lemma ident_of_split {taken : List String} {constants : List (ItemKind × MethodConstant)}
    {before after : List MethodConstant} {c : MethodConstant}
    (h : nameConstants taken constants = before ++ c :: after) :
    ∃ kind plain, (kind, plain) ∈ constants ∧ c.signature = plain.signature ∧
      c.ident = if plain.ident ∈ before.map (·.ident) ∨ plain.ident ∈ taken then
        plain.ident ++ "_" ++ screamingCase kind.name else plain.ident := by
  induction constants generalizing taken before with
  | nil => simp [nameConstants] at h
  | cons constant rest ih =>
    obtain ⟨kind, plain⟩ := constant
    unfold nameConstants at h
    cases before with
    | nil =>
      obtain ⟨rfl, _⟩ := List.cons.inj h
      exact ⟨kind, plain, List.mem_cons_self, rfl, by simp⟩
    | cons first before =>
      obtain ⟨rfl, htail⟩ := List.cons.inj h
      obtain ⟨kind', plain', hmem, hsignature, hident⟩ := ih htail
      refine ⟨kind', plain', List.mem_cons_of_mem _ hmem, hsignature, ?_⟩
      rw [hident]
      simp only [List.mem_cons, List.map_cons, or_assoc, or_left_comm]

lemma Draft.constant_of_attempt {c : Catalogue} {domain : String} {x : Declaration} {draft : Draft}
    (h : x.attempt settings c domain = .ok draft) {m : MethodConstant} (hm : m ∈ draft.methods) :
    m.method = domain ++ "." ++ x.name ∧ m.ident = screamingCase x.name ∧
      draft.kind.name = m.kind.name := by
  obtain ⟨hident, hmethod⟩ := (Draft.attempt_valid h).2 m hm
  obtain ⟨_, _, _, _, _, hsignatures⟩ := Draft.attempt_labelled h
  have hsignature := Declaration.kind_of_mem_signatures
    (hsignatures ▸ List.mem_map_of_mem (f := MethodConstant.signature) hm)
  refine ⟨hmethod, hident, ?_⟩
  rw [(Draft.attempt_labels h).2.1, hsignature]
  cases hkind : m.kind <;> simp [MethodConstant.signature, hkind] <;> rfl

/-- A constant bears its word, with the kind if a constant before it bears the word. -/
lemma ident_eq (hd : d ∈ (generate settings description).domains)
    {before after : List MethodConstant} {c : MethodConstant}
    (h : d.methods = before ++ c :: after) :
    (∃ name, c.method = d.name ++ "." ++ name) ∧
      c.ident = if c.word d.name ∈ before.map (·.ident) then c.suffixed d.name
        else c.word d.name := by
  obtain ⟨o, ho, hname, hmethods, _⟩ := exists_assembled_of_mem hd
  obtain ⟨kind, plain, hmem, hsignature, hident⟩ := ident_of_split (hmethods ▸ h)
  obtain ⟨constants, hconstants, hmem⟩ := List.mem_flatten.mp hmem
  obtain ⟨draft, hdraft, rfl⟩ := List.mem_map.mp hconstants
  obtain ⟨m, hm, heq⟩ := List.mem_map.mp hmem
  obtain ⟨rfl, rfl⟩ : draft.kind = kind ∧ m = plain := by simpa using heq
  obtain ⟨x, _, hattempt⟩ := exists_item_of_draft ho hdraft
  obtain ⟨hmethod, hscreaming, hkind⟩ := Draft.constant_of_attempt hattempt hm
  obtain ⟨hsame, hsamemethod, _⟩ : c.kind = m.kind ∧ c.method = m.method ∧ c.type = m.type := by
    simpa [MethodConstant.signature] using hsignature
  have hfull : c.method = d.name ++ "." ++ x.name := by rw [hsamemethod, hmethod, hname]
  have hword := MethodConstant.word_eq hfull
  refine ⟨⟨x.name, hfull⟩, ?_⟩
  rw [hident, hscreaming, MethodConstant.suffixed, hword, hkind, hsame]
  simp

lemma nodup_map_iff_fresh {α β : Type} {f : α → β} {xs : List α} : (xs.map f).Nodup ↔
    ∀ before x after, xs = before ++ x :: after → f x ∉ before.map f := by
  constructor
  · rintro h before x after rfl
    rw [List.map_append, List.map_cons] at h
    exact fun hmem => (List.nodup_append.mp h).2.2 _ hmem _ List.mem_cons_self rfl
  · intro h
    induction xs using List.reverseRecOn with
    | nil => exact List.nodup_nil
    | append_singleton xs x ih =>
      rw [List.map_append, List.map_singleton]
      refine List.nodup_append.mpr ⟨ih fun before y after heq => ?_, List.nodup_singleton _, ?_⟩
      · exact h before y (after ++ [x]) (by simp [heq])
      · rintro _ hmem _ hx rfl
        rw [List.mem_singleton.mp hx] at hmem
        exact h xs x [] rfl hmem

lemma nodup_idents_iff (hd : d ∈ (generate settings description).domains) :
    (d.methods.map (·.ident)).Nodup ↔
      ∀ before c after, d.methods = before ++ c :: after →
        c.word d.name ∈ before.map (·.ident) → c.suffixed d.name ∉ before.map (·.ident) := by
  rw [nodup_map_iff_fresh]
  refine forall₄_congr fun before c after h => ?_
  rw [(ident_eq hd h).2]
  split
  · rename_i hmem
    exact ⟨fun hnot _ => hnot, fun hnot => hnot hmem⟩
  · rename_i hnot
    exact ⟨fun _ hmem => absurd hmem hnot, fun _ => hnot⟩

lemma suffixed_inj {domain : String} {a c : MethodConstant}
    (h : a.suffixed domain = c.suffixed domain) :
    a.word domain = c.word domain ∧ a.kind = c.kind := by
  have hkind : a.kind = c.kind := by
    have hlast := congrArg (fun s : String => s.toList.getLast?) h
    have hcommand : (screamingCase MethodKind.command.name).toList =
      ['C', 'O', 'M', 'M', 'A', 'N', 'D'] := by decide +kernel
    have hevent : (screamingCase MethodKind.event.name).toList = ['E', 'V', 'E', 'N', 'T'] := by
      decide +kernel
    cases ha : a.kind <;> cases hc : c.kind <;>
      simp [MethodConstant.suffixed, ha, hc, hcommand, hevent] at hlast ⊢
  refine ⟨?_, hkind⟩
  rw [MethodConstant.suffixed, MethodConstant.suffixed, hkind] at h
  exact (String.append_left_inj "_").mp ((String.append_left_inj _).mp h)

/-- Names that differ within each kind, none of which is another with its kind added, give
identifiers that differ. -/
lemma nodup_idents_of_words (hd : d ∈ (generate settings description).domains)
    (hkinds : d.methods.Pairwise fun a c => a.word d.name = c.word d.name → a.kind ≠ c.kind)
    (hwords : ∀ a ∈ d.methods, ∀ c ∈ d.methods, a.word d.name ≠ c.suffixed d.name) :
    (d.methods.map (·.ident)).Nodup := by
  refine (nodup_idents_iff hd).mpr fun before c after h _ htaken => ?_
  obtain ⟨a, ha, hident⟩ := List.mem_map.mp htaken
  obtain ⟨first, last, rfl⟩ := List.append_of_mem ha
  have hsplit : d.methods = first ++ a :: (last ++ c :: after) := by simp [h]
  have hrule := (ident_eq hd hsplit).2
  rw [hident] at hrule
  split at hrule
  · obtain ⟨hword, hkind⟩ := suffixed_inj hrule.symm
    rw [h, List.pairwise_append] at hkinds
    exact hkinds.2.2 a (by simp) c List.mem_cons_self hword hkind
  · exact hwords a (by simp [hsplit]) c (by simp [h]) hrule.symm

/-! ### Paths -/

lemma exists_methodPath {c : MethodConstant} (hc : c ∈ d.methods) :
    ∃ m ∈ d.methods, m.method = c.method ∧ Source.methodPath d c.method = constantPath d m := by
  unfold Source.methodPath
  split
  · rename_i m hfind
    have hmem : m ∈ d.methods := by simpa using List.mem_of_find?_eq_some hfind
    exact ⟨m, hmem, by simpa using List.find?_some hfind, rfl⟩
  · rename_i hnone
    exact absurd (List.find?_eq_none.mp hnone c (by simpa using hc)) (by simp)

lemma exists_constant (hd : d ∈ (generate settings description).domains) {x : Binding}
    (hx : x ∈ d.bindings) (hrole : x.kind = .request ∨ x.kind = .response ∨ x.kind = .payload) :
    ∃ c ∈ d.methods, x.method = some c.method := by
  obtain ⟨o, ho, _, hmethods, hbindings⟩ := exists_assembled_of_mem hd
  obtain ⟨b, hb, rfl⟩ := List.mem_map.mp (hbindings ▸ hx)
  obtain ⟨draft, hdraft, hmem⟩ := mem_assemble.mp hb
  obtain ⟨decl, _, hattempt⟩ := exists_item_of_draft ho hdraft
  obtain ⟨mains, inline, hsplit, hlabels, hinline, hsignatures⟩ := Draft.attempt_labelled hattempt
  obtain ⟨s, hs, hmethod⟩ : ∃ s ∈ decl.signatures o.domain.name, b.method = some s.2.1 := by
    rw [hsplit] at hmem
    rcases List.mem_append.mp hmem with hmain | hrecord
    · have hlabel := hlabels ▸ List.mem_map_of_mem (f := Binding.label) hmain
      exact Declaration.method_of_mem_mainLabels hlabel hrole
    · have hkind := congrArg Label.kind (hinline b hrecord)
      rw [show (boxed settings description o b).kind = .record from hkind] at hrole
      simp at hrole
  have hsignature : s ∈ d.methods.map (·.signature) := by
    rw [hmethods, signatures_assemble]
    exact List.mem_flatMap.mpr ⟨draft, hdraft, hsignatures ▸ hs⟩
  obtain ⟨c, hc, rfl⟩ := List.mem_map.mp hsignature
  exact ⟨c, hc, hmethod⟩

lemma colon_notMem_moduleName (domain : String) : ':' ∉ (moduleName domain).toList := by
  have hword : ':' ∉ (moduleWord domain).toList :=
    (isWord_moduleWord domain).notMem (by decide) (by decide)
  have hescape : moduleName domain = escape (moduleWord domain) := rfl
  rw [hescape, escape]
  split
  · simpa using hword
  · split
    · simpa using hword
    · exact hword

lemma constantPath_inj {e : DomainBindings} (hd : d ∈ (generate settings description).domains)
    (he : e ∈ (generate settings description).domains) {c m : MethodConstant} :
    constantPath e m = constantPath d c ↔ e.module = d.module ∧ m.ident = c.ident := by
  have hcolon {x : DomainBindings} (hx : x ∈ (generate settings description).domains) :
      ':' ∉ x.module.toList := by
    rw [module_of_mem_generate hx]
    exact colon_notMem_moduleName x.name
  constructor
  · intro h
    unfold constantPath at h
    have hchars : e.module.toList ++ ':' :: ':' :: m.ident.toList =
        d.module.toList ++ ':' :: ':' :: c.ident.toList := by
      simpa using congrArg String.toList h
    obtain ⟨hmodule, hrest⟩ := eq_of_append_cons_eq (hcolon he) (hcolon hd) hchars
    exact ⟨String.toList_inj.mp hmodule, String.toList_inj.mp (List.cons.inj hrest).2⟩
  · rintro ⟨hmodule, hident⟩
    unfold constantPath
    rw [hmodule, hident]

lemma filter_eq_singleton {α : Type} {f : α → String} {xs : List α} (h : (xs.map f).Nodup) {x : α}
    (hx : x ∈ xs) : xs.filter (f · == f x) = [x] := by
  obtain ⟨before, after, rfl⟩ := List.append_of_mem hx
  rw [List.map_append, List.map_cons] at h
  obtain ⟨_, hafter, hbefore⟩ := List.nodup_append.mp h
  have hbefore' : before.filter (f · == f x) = [] := by
    refine List.filter_eq_nil_iff.mpr fun y hy heq => ?_
    exact hbefore _ (List.mem_map_of_mem hy) _ List.mem_cons_self (eq_of_beq heq)
  have hafter' : after.filter (f · == f x) = [] := by
    refine List.filter_eq_nil_iff.mpr fun y hy heq => ?_
    exact (List.nodup_cons.mp hafter).1 (eq_of_beq heq ▸ List.mem_map_of_mem hy)
  simp [hbefore', hafter']

lemma constantsAt_eq (hd : d ∈ (generate settings description).domains)
    (hnodup : (d.methods.map (·.ident)).Nodup)
    (hmodule : ∀ e ∈ (generate settings description).domains, e.module = d.module → e.name = d.name)
    {c : MethodConstant} (hc : c ∈ d.methods) :
    (generate settings description).constantsAt (constantPath d c) = [c] := by
  have hself : d.methods.filter (constantPath d · == constantPath d c) = [c] := by
    rw [← filter_eq_singleton hnodup hc]
    refine List.filter_congr fun m _ => ?_
    rw [Bool.eq_iff_iff, beq_iff_eq, beq_iff_eq, constantPath_inj hd hd]
    exact and_iff_right rfl
  have hother {e : DomainBindings} (he : e ∈ (generate settings description).domains)
      (hne : e.name ≠ d.name) : e.methods.filter (constantPath e · == constantPath d c) = [] := by
    refine List.filter_eq_nil_iff.mpr fun m _ heq => hne (hmodule e he ?_)
    exact ((constantPath_inj hd he).mp (eq_of_beq heq)).1
  have hnames : ((generate settings description).domains.map (·.name)).Nodup := by
    rw [names_generate]
    exact retained_names_nodup description
  obtain ⟨before, after, hsplit⟩ := List.append_of_mem hd
  rw [hsplit, List.map_append, List.map_cons] at hnames
  rw [hsplit] at hother
  obtain ⟨_, hafter, hbefore⟩ := List.nodup_append.mp hnames
  have hfirst : before.flatMap
      (fun e => e.methods.filter (constantPath e · == constantPath d c)) = [] := by
    refine List.flatMap_eq_nil_iff.mpr fun e he => hother (List.mem_append_left _ he) ?_
    exact hbefore _ (List.mem_map_of_mem he) _ List.mem_cons_self
  have hlast : after.flatMap
      (fun e => e.methods.filter (constantPath e · == constantPath d c)) = [] := by
    refine List.flatMap_eq_nil_iff.mpr fun e he => hother (by simp [he]) fun heq => ?_
    exact (List.nodup_cons.mp hafter).1 (heq ▸ List.mem_map_of_mem he)
  rw [constantsAt, hsplit, List.flatMap_append, List.flatMap_cons, hfirst, hlast, hself]
  rfl

/-- Each constant bears the name of its command or event in capitals, with its kind added where a
constant before it bears the name. Identifiers of a domain meet exactly where the name with the kind
is taken as well, which takes two of one kind with one name in capitals, or a name that is another
with its kind. The path for the method of a binding is that of a constant with this method, and
leads to no other where the identifiers of the domain are distinct and its module is its own. -/
theorem constants_meet_at_suffixes_only (settings : Settings) (description : Description) :
    let b := generate settings description
    ∀ d ∈ b.domains,
      (∀ before c after, d.methods = before ++ c :: after →
        (∃ name, c.method = d.name ++ "." ++ name) ∧
          c.ident = if c.word d.name ∈ before.map (·.ident) then c.suffixed d.name
            else c.word d.name) ∧
      ((d.methods.map (·.ident)).Nodup ↔
        ∀ before c after, d.methods = before ++ c :: after →
          c.word d.name ∈ before.map (·.ident) → c.suffixed d.name ∉ before.map (·.ident)) ∧
      (d.methods.Pairwise (fun a c => a.word d.name = c.word d.name → a.kind ≠ c.kind) →
        (∀ a ∈ d.methods, ∀ c ∈ d.methods, a.word d.name ≠ c.suffixed d.name) →
        (d.methods.map (·.ident)).Nodup) ∧
      ∀ x ∈ d.bindings, x.kind = .request ∨ x.kind = .response ∨ x.kind = .payload →
        ∃ c ∈ d.methods, x.method = some c.method ∧
          Source.methodPath d c.method = constantPath d c ∧
          ((d.methods.map (·.ident)).Nodup →
            (∀ e ∈ b.domains, e.module = d.module → e.name = d.name) →
            b.constantsAt (Source.methodPath d c.method) = [c]) := by
  intro b d hd
  refine ⟨fun _ _ _ => ident_eq hd, nodup_idents_iff hd, nodup_idents_of_words hd, ?_⟩
  intro x hx hrole
  obtain ⟨c, hc, hmethod⟩ := exists_constant hd hx hrole
  obtain ⟨m, hm, hsame, hpath⟩ := exists_methodPath hc
  rw [← hsame] at hmethod hpath
  refine ⟨m, hm, hmethod, hpath, fun hnodup hmodule => ?_⟩
  rw [hpath]
  exact constantsAt_eq hd hnodup hmodule hm

/-- A command and two events, one of which has the name of the command and the other one this name
with the kind of an event. -/
def nameWithItsKind : Description :=
  { domains :=
      [{ name := "D"
         commands := [{ name := "x" }]
         events := [{ name := "xEvent" }, { name := "x" }] }] }

/-- The two events get one identifier, and the path in the payload of the second leads to both. -/
theorem suffixed_name_is_taken :
    let b := generate {} nameWithItsKind
    b.report.isClean = true ∧ ∃ d ∈ b.domains,
      d.methods.map (·.ident) = ["X", "X_EVENT", "X_EVENT"] ∧
      ¬ (d.methods.map (·.ident)).Nodup ∧
      ∃ payload ∈ d.bindings, payload.kind = .payload ∧ payload.method = some "D.x" ∧
        (b.constantsAt (Source.methodPath d "D.x")).map (·.method) = ["D.xEvent", "D.x"] := by
  intro b
  have hpayload {x y z w : Binding} : w ∈ [x, y, z, w] := by simp
  exact ⟨rfl, _, List.mem_singleton_self _, rfl, by decide +kernel, _, hpayload, rfl, rfl, rfl⟩

end Bindings

end InspectorProtocol
