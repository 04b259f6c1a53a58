import InspectorProtocol.Graph
import Mathlib.Data.List.Perm.Subperm
import Mathlib.Logic.Relation
import Mathlib.Tactic.Lemma

/-!
# Walks through finite graphs

While a walk is on its way, the nodes whose visits are not over form its path, which is part of the
stack. Each node on the stack is reached from all below it and leads back to a node of the path not
above it. A node off the stack leads to such nodes only, so its component is complete. While the
edges of a node are followed, its low link is the place of a node that it reaches on the stack, and
no edge from what is above it leads further down.
-/

namespace InspectorProtocol

namespace Graph

def Edge (g : Graph) (v u : Nat) : Prop := u ∈ g.targetsOf v

def Reaches (g : Graph) : Nat → Nat → Prop := Relation.ReflTransGen g.Edge

lemma lt_of_edge {g : Graph} (h : g.InRange) {v u : Nat} (hedge : g.Edge v u) : u < g.size := by
  unfold Edge targetsOf at hedge
  rw [List.getD_eq_getElem?_getD] at hedge
  cases hv : g.targets[v]? with
  | none => simp [hv] at hedge
  | some targets =>
    rw [hv] at hedge
    exact h targets (List.mem_of_getElem? hv) u hedge

end Graph

namespace Walk

variable {w : Walk} {u v low : Nat} {m : Mark}

/-! ### What a walk notes -/

def Visited (w : Walk) (v : Nat) : Prop := (w.markOf v).index ≠ none

/-- The place of a node in the order in which nodes are found. -/
def position (w : Walk) (v : Nat) : Nat := (w.markOf v).index.getD 0

/-- Whether the component of a node has been told. -/
def Closed (w : Walk) (v : Nat) : Prop := w.Visited v ∧ v ∉ w.stack

lemma lt_of_visited (h : w.Visited v) : v < w.marks.length := by
  by_contra hlt
  have hnone : w.marks[v]? = none := List.getElem?_eq_none (Nat.le_of_not_lt hlt)
  exact h (by simp [markOf, List.getD_eq_getElem?_getD, hnone])

lemma markOf_mark (hv : v < w.marks.length) (u : Nat) :
    (w.mark v m).markOf u = if u = v then m else w.markOf u := by
  unfold mark markOf
  simp only [List.getD_eq_getElem?_getD, List.getElem?_set]
  by_cases h : v = u
  · subst h
    simp [hv]
  · simp [h, Ne.symm h]

lemma markOf_enter (hv : v < w.marks.length) (u : Nat) : (w.enter v).markOf u =
    if u = v then
      { w.markOf v with index := some w.nextIndex, low := w.nextIndex, onStack := true }
    else w.markOf u :=
  markOf_mark hv u

lemma markOf_lower (hv : v < w.marks.length) (low u : Nat) : (w.lower v low).markOf u =
    if u = v then { w.markOf v with low := min (w.markOf v).low low } else w.markOf u :=
  markOf_mark hv u

@[simp] lemma length_marks_enter : (w.enter v).marks.length = w.marks.length :=
  List.length_set

@[simp] lemma stack_enter : (w.enter v).stack = v :: w.stack := rfl

@[simp] lemma nextIndex_enter : (w.enter v).nextIndex = w.nextIndex + 1 := rfl

@[simp] lemma components_enter : (w.enter v).components = w.components := rfl

@[simp] lemma length_marks_lower : (w.lower v low).marks.length = w.marks.length :=
  List.length_set

@[simp] lemma stack_lower : (w.lower v low).stack = w.stack := rfl

@[simp] lemma nextIndex_lower : (w.lower v low).nextIndex = w.nextIndex := rfl

@[simp] lemma components_lower : (w.lower v low).components = w.components := rfl

/-! ### What a walk keeps to -/

/-- What holds of a walk whenever it is about to look at an edge; `path` are the nodes whose visits
are not over, the latest first. -/
structure Sound (g : Graph) (path : List Nat) (w : Walk) : Prop where
  length : w.marks.length = g.size
  onStack : ∀ v, (w.markOf v).onStack = true ↔ v ∈ w.stack
  numbered : ∀ v ∈ w.stack, w.Visited v ∧ w.position v < w.nextIndex
  descending : w.stack.Pairwise fun a b => w.position b < w.position a
  nested : path.Sublist w.stack
  done : ∀ v, w.Visited v → v ∉ path → ∀ u, g.Edge v u → w.Visited u
  closed : ∀ v, w.Closed v → ∀ u, g.Edge v u → w.Closed u
  onward : ∀ x ∈ w.stack, ∀ y ∈ w.stack, w.position x ≤ w.position y → g.Reaches x y
  back : ∀ y ∈ w.stack, ∃ x ∈ path, w.position x ≤ w.position y ∧ g.Reaches y x
  counted : ∀ v, w.Closed v → (w.markOf v).component < w.components
  together : ∀ v u, w.Closed v → w.Closed u →
    ((w.markOf v).component = (w.markOf u).component ↔ g.Reaches v u ∧ g.Reaches u v)

/-- A node that the walk may go on to from a path. -/
structure Ready (g : Graph) (path : List Nat) (w : Walk) (v : Nat) : Prop where
  sound : w.Sound g path
  unvisited : ¬ w.Visited v
  inRange : v < g.size
  reached : ∀ p ∈ path, g.Reaches p v

/-- Whether the notes on the nodes visited so far are kept. -/
def Keeps (w w' : Walk) : Prop := ∀ u, w.Visited u → w'.markOf u = w.markOf u

/-- Where the low link of a node being visited may point: to itself, or to a node of the stack below
that it reaches. -/
def Anchored (g : Graph) (w : Walk) (v low : Nat) : Prop :=
  low = w.nextIndex ∨ ∃ x ∈ w.stack, low = w.position x ∧ g.Reaches v x

/-- While the edges of `v` are followed, of which those to `rest` are left; `above` is the stack
above it, and `w` the walk before its visit. -/
structure Following (g : Graph) (path : List Nat) (w : Walk) (v : Nat) (rest : List Nat)
    (cur : Walk) (above : List Nat) : Prop where
  sound : cur.Sound g (v :: path)
  keeps : w.Keeps cur
  stack : cur.stack = above ++ v :: w.stack
  index : (cur.markOf v).index = some w.nextIndex
  low : Anchored g w v (cur.markOf v).low
  bound : ∀ a ∈ above, ∀ u ∈ w.stack, g.Edge a u → (cur.markOf v).low ≤ w.position u
  followed : ∀ u, g.Edge v u → u ∉ rest →
    cur.Visited u ∧ (u ∈ w.stack → (cur.markOf v).low ≤ w.position u)

/-- What a visit of `v` leaves: either its component is closed, or its low link points below. -/
structure Leaves (g : Graph) (path : List Nat) (w : Walk) (v : Nat) (w' : Walk)
    (above : List Nat) : Prop where
  sound : w'.Sound g path
  keeps : w.Keeps w'
  visited : w'.Visited v
  stack : w'.stack = above ++ w.stack
  low : above = [] ∧ w.nextIndex ≤ (w'.markOf v).low ∨
    ∃ x ∈ w.stack, (w'.markOf v).low = w.position x ∧ g.Reaches v x
  bound : ∀ a ∈ above, ∀ u ∈ w.stack, g.Edge a u → (w'.markOf v).low ≤ w.position u

variable {g : Graph} {path : List Nat} {w' cur : Walk} {rest above : List Nat}

lemma Keeps.visited (h : w.Keeps w') (hu : w.Visited u) : w'.Visited u := by
  unfold Visited
  rw [h u hu]
  exact hu

lemma Keeps.position (h : w.Keeps w') (hu : w.Visited u) : w'.position u = w.position u := by
  unfold Walk.position
  rw [h u hu]

lemma Keeps.trans {w'' : Walk} (h : w.Keeps w') (h' : w'.Keeps w'') : w.Keeps w'' := by
  intro u hu
  rw [h' u (h.visited hu), h u hu]

lemma index_lower (hv : w.Visited v) (low u : Nat) :
    ((w.lower v low).markOf u).index = (w.markOf u).index := by
  rw [markOf_lower (lt_of_visited hv)]
  split <;> simp [*]

lemma visited_lower (hv : w.Visited v) (low u : Nat) :
    (w.lower v low).Visited u ↔ w.Visited u := by
  rw [Visited, Visited, index_lower hv]

namespace Sound

lemma nodup (h : w.Sound g path) : w.stack.Nodup :=
  h.descending.imp fun hlt heq => by
    rw [heq] at hlt
    exact Nat.lt_irrefl _ hlt

lemma visited_of_path (h : w.Sound g path) (hv : v ∈ path) : w.Visited v :=
  (h.numbered v (h.nested.subset hv)).1

lemma length_path_lt (h : w.Ready g path v) : path.length < g.size := by
  have hnew : v ∉ path := fun hv => h.unvisited (h.sound.visited_of_path hv)
  have hnodup : (v :: path).Nodup :=
    List.nodup_cons.mpr ⟨hnew, h.sound.nested.nodup h.sound.nodup⟩
  have hrange : v :: path ⊆ List.range g.size := by
    intro u hu
    rw [List.mem_range]
    rcases List.mem_cons.mp hu with rfl | hu
    · exact h.inRange
    · exact h.sound.length ▸ lt_of_visited (h.sound.visited_of_path hu)
  have hle := (hnodup.subperm hrange).length_le
  rwa [List.length_range] at hle

lemma position_lt {below : List Nat} (h : w.Sound g path) (hstack : w.stack = above ++ below)
    {x y : Nat} (hx : x ∈ above) (hy : y ∈ below) : w.position y < w.position x := by
  have hdescending := h.descending
  rw [hstack, List.pairwise_append] at hdescending
  exact hdescending.2.2 x hx y hy

lemma closed_of_reaches (h : w.Sound g path) {x y : Nat} (hx : w.Closed x)
    (hreaches : g.Reaches x y) : w.Closed y := by
  induction hreaches with
  | refl => exact hx
  | tail _ hedge ih => exact h.closed _ ih _ hedge

lemma lower (h : w.Sound g path) (hv : w.Visited v) : (w.lower v low).Sound g path := by
  have hmark := markOf_lower (lt_of_visited hv) low
  have hindex := index_lower hv low
  have honStack (u : Nat) : ((w.lower v low).markOf u).onStack = (w.markOf u).onStack := by
    rw [hmark]
    split <;> simp [*]
  have hcomponent (u : Nat) :
      ((w.lower v low).markOf u).component = (w.markOf u).component := by
    rw [hmark]
    split <;> simp [*]
  have hvisited := visited_lower hv low
  have hposition (u : Nat) : (w.lower v low).position u = w.position u := by
    rw [position, position, hindex]
  have hclosed (u : Nat) : (w.lower v low).Closed u ↔ w.Closed u := by
    rw [Closed, Closed, hvisited, stack_lower]
  constructor
  · simpa using h.length
  · simpa [honStack] using h.onStack
  · simpa [hvisited, hposition] using h.numbered
  · simpa [hposition] using h.descending
  · exact h.nested
  · simpa [hvisited] using h.done
  · simpa [hclosed] using h.closed
  · simpa [hposition] using h.onward
  · simpa [hposition] using h.back
  · simpa [hclosed, hcomponent] using h.counted
  · simpa [hclosed, hcomponent] using h.together

end Sound

/-! ### Edge by edge -/

lemma Ready.reaches (h : w.Ready g path v) {x : Nat} (hx : x ∈ w.stack) : g.Reaches x v := by
  obtain ⟨p, hp, _, hreaches⟩ := h.sound.back x hx
  exact hreaches.trans (h.reached p hp)

lemma Ready.lt_length (h : w.Ready g path v) : v < w.marks.length :=
  h.sound.length ▸ h.inRange

lemma Ready.ne (h : w.Ready g path v) (hu : w.Visited u) : u ≠ v := by
  rintro rfl
  exact h.unvisited hu

lemma Ready.keeps_enter (h : w.Ready g path v) : w.Keeps (w.enter v) := fun u hu => by
  rw [markOf_enter h.lt_length, if_neg (h.ne hu)]

lemma Ready.index_enter (h : w.Ready g path v) :
    ((w.enter v).markOf v).index = some w.nextIndex := by
  rw [markOf_enter h.lt_length, if_pos rfl]

lemma Ready.position_enter (h : w.Ready g path v) : (w.enter v).position v = w.nextIndex := by
  rw [position, h.index_enter, Option.getD_some]

lemma Ready.visited_enter (h : w.Ready g path v) (u : Nat) :
    (w.enter v).Visited u ↔ u = v ∨ w.Visited u := by
  unfold Visited
  rw [markOf_enter h.lt_length]
  by_cases hu : u = v <;> simp [hu]

lemma Ready.closed_enter (h : w.Ready g path v) (u : Nat) :
    (w.enter v).Closed u ↔ w.Closed u := by
  unfold Closed
  rw [h.visited_enter, stack_enter, List.mem_cons]
  by_cases hu : u = v
  · simp [hu, h.unvisited]
  · simp [hu]

lemma Ready.sound_enter (h : w.Ready g path v) : (w.enter v).Sound g (v :: path) := by
  have hsound := h.sound
  have hposition {u : Nat} (hu : u ∈ w.stack) : (w.enter v).position u = w.position u :=
    h.keeps_enter.position (hsound.numbered u hu).1
  constructor
  case length => simpa using hsound.length
  case onStack =>
    intro u
    rw [markOf_enter h.lt_length, stack_enter, List.mem_cons, ← hsound.onStack]
    by_cases hu : u = v <;> simp [hu]
  case numbered =>
    intro u hu
    rw [h.visited_enter, nextIndex_enter]
    rcases List.mem_cons.mp hu with rfl | hold
    · exact ⟨.inl rfl, by rw [h.position_enter]; omega⟩
    · obtain ⟨hvisited, hlt⟩ := hsound.numbered u hold
      exact ⟨.inr hvisited, by rw [hposition hold]; omega⟩
  case descending =>
    refine List.pairwise_cons.mpr ⟨fun u hu => ?_, ?_⟩
    · rw [hposition hu, h.position_enter]
      exact (hsound.numbered u hu).2
    · refine hsound.descending.imp_of_mem fun ha hb hlt => ?_
      rwa [hposition ha, hposition hb]
  case nested => exact hsound.nested.cons_cons v
  case done =>
    intro a ha hpath u hedge
    obtain ⟨hne, hpath⟩ := not_or.mp (mt List.mem_cons.mpr hpath)
    have hold : w.Visited a := ((h.visited_enter a).mp ha).resolve_left hne
    exact h.keeps_enter.visited (hsound.done a hold hpath u hedge)
  case closed => simpa only [h.closed_enter] using hsound.closed
  case onward =>
    intro x hx y hy hle
    rcases List.mem_cons.mp hx with rfl | hxold
    · rcases List.mem_cons.mp hy with rfl | hyold
      · exact .refl
      · have hlt := (hsound.numbered y hyold).2
        rw [hposition hyold, h.position_enter] at hle
        omega
    · rcases List.mem_cons.mp hy with rfl | hyold
      · exact h.reaches hxold
      · rw [hposition hxold, hposition hyold] at hle
        exact hsound.onward x hxold y hyold hle
  case back =>
    intro y hy
    rcases List.mem_cons.mp hy with rfl | hold
    · exact ⟨y, List.mem_cons_self, Nat.le_refl _, .refl⟩
    · obtain ⟨x, hx, hle, hreaches⟩ := hsound.back y hold
      refine ⟨x, List.mem_cons_of_mem _ hx, ?_, hreaches⟩
      rwa [hposition hold, hposition (hsound.nested.subset hx)]
  case counted =>
    intro u hu
    rw [h.closed_enter] at hu
    rw [h.keeps_enter u hu.1, components_enter]
    exact hsound.counted u hu
  case together =>
    intro a u ha hu
    rw [h.closed_enter] at ha hu
    rw [h.keeps_enter a ha.1, h.keeps_enter u hu.1]
    exact hsound.together a u ha hu

lemma Ready.following (h : w.Ready g path v) (hrest : ∀ u, g.Edge v u → u ∈ rest) :
    Following g path w v rest (w.enter v) [] where
  sound := h.sound_enter
  keeps := h.keeps_enter
  stack := rfl
  index := h.index_enter
  low := .inl (by rw [markOf_enter h.lt_length, if_pos rfl])
  bound := by simp
  followed := fun u hedge hu => absurd (hrest u hedge) hu

lemma Anchored.min {low low' : Nat} (h : Anchored g w v low) (h' : Anchored g w v low') :
    Anchored g w v (min low low') := by
  rcases Nat.le_total low low' with hle | hle
  · rwa [Nat.min_eq_left hle]
  · rwa [Nat.min_eq_right hle]

namespace Following

lemma visited (h : Following g path w v rest cur above) : cur.Visited v := by
  unfold Visited
  simp [h.index]

lemma position (h : Following g path w v rest cur above) : cur.position v = w.nextIndex := by
  rw [Walk.position, h.index, Option.getD_some]

lemma mem_stack (h : Following g path w v rest cur above) (hu : u ∈ w.stack) : u ∈ cur.stack := by
  rw [h.stack]
  exact List.mem_append_right _ (List.mem_cons_of_mem _ hu)

lemma low_le (h : Following g path w v rest cur above) (hready : w.Ready g path v) :
    (cur.markOf v).low ≤ w.nextIndex := by
  rcases h.low with heq | ⟨x, hx, heq, _⟩
  · exact Nat.le_of_eq heq
  · rw [heq]
    exact Nat.le_of_lt (hready.sound.numbered x hx).2

/-- A low link to a node of the stack that `v` reaches is as good as its own. -/
lemma anchored (h : Following g path w v rest cur above) (hready : w.Ready g path v) {x : Nat}
    (hx : x ∈ cur.stack) (hreaches : g.Reaches v x) :
    Anchored g w v (min (cur.markOf v).low (cur.position x)) := by
  have hown := h.low_le hready
  rw [h.stack] at hx
  rcases List.mem_append.mp hx with habove | hx
  · have hlt := h.sound.position_lt h.stack habove List.mem_cons_self
    rw [h.position] at hlt
    rw [Nat.min_eq_left (by omega)]
    exact h.low
  · rcases List.mem_cons.mp hx with rfl | hbelow
    · rw [h.position, Nat.min_eq_left hown]
      exact h.low
    · refine h.low.min (.inr ⟨x, hbelow, ?_, hreaches⟩)
      exact h.keeps.position (hready.sound.numbered x hbelow).1

/-- An edge has been followed. What was found is on top of the stack, and its low link is passed
on. -/
lemma next {next : Walk} {new : List Nat} (h : Following g path w v (u :: rest) cur above)
    (hready : w.Ready g path v) (hsound : next.Sound g (v :: path)) (hkeeps : cur.Keeps next)
    (hstack : next.stack = new ++ cur.stack) (hvisited : next.Visited u)
    (hlow : Anchored g w v (min (cur.markOf v).low low))
    (hbound : ∀ a ∈ new, ∀ t ∈ w.stack, g.Edge a t → low ≤ w.position t)
    (hown : u ∈ w.stack → low ≤ w.position u) :
    Following g path w v rest (next.lower v low) (new ++ above) := by
  have hv : next.Visited v := hkeeps.visited h.visited
  have hmark := markOf_lower (lt_of_visited hv) low
  have hlowered : ((next.lower v low).markOf v).low = min (cur.markOf v).low low := by
    rw [hmark, if_pos rfl, hkeeps v h.visited]
  constructor
  case sound => exact hsound.lower hv
  case keeps =>
    intro t ht
    rw [hmark, if_neg (hready.ne ht), h.keeps.trans hkeeps t ht]
  case stack => rw [stack_lower, hstack, h.stack, List.append_assoc]
  case index => rw [hmark, if_pos rfl, hkeeps v h.visited, h.index]
  case low => rwa [hlowered]
  case bound =>
    intro a ha t ht hedge
    rw [hlowered]
    rcases List.mem_append.mp ha with hnew | hold
    · exact Nat.le_trans (Nat.min_le_right _ _) (hbound a hnew t ht hedge)
    · exact Nat.le_trans (Nat.min_le_left _ _) (h.bound a hold t ht hedge)
  case followed =>
    intro t hedge ht
    rw [visited_lower hv, hlowered]
    by_cases htu : t = u
    · subst htu
      exact ⟨hvisited, fun hmem => Nat.le_trans (Nat.min_le_right _ _) (hown hmem)⟩
    · obtain ⟨hfound, hle⟩ := h.followed t hedge (by simp [htu, ht])
      exact ⟨hkeeps.visited hfound, fun hmem => Nat.le_trans (Nat.min_le_left _ _) (hle hmem)⟩

lemma ready (h : Following g path w v rest cur above) (hready : w.Ready g path v)
    (hedge : g.Edge v u) (hu : u < g.size) (hunvisited : ¬ cur.Visited u) :
    cur.Ready g (v :: path) u where
  sound := h.sound
  unvisited := hunvisited
  inRange := hu
  reached := by
    intro p hp
    rcases List.mem_cons.mp hp with rfl | hp
    · exact .single hedge
    · exact (hready.reached p hp).tail hedge

lemma follow (h : Following g path w v (u :: rest) cur above) (hready : w.Ready g path v)
    (hedge : g.Edge v u) (hu : u < g.size) {visit : Walk → Nat → Walk}
    (hvisit : cur.Ready g (v :: path) u → ∃ new, Leaves g (v :: path) cur u (visit cur u) new) :
    ∃ above, Following g path w v rest (follow visit v cur u) above := by
  have hreaches : g.Reaches v u := .single hedge
  unfold Walk.follow
  cases hindex : (cur.markOf u).index with
  | none =>
    have hunvisited : ¬ cur.Visited u := fun hvisited => hvisited hindex
    have hnew : u ∉ w.stack := fun hmem =>
      hunvisited (h.keeps.visited (hready.sound.numbered u hmem).1)
    obtain ⟨new, hleaves⟩ := hvisit (h.ready hready hedge hu hunvisited)
    refine ⟨_, h.next hready hleaves.sound hleaves.keeps hleaves.stack hleaves.visited ?_ ?_
      fun hmem => absurd hmem hnew⟩
    · rcases hleaves.low with ⟨_, hle⟩ | ⟨x, hx, heq, hback⟩
      · have hown := h.low_le hready
        have hlt := (h.sound.numbered v (h.sound.nested.subset List.mem_cons_self)).2
        rw [h.position] at hlt
        rw [Nat.min_eq_left (by omega)]
        exact h.low
      · rw [heq]
        exact h.anchored hready hx (hreaches.trans hback)
    · intro a ha t ht hat
      have hle := hleaves.bound a ha t (h.mem_stack ht) hat
      rwa [h.keeps.position (hready.sound.numbered t ht).1] at hle
  | some index =>
    have hvisited : cur.Visited u := by simp [Visited, hindex]
    have hposition : cur.position u = index := by simp [Walk.position, hindex]
    simp only
    split
    · rename_i honStack
      have hmem : u ∈ cur.stack := (h.sound.onStack u).mp honStack
      refine ⟨_, h.next hready h.sound (fun _ _ => rfl) (List.nil_append _).symm hvisited ?_
        (by simp) fun hold => ?_⟩
      · rw [← hposition]
        exact h.anchored hready hmem hreaches
      · have hkept := h.keeps.position (hready.sound.numbered u hold).1
        exact Nat.le_of_eq (hposition.symm.trans hkept)
    · rename_i hoff
      refine ⟨above, { h with followed := fun t ht hrest => ?_ }⟩
      by_cases htu : t = u
      · subst htu
        exact ⟨hvisited, fun hold => absurd ((h.sound.onStack t).mpr (h.mem_stack hold)) hoff⟩
      · exact h.followed t ht (by simp [htu, hrest])

end Following

end Walk

end InspectorProtocol
