import InspectorProtocol.Proofs.Walks

/-!
# Components of finite graphs

A node whose low link points to itself when its visit is over makes a component with what is above
it on the stack; any other stays there. What a visit leaves is so said for the whole of it, and
holds by induction on how deep visits may be nested. The path grows with each, so there is always
room for one more.
-/

namespace InspectorProtocol

namespace Walk

variable {g : Graph} {path : List Nat} {w w' cur : Walk} {rest above : List Nat} {u v : Nat}

/-! ### Taking nodes off the stack -/

/-- What popping makes of a node's mark. -/
def popped (w : Walk) (m : Mark) : Mark := { m with onStack := false, component := w.components }

/-- Popping ends with the node that is waited for, and closes those above it. -/
lemma pop_spec {above below : List Nat} (hv : v ∉ above)
    (hlt : ∀ u ∈ v :: above, u < w.marks.length) :
    let w' := pop v (above ++ v :: below) w
    w'.stack = below ∧ w'.nextIndex = w.nextIndex ∧ w'.components = w.components ∧
      w'.marks.length = w.marks.length ∧
      ∀ u, w'.markOf u = if u ∈ v :: above then w.popped (w.markOf u) else w.markOf u := by
  induction above generalizing w with
  | nil =>
    have hlt : v < w.marks.length := hlt v List.mem_cons_self
    simp only [List.nil_append, pop, if_true, List.mem_singleton]
    refine ⟨trivial, rfl, rfl, List.length_set, fun u => ?_⟩
    refine (markOf_mark hlt u).trans ?_
    by_cases h : u = v
    · simp [h, popped]
    · simp [h]
  | cons a above ih =>
    obtain ⟨hne, hv⟩ := not_or.mp (mt List.mem_cons.mpr hv)
    have ha : a < w.marks.length := hlt a (by simp)
    let w₁ : Walk :=
      { w.mark a { w.markOf a with onStack := false, component := w.components } with
        stack := above ++ v :: below }
    have hlength : w₁.marks.length = w.marks.length := List.length_set
    have hmark (u : Nat) : w₁.markOf u = if u = a then w.popped (w.markOf a) else w.markOf u :=
      markOf_mark ha u
    obtain ⟨hstack, hnext, hcomponents, hmarks, hall⟩ := @ih w₁ hv fun u hu => by
      rw [hlength]
      exact hlt u (by rcases List.mem_cons.mp hu with rfl | hu <;> simp [*])
    simp only [List.cons_append, pop, if_neg (Ne.symm hne)]
    refine ⟨hstack, hnext, hcomponents, hmarks.trans hlength, fun u => ?_⟩
    have hsame (m : Mark) : w₁.popped m = w.popped m := rfl
    have htwice (m : Mark) : w.popped (w.popped m) = w.popped m := rfl
    refine (hall u).trans ?_
    by_cases hu : u = a
    · simp [hmark, hsame, htwice, hu]
    · simp [hmark, hsame, hu]

/-- What taking the top off the stack for a component makes of a walk. -/
structure Pops (cur : Walk) (top below : List Nat) (w' : Walk) : Prop where
  stack : w'.stack = below
  nextIndex : w'.nextIndex = cur.nextIndex
  components : w'.components = cur.components + 1
  length : w'.marks.length = cur.marks.length
  marks : ∀ u, w'.markOf u = if u ∈ top then cur.popped (cur.markOf u) else cur.markOf u

namespace Pops

variable {top below : List Nat}

lemma index (h : Pops cur top below w') (u : Nat) :
    (w'.markOf u).index = (cur.markOf u).index := by
  rw [h.marks]
  split <;> rfl

lemma visited (h : Pops cur top below w') (u : Nat) : w'.Visited u ↔ cur.Visited u := by
  rw [Visited, Visited, h.index]

lemma position (h : Pops cur top below w') (u : Nat) : w'.position u = cur.position u := by
  rw [Walk.position, Walk.position, h.index]

lemma component_top (h : Pops cur top below w') (hu : u ∈ top) :
    (w'.markOf u).component = cur.components := by
  rw [h.marks, if_pos hu]
  rfl

lemma component_rest (h : Pops cur top below w') (hu : u ∉ top) :
    (w'.markOf u).component = (cur.markOf u).component := by
  rw [h.marks, if_neg hu]

end Pops

/-! ### At the end of a visit -/

namespace Following

lemma stays (h : Following g path w v [] cur above) (hready : w.Ready g path v)
    (hlow : (cur.markOf v).low ≠ w.nextIndex) : Leaves g path w v cur (above ++ [v]) := by
  obtain ⟨x, hx, heq, hreaches⟩ := h.low.resolve_left hlow
  have hfollowed (u : Nat) (hedge : g.Edge v u) := h.followed u hedge List.not_mem_nil
  constructor
  case sound =>
    refine
      { h.sound with
        nested := (List.sublist_cons_self v path).trans h.sound.nested
        done := fun a ha hpath u hedge => ?_
        back := fun y hy => ?_ }
    · by_cases hav : a = v
      · exact (hfollowed u (hav ▸ hedge)).1
      · exact h.sound.done a ha (by simp [hav, hpath]) u hedge
    · obtain ⟨z, hz, hle, hyz⟩ := h.sound.back y hy
      rcases List.mem_cons.mp hz with rfl | hz
      · -- from `v` it goes on to a node below, and so to the path
        obtain ⟨p, hp, hpx, hback⟩ := hready.sound.back x hx
        have hlt := (hready.sound.numbered x hx).2
        refine ⟨p, hp, ?_, (hyz.trans hreaches).trans hback⟩
        rw [h.keeps.position (hready.sound.visited_of_path hp)]
        rw [h.position] at hle
        omega
      · exact ⟨z, hz, hle, hyz⟩
  case keeps => exact h.keeps
  case visited => exact h.visited
  case stack => rw [h.stack, List.append_assoc, List.singleton_append]
  case low => exact .inr ⟨x, hx, heq, hreaches⟩
  case bound =>
    intro a ha u hu hedge
    rcases List.mem_append.mp ha with habove | hv
    · exact h.bound a habove u hu hedge
    · rw [List.mem_singleton] at hv
      exact (hfollowed u (hv ▸ hedge)).2 hu

lemma each_other (h : Following g path w v rest cur above) (hready : w.Ready g path v) {a : Nat}
    (ha : a ∈ v :: above) : g.Reaches v a ∧ g.Reaches a v := by
  have hmem : a ∈ cur.stack := by
    rw [h.stack]
    rcases List.mem_cons.mp ha with rfl | ha <;> simp [*]
  constructor
  · refine h.sound.onward v (h.sound.nested.subset List.mem_cons_self) a hmem ?_
    rcases List.mem_cons.mp ha with rfl | ha
    · exact Nat.le_refl _
    · exact Nat.le_of_lt (h.sound.position_lt h.stack ha List.mem_cons_self)
  · obtain ⟨x, hx, _, hreaches⟩ := h.sound.back a hmem
    rcases List.mem_cons.mp hx with rfl | hx
    · exact hreaches
    · exact hreaches.trans (hready.reached x hx)

/-- No edge leads from a node whose low link points to itself, or from what is above it, to the
stack below. -/
lemma not_mem_of_edge (h : Following g path w v [] cur above) (hready : w.Ready g path v)
    (hlow : (cur.markOf v).low = w.nextIndex) {a : Nat} (ha : a ∈ v :: above)
    (hedge : g.Edge a u) : cur.Visited u ∧ u ∉ w.stack := by
  have hlt (hu : u ∈ w.stack) : w.position u < w.nextIndex := (hready.sound.numbered u hu).2
  rcases List.mem_cons.mp ha with rfl | ha
  · obtain ⟨hvisited, hle⟩ := h.followed u hedge List.not_mem_nil
    refine ⟨hvisited, fun hu => ?_⟩
    have hu' := hlt hu
    have hle := hle hu
    omega
  · have hpath : a ∉ v :: path := by
      intro hmem
      have hbelow : a ∈ v :: w.stack := by
        rcases List.mem_cons.mp hmem with rfl | hmem
        · exact List.mem_cons_self
        · exact List.mem_cons_of_mem _ (hready.sound.nested.subset hmem)
      exact Nat.lt_irrefl _ (h.sound.position_lt h.stack ha hbelow)
    have hvisited : cur.Visited a :=
      (h.sound.numbered a (by rw [h.stack]; exact List.mem_append_left _ ha)).1
    refine ⟨h.sound.done a hvisited hpath u hedge, fun hu => ?_⟩
    have hu' := hlt hu
    have hle := h.bound a ha u hu hedge
    omega

lemma mem_stack_iff (h : Following g path w v rest cur above) (a : Nat) :
    a ∈ cur.stack ↔ a ∈ v :: above ∨ a ∈ w.stack := by
  rw [h.stack]
  simp only [List.mem_append, List.mem_cons]
  tauto

lemma not_mem_below (h : Following g path w v rest cur above) (hready : w.Ready g path v) {a : Nat}
    (ha : a ∈ v :: above) : a ∉ w.stack := by
  intro hbelow
  rcases List.mem_cons.mp ha with rfl | habove
  · exact hready.unvisited (hready.sound.numbered a hbelow).1
  · exact Nat.lt_irrefl _ (h.sound.position_lt h.stack habove (List.mem_cons_of_mem _ hbelow))

lemma leave_pops (h : Following g path w v rest cur above)
    (hlow : (cur.markOf v).low = w.nextIndex) :
    Pops cur (v :: above) w.stack (cur.leave v) := by
  have hnew : v ∉ above := fun hv =>
    Nat.lt_irrefl _ (h.sound.position_lt h.stack hv List.mem_cons_self)
  obtain ⟨hstack, hnext, hcomponents, hlength, hmark⟩ := @pop_spec cur v above w.stack hnew
    fun u hu => lt_of_visited (h.sound.numbered u ((h.mem_stack_iff u).mpr (.inl hu))).1
  rw [leave, if_pos (h.index.trans (congrArg some hlow.symm)), h.stack]
  exact ⟨hstack, hnext, congrArg (· + 1) hcomponents, hlength, hmark⟩

lemma closed_of_pops (h : Following g path w v rest cur above)
    (hpops : Pops cur (v :: above) w.stack w') (hu : w'.Closed u) (hnew : u ∉ v :: above) :
    cur.Closed u := by
  refine ⟨(hpops.visited u).mp hu.1, fun hmem => ?_⟩
  exact ((h.mem_stack_iff u).mp hmem).elim hnew (hpops.stack ▸ hu.2)

lemma apart_of_closed (h : Following g path w v rest cur above) {a : Nat} (ha : a ∈ v :: above)
    (hu : cur.Closed u) : (cur.markOf u).component ≠ cur.components ∧ ¬ g.Reaches u a := by
  refine ⟨Nat.ne_of_lt (h.sound.counted u hu), fun hreaches => ?_⟩
  exact (h.sound.closed_of_reaches hu hreaches).2 ((h.mem_stack_iff a).mpr (.inl ha))

lemma together_of_pops (h : Following g path w v rest cur above) (hready : w.Ready g path v)
    (hpops : Pops cur (v :: above) w.stack w') {a : Nat} (ha : w'.Closed a) (hu : w'.Closed u) :
    (w'.markOf a).component = (w'.markOf u).component ↔ g.Reaches a u ∧ g.Reaches u a := by
  by_cases hanew : a ∈ v :: above
  · obtain ⟨hva, hav⟩ := h.each_other hready hanew
    rw [hpops.component_top hanew]
    by_cases hunew : u ∈ v :: above
    · obtain ⟨hvu, huv⟩ := h.each_other hready hunew
      rw [hpops.component_top hunew]
      exact iff_of_true rfl ⟨hav.trans hvu, huv.trans hva⟩
    · obtain ⟨hne, hnot⟩ := h.apart_of_closed hanew (h.closed_of_pops hpops hu hunew)
      rw [hpops.component_rest hunew]
      exact iff_of_false (Ne.symm hne) fun hboth => hnot hboth.2
  · have haold := h.closed_of_pops hpops ha hanew
    rw [hpops.component_rest hanew]
    by_cases hunew : u ∈ v :: above
    · obtain ⟨hne, hnot⟩ := h.apart_of_closed hunew haold
      rw [hpops.component_top hunew]
      exact iff_of_false hne fun hboth => hnot hboth.1
    · rw [hpops.component_rest hunew]
      exact h.sound.together a u haold (h.closed_of_pops hpops hu hunew)

lemma sound_of_pops (h : Following g path w v [] cur above) (hready : w.Ready g path v)
    (hlow : (cur.markOf v).low = w.nextIndex) (hpops : Pops cur (v :: above) w.stack w') :
    w'.Sound g path := by
  have hold {u : Nat} (hu : u ∈ w.stack) : u ∈ cur.stack := h.mem_stack hu
  have hkept {u : Nat} (hu : u ∈ w.stack) : w'.position u = w.position u := by
    rw [hpops.position, h.keeps.position (hready.sound.numbered u hu).1]
  constructor
  case length => exact hpops.length.trans h.sound.length
  case onStack =>
    intro u
    rw [hpops.marks, hpops.stack]
    split
    · rename_i hu
      simpa [popped] using h.not_mem_below hready hu
    · rename_i hu
      rw [h.sound.onStack, h.mem_stack_iff]
      exact or_iff_right hu
  case numbered =>
    intro u hu
    rw [hpops.visited, hpops.position, hpops.nextIndex]
    exact h.sound.numbered u (hold (hpops.stack ▸ hu))
  case descending =>
    rw [hpops.stack]
    refine hready.sound.descending.imp_of_mem fun ha hb hlt => ?_
    rwa [hkept ha, hkept hb]
  case nested => exact hpops.stack ▸ hready.sound.nested
  case done =>
    intro a ha hpath u hedge
    rw [hpops.visited] at ha ⊢
    by_cases hav : a = v
    · exact (h.followed u (hav ▸ hedge) List.not_mem_nil).1
    · exact h.sound.done a ha (by simp [hav, hpath]) u hedge
  case closed =>
    intro a ha u hedge
    rw [Closed, hpops.visited, hpops.stack]
    by_cases hnew : a ∈ v :: above
    · exact h.not_mem_of_edge hready hlow hnew hedge
    · obtain ⟨hfound, hoff⟩ := h.sound.closed a (h.closed_of_pops hpops ha hnew) u hedge
      exact ⟨hfound, fun hmem => hoff (hold hmem)⟩
  case onward =>
    intro x hx y hy hle
    rw [hpops.stack] at hx hy
    rw [hkept hx, hkept hy] at hle
    exact hready.sound.onward x hx y hy hle
  case back =>
    intro y hy
    rw [hpops.stack] at hy
    obtain ⟨x, hx, hle, hreaches⟩ := hready.sound.back y hy
    refine ⟨x, hx, ?_, hreaches⟩
    rwa [hkept hy, hkept (hready.sound.nested.subset hx)]
  case counted =>
    intro u hu
    rw [hpops.components]
    by_cases hnew : u ∈ v :: above
    · rw [hpops.component_top hnew]
      exact Nat.lt_succ_self _
    · rw [hpops.component_rest hnew]
      exact Nat.lt_succ_of_lt (h.sound.counted u (h.closed_of_pops hpops hu hnew))
  case together => exact fun a u ha hu => h.together_of_pops hready hpops ha hu

lemma closes (h : Following g path w v [] cur above) (hready : w.Ready g path v)
    (hlow : (cur.markOf v).low = w.nextIndex) : Leaves g path w v (cur.leave v) [] := by
  have hpops := h.leave_pops hlow
  constructor
  case sound => exact h.sound_of_pops hready hlow hpops
  case keeps =>
    intro u hu
    have hnew : u ∉ v :: above := by
      intro hmem
      have honStack := (h.sound.onStack u).mpr ((h.mem_stack_iff u).mpr (.inl hmem))
      rw [h.keeps u hu, hready.sound.onStack] at honStack
      exact h.not_mem_below hready hmem honStack
    rw [hpops.marks, if_neg hnew, h.keeps u hu]
  case visited => exact (hpops.visited v).mpr h.visited
  case stack => exact hpops.stack
  case low =>
    refine .inl ⟨rfl, ?_⟩
    rw [hpops.marks, if_pos List.mem_cons_self]
    exact Nat.le_of_eq hlow.symm
  case bound => simp

lemma leaves (h : Following g path w v [] cur above) (hready : w.Ready g path v) :
    ∃ above, Leaves g path w v (cur.leave v) above := by
  by_cases hlow : (cur.markOf v).low = w.nextIndex
  · exact ⟨[], h.closes hready hlow⟩
  · have hne : (cur.markOf v).index ≠ some (cur.markOf v).low := by
      rw [h.index]
      exact fun heq => hlow (Option.some.inj heq).symm
    rw [leave, if_neg hne]
    exact ⟨_, h.stays hready hlow⟩

/-- Follow all edges that are left, by visits that agree wherever the walk may come to. -/
lemma foldl {visit visit' : Walk → Nat → Walk} (hready : w.Ready g path v)
    (hvisit : ∀ cur u, cur.Ready g (v :: path) u →
      (∃ new, Leaves g (v :: path) cur u (visit cur u) new) ∧ visit' cur u = visit cur u)
    (hrest : ∀ u ∈ rest, g.Edge v u ∧ u < g.size) (h : Following g path w v rest cur above) :
    (∃ above, Following g path w v [] (rest.foldl (Walk.follow visit v) cur) above) ∧
      rest.foldl (Walk.follow visit' v) cur = rest.foldl (Walk.follow visit v) cur := by
  induction rest generalizing cur above with
  | nil => exact ⟨⟨above, h⟩, rfl⟩
  | cons u rest ih =>
    obtain ⟨⟨hedge, hu⟩, hrest⟩ := List.forall_mem_cons.mp hrest
    have hsame : Walk.follow visit' v cur u = Walk.follow visit v cur u := by
      unfold Walk.follow
      cases hindex : (cur.markOf u).index with
      | none =>
        have hunvisited : ¬ cur.Visited u := fun hvisited => hvisited hindex
        simp only [(hvisit cur u (h.ready hready hedge hu hunvisited)).2]
      | some => rfl
    obtain ⟨new, hnext⟩ := h.follow hready hedge hu fun hinner => (hvisit cur u hinner).1
    rw [List.foldl_cons, List.foldl_cons, hsame]
    exact ih hrest hnext

end Following

end Walk

namespace Graph

open Walk

variable {g : Graph} {path : List Nat} {w : Walk} {v u depth : Nat}

/-! ### The whole walk -/

/-- The path grows by a node with each visit inside another, so visits may be nested as deep as
there are nodes outside it. -/
theorem visit_spec (hg : g.InRange) (h : w.Ready g path v)
    (hdepth : g.size ≤ depth + path.length) :
    (∃ above, Leaves g path w v (g.visit depth w v) above) ∧
      ∀ more, g.visit (depth + more) w v = g.visit depth w v := by
  induction depth generalizing path w v with
  | zero =>
    have hlt := Sound.length_path_lt h
    omega
  | succ depth ih =>
    have hinner (more : Nat) (cur : Walk) (u : Nat) (hcur : cur.Ready g (v :: path) u) :
        (∃ new, Leaves g (v :: path) cur u (g.visit depth cur u) new) ∧
          g.visit (depth + more) cur u = g.visit depth cur u := by
      obtain ⟨hleaves, hsame⟩ := ih hcur (by rw [List.length_cons]; omega)
      exact ⟨hleaves, hsame more⟩
    have hstart : Following g path w v (g.targetsOf v) (w.enter v) [] :=
      h.following fun _ hedge => hedge
    have hedges : ∀ u ∈ g.targetsOf v, g.Edge v u ∧ u < g.size :=
      fun u hu => ⟨hu, lt_of_edge hg hu⟩
    constructor
    · obtain ⟨⟨above, hfollowed⟩, _⟩ := Following.foldl h (hinner 0) hedges hstart
      exact hfollowed.leaves h
    · intro more
      obtain ⟨_, hsame⟩ := Following.foldl h (hinner more) hedges hstart
      rw [Nat.add_right_comm, visit, visit, hsame]

lemma explore_spec (hg : g.InRange) (h : w.Sound g []) (hv : v < g.size) (hdepth : g.size ≤ depth) :
    (g.explore depth w v).Sound g [] ∧ w.Keeps (g.explore depth w v) ∧
      (g.explore depth w v).Visited v ∧
      ∀ more, g.explore (depth + more) w v = g.explore depth w v := by
  unfold explore
  by_cases hnew : (w.markOf v).index = none
  · have hready : w.Ready g [] v := ⟨h, fun hvisited => hvisited hnew, hv, by simp⟩
    obtain ⟨⟨above, hleaves⟩, hsame⟩ := visit_spec hg hready hdepth
    simp only [if_pos hnew]
    exact ⟨hleaves.sound, hleaves.keeps, hleaves.visited, hsame⟩
  · simp only [if_neg hnew]
    exact ⟨h, fun _ _ => rfl, hnew, fun _ => trivial⟩

lemma foldl_explore_spec (hg : g.InRange) (hdepth : g.size ≤ depth) {nodes : List Nat}
    (hnodes : ∀ v ∈ nodes, v < g.size) (h : w.Sound g []) :
    (nodes.foldl (g.explore depth) w).Sound g [] ∧ w.Keeps (nodes.foldl (g.explore depth) w) ∧
      (∀ v ∈ nodes, (nodes.foldl (g.explore depth) w).Visited v) ∧
      ∀ more, nodes.foldl (g.explore (depth + more)) w = nodes.foldl (g.explore depth) w := by
  induction nodes generalizing w with
  | nil => exact ⟨h, fun _ _ => rfl, by simp, fun _ => rfl⟩
  | cons v nodes ih =>
    obtain ⟨hv, hnodes⟩ := List.forall_mem_cons.mp hnodes
    obtain ⟨hsound, hkeeps, hvisited, hsame⟩ := explore_spec hg h hv hdepth
    obtain ⟨hrest, hlater, hall, hagree⟩ := ih hnodes hsound
    have hallvisited := List.forall_mem_cons.mpr ⟨hlater.visited hvisited, hall⟩
    refine ⟨hrest, hkeeps.trans hlater, hallvisited, fun more => ?_⟩
    rw [List.foldl_cons, List.foldl_cons, hsame, hagree]

lemma sound_initial : Walk.Sound g [] { marks := List.replicate g.size {} } := by
  have hmark (v : Nat) : ({ marks := List.replicate g.size {} } : Walk).markOf v = {} := by
    simp only [markOf, List.getD_eq_getElem?_getD, List.getElem?_replicate]
    split <;> rfl
  constructor <;> simp [hmark, Visited, Closed]

/-- The walk visits all nodes and ends with an empty stack, however much deeper it might go. -/
theorem walk_spec (hg : g.InRange) (hdepth : g.size ≤ depth) :
    (g.walk depth).Sound g [] ∧ (∀ v < g.size, (g.walk depth).Closed v) ∧
      g.walk depth = g.walk g.size := by
  have hrange : ∀ v ∈ List.range g.size, v < g.size := fun v => List.mem_range.mp
  obtain ⟨hsound, _, hvisited, _⟩ := foldl_explore_spec hg hdepth hrange sound_initial
  obtain ⟨_, _, _, hagree⟩ := foldl_explore_spec hg (Nat.le_refl _) hrange sound_initial
  refine ⟨hsound, fun v hv => ⟨hvisited v (List.mem_range.mpr hv), fun hmem => ?_⟩, ?_⟩
  · obtain ⟨_, hpath, _⟩ := hsound.back v hmem
    cases hpath
  · obtain ⟨more, rfl⟩ := Nat.exists_eq_add_of_le hdepth
    exact hagree more

/-- The number of a node's component. -/
def component (g : Graph) (v : Nat) : Nat := ((g.walk g.size).markOf v).component

lemma length_components (hg : g.InRange) : g.components.length = g.size := by
  obtain ⟨hsound, _⟩ := walk_spec hg (Nat.le_refl _)
  rw [components, List.length_map, hsound.length]

lemma getElem?_components (hg : g.InRange) (hv : v < g.size) :
    g.components[v]? = some (g.component v) := by
  obtain ⟨hsound, _⟩ := walk_spec hg (Nat.le_refl _)
  have hlt : v < (g.walk g.size).marks.length := hsound.length.symm ▸ hv
  simp [components, component, markOf, hlt]

lemma component_eq_iff (hg : g.InRange) (hv : v < g.size) (hu : u < g.size) :
    g.component v = g.component u ↔ g.Reaches v u ∧ g.Reaches u v := by
  obtain ⟨hsound, hclosed, _⟩ := walk_spec hg (Nat.le_refl _)
  exact hsound.together v u (hclosed v hv) (hclosed u hu)

/-- Whatever graph there is, the walk comes to its end, and two nodes are given the same component
exactly when each reaches the other. -/
theorem strongly_connected_nodes_share_components (hg : g.InRange) :
    (∀ depth, g.size ≤ depth → g.walk depth = g.walk g.size) ∧ g.components.length = g.size ∧
      ∀ v < g.size, ∀ u < g.size,
        g.components[v]? = g.components[u]? ↔ g.Reaches v u ∧ g.Reaches u v := by
  refine ⟨fun depth hdepth => (walk_spec hg hdepth).2.2, length_components hg, fun v hv u hu => ?_⟩
  rw [getElem?_components hg hv, getElem?_components hg hu, Option.some.injEq]
  exact component_eq_iff hg hv hu

/-- A circle of three nodes, a node behind it, and one that leads to itself. -/
theorem circle_is_one_component :
    let g : Graph := ⟨[[1], [2], [0, 3], [], [4]]⟩
    g.InRange ∧ g.components = [1, 1, 1, 0, 2] ∧ (g.Reaches 0 2 ∧ g.Reaches 2 0) ∧
      ¬ (g.Reaches 2 3 ∧ g.Reaches 3 2) := by
  intro g
  have hrange : g.InRange := by decide
  obtain ⟨_, _, hsame⟩ := strongly_connected_nodes_share_components hrange
  have htogether : g.components[0]? = g.components[2]? := by decide
  have hapart : g.components[2]? ≠ g.components[3]? := by decide
  refine ⟨hrange, by decide, (hsame 0 (by decide) 2 (by decide)).mp htogether, fun h => ?_⟩
  exact hapart ((hsame 2 (by decide) 3 (by decide)).mpr h)

end Graph

end InspectorProtocol
