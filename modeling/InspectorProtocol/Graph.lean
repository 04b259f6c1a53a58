/-!
# Components of finite graphs

A graph lists the targets of each of its nodes `0, 1, …`. Two nodes are in one component exactly
when each reaches the other. The components are found by Tarjan's algorithm, one walk over all edges
that goes down as far as it can before it turns back.
-/

namespace InspectorProtocol

/-- The targets of each node. -/
structure Graph where
  targets : List (List Nat)

/-- What a walk has noted of a node. -/
structure Mark where
  /-- when the node was found -/
  index : Option Nat := none
  /-- the least index that is known to be reached without leaving the stack -/
  low : Nat := 0
  onStack : Bool := false
  component : Nat := 0

/-- The state of a walk. The node found last is on top of the stack. -/
structure Walk where
  marks : List Mark
  stack : List Nat := []
  nextIndex : Nat := 0
  components : Nat := 0

namespace Walk

def markOf (w : Walk) (v : Nat) : Mark := w.marks.getD v {}

def mark (w : Walk) (v : Nat) (m : Mark) : Walk := { w with marks := w.marks.set v m }

/-- Number a node and put it on the stack. -/
def enter (w : Walk) (v : Nat) : Walk :=
  { w.mark v { w.markOf v with index := some w.nextIndex, low := w.nextIndex, onStack := true } with
    stack := v :: w.stack
    nextIndex := w.nextIndex + 1 }

def lower (w : Walk) (v low : Nat) : Walk :=
  w.mark v { w.markOf v with low := min (w.markOf v).low low }

/-- Take nodes off a stack until `v` is off it, all for one component. -/
def pop (v : Nat) : List Nat → Walk → Walk
  | [], w => { w with stack := [] }
  | u :: rest, w =>
    let w :=
      { w.mark u { w.markOf u with onStack := false, component := w.components } with
        stack := rest }
    if u = v then w else pop v rest w

/-- A node that reaches none found earlier makes a component with what is above it. -/
def leave (w : Walk) (v : Nat) : Walk :=
  if (w.markOf v).index = some (w.markOf v).low then
    let w := pop v w.stack w
    { w with components := w.components + 1 }
  else w

/-- Follow an edge from `v` to `u`. -/
def follow (visit : Walk → Nat → Walk) (v : Nat) (w : Walk) (u : Nat) : Walk :=
  match (w.markOf u).index with
  | none =>
    let w := visit w u
    w.lower v (w.markOf u).low
  | some index => if (w.markOf u).onStack then w.lower v index else w

end Walk

namespace Graph

def size (g : Graph) : Nat := g.targets.length

def targetsOf (g : Graph) (v : Nat) : List Nat := g.targets.getD v []

/-- Visit a node and what it reaches that has not been visited; `depth` bounds how deep visits are
nested. -/
def visit (g : Graph) : Nat → Walk → Nat → Walk
  | 0, w, _ => w
  | depth + 1, w, v =>
    ((g.targetsOf v).foldl (Walk.follow (visit g depth) v) (w.enter v)).leave v

/-- Visit a node unless that has been done. -/
def explore (g : Graph) (depth : Nat) (w : Walk) (v : Nat) : Walk :=
  if (w.markOf v).index = none then g.visit depth w v else w

/-- Explore all nodes in order. -/
def walk (g : Graph) (depth : Nat) : Walk :=
  (List.range g.size).foldl (g.explore depth) { marks := List.replicate g.size {} }

/-- The component of each node. A visit is inside those of other nodes only. -/
def components (g : Graph) : List Nat := (g.walk g.size).marks.map (·.component)

/-- Whether all targets are nodes. -/
def InRange (g : Graph) : Prop := ∀ targets ∈ g.targets, ∀ u ∈ targets, u < g.size

instance (g : Graph) : Decidable g.InRange :=
  inferInstanceAs (Decidable (∀ targets ∈ g.targets, ∀ u ∈ targets, u < g.size))

end Graph

end InspectorProtocol
