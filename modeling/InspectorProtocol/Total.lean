/-!
# Totals

The sum of a measure over the elements of a list.
-/

namespace InspectorProtocol

universe u

def total {α : Type u} (measure : α → Nat) : List α → Nat
  | [] => 0
  | x :: rest => measure x + total measure rest

@[simp] theorem total_nil {α : Type u} (measure : α → Nat) : total measure [] = 0 := rfl

@[simp] theorem total_cons {α : Type u} (measure : α → Nat) (x : α) (rest : List α) :
    total measure (x :: rest) = measure x + total measure rest := rfl

@[simp] theorem total_append {α : Type u} (measure : α → Nat) (xs ys : List α) :
    total measure (xs ++ ys) = total measure xs + total measure ys := by
  induction xs with
  | nil => simp
  | cons x rest ih => simp [ih, Nat.add_assoc]

theorem total_perm {α : Type u} {measure : α → Nat} {xs ys : List α} (h : xs.Perm ys) :
    total measure xs = total measure ys := by
  induction h with
  | nil => rfl
  | cons x _ ih => rw [total_cons, total_cons, ih]
  | swap x y rest => simp only [total_cons]; omega
  | trans _ _ ih ih' => rw [ih, ih']

/-- Lists joined into one have as many elements as they have together. -/
theorem length_flatMap {α β : Type u} (f : α → List β) (xs : List α) :
    (xs.flatMap f).length = total (fun x => (f x).length) xs := by
  induction xs with
  | nil => rfl
  | cons x rest ih => rw [List.flatMap_cons, List.length_append, total_cons, ih]

theorem exists_of_total_pos {α : Type u} {measure : α → Nat} {xs : List α}
    (h : 0 < total measure xs) : ∃ x ∈ xs, 0 < measure x := by
  induction xs with
  | nil => cases h
  | cons x rest ih =>
    rw [total_cons] at h
    by_cases hx : 0 < measure x
    · exact ⟨x, List.mem_cons_self, hx⟩
    · obtain ⟨y, hy, hpos⟩ := ih (by omega)
      exact ⟨y, List.mem_cons_of_mem _ hy, hpos⟩

theorem measure_le_total {α : Type u} (measure : α → Nat) {xs : List α} {x : α} (hx : x ∈ xs) :
    measure x ≤ total measure xs := by
  induction xs with
  | nil => cases hx
  | cons y rest ih =>
    rw [total_cons]
    rcases List.mem_cons.mp hx with rfl | hlater
    · omega
    · have hle := ih hlater
      omega

theorem total_mul_le {α : Type u} {measure : α → Nat} {xs : List α} {k m : Nat}
    (h : ∀ x ∈ xs, measure x * k ≤ m) : total measure xs * k ≤ xs.length * m := by
  induction xs with
  | nil => simp
  | cons x rest ih =>
    have hhead := h x List.mem_cons_self
    have htail := ih fun y hy => h y (List.mem_cons_of_mem _ hy)
    rw [total_cons, List.length_cons, Nat.add_mul, Nat.add_mul]
    omega

end InspectorProtocol
