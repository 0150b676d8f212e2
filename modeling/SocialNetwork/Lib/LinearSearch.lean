import Mathlib

/-!
# The first element of a list that passes a test

The loop `for (i, x) in xs.iter().enumerate() { if p(x) { return Some((i, x)) } }`:
the first element that passes `p`, with its position. Where the element
found is (`firstWith_spec`), when it is a given one (`firstWith_of_unique`),
and how the search runs over a list whose first part holds no match
(`firstWith_append_of_forall`).
-/

namespace LinearSearch

variable {α : Type} (p : α → Bool)

def firstWith : List α → Option (ℕ × α)
  | [] => none
  | a :: as => if p a then some (0, a) else (firstWith as).map fun (i, b) => (i + 1, b)

variable {p} {l l₁ l₂ : List α} {a b : α} {i : ℕ}

@[simp] theorem firstWith_nil : firstWith p ([] : List α) = none := rfl

theorem firstWith_cons_pos {as : List α} (h : p a = true) : firstWith p (a :: as) = some (0, a) := by
  simp [firstWith, h]

theorem firstWith_cons_neg {as : List α} (h : p a = false) :
    firstWith p (a :: as) = (firstWith p as).map fun (i, b) => (i + 1, b) := by
  simp [firstWith, h]

theorem firstWith_spec (h : firstWith p l = some (i, a)) : l[i]? = some a ∧ p a = true := by
  induction l generalizing i with
  | nil => simp at h
  | cons b bs ih =>
      cases hb : p b with
      | true =>
          rw [firstWith_cons_pos hb, Option.some.injEq, Prod.mk.injEq] at h
          obtain ⟨rfl, rfl⟩ := h
          exact ⟨rfl, hb⟩
      | false =>
          rw [firstWith_cons_neg hb] at h
          obtain ⟨⟨j, c⟩, hj, hji⟩ := Option.map_eq_some_iff.1 h
          simp only [Prod.mk.injEq] at hji
          obtain ⟨rfl, rfl⟩ := hji
          exact ih hj

theorem mem_of_firstWith (h : firstWith p l = some (i, a)) : a ∈ l :=
  List.mem_of_getElem? (firstWith_spec h).1

theorem firstWith_of_unique (ha : a ∈ l) (hp : p a = true) (huniq : ∀ b ∈ l, p b = true → b = a) :
    ∃ i, firstWith p l = some (i, a) := by
  induction l with
  | nil => simp at ha
  | cons b bs ih =>
      cases hb : p b with
      | true =>
          obtain rfl := huniq b List.mem_cons_self hb
          exact ⟨0, firstWith_cons_pos hb⟩
      | false =>
          have habs : a ∈ bs := by
            rcases List.mem_cons.1 ha with rfl | ha
            · rw [hp] at hb
              cases hb
            · exact ha
          obtain ⟨i, hi⟩ := ih habs fun c hc => huniq c (List.mem_cons_of_mem _ hc)
          exact ⟨i + 1, by rw [firstWith_cons_neg hb, hi]; rfl⟩

theorem firstWith_append_of_forall (h : ∀ a ∈ l₁, p a = false) :
    firstWith p (l₁ ++ l₂) = (firstWith p l₂).map fun (i, b) => (i + l₁.length, b) := by
  induction l₁ with
  | nil =>
      rw [List.nil_append]
      cases firstWith p l₂ <;> rfl
  | cons a as ih =>
      rw [List.cons_append, firstWith_cons_neg (h a List.mem_cons_self),
        ih fun b hb => h b (List.mem_cons_of_mem _ hb), Option.map_map]
      rfl

theorem firstWith_eq_none (h : ∀ a ∈ l, p a = false) : firstWith p l = none := by
  induction l with
  | nil => rfl
  | cons a as ih =>
      rw [firstWith_cons_neg (h a List.mem_cons_self), ih fun b hb => h b (List.mem_cons_of_mem _ hb)]
      rfl

end LinearSearch
