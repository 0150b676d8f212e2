import Mathlib

/-!
# Records laid end to end

A list of records tiles the range `[a, b)` when the first starts at `a`, each
next one starts where the one before it ends, and the last ends at `b`
(`Tiles`): a bump allocator lays out its blocks so. The records of a tiling
lie within the range (`Tiles.bounds`), each ends before the next starts
(`Tiles.pairwise`), and their sizes add up to the length of the range
(`Tiles.add_sum_size`), and records of sizes that are multiples of `k` laid
from a multiple of `k` start at multiples of `k` (`Tiles.dvd`). A record laid
at the end extends the tiling (`Tiles.append`). However the records are rearranged, no two of them overlap
(`Tiles.pairwise_apart`).
-/

namespace Tiling

variable {β : Type*} (start size : β → ℕ)

def Tiles : ℕ → List β → ℕ → Prop
  | a, [], b => a = b
  | a, x :: xs, b => start x = a ∧ Tiles (a + size x) xs b

def Apart (x y : β) : Prop := start x + size x ≤ start y ∨ start y + size y ≤ start x

variable {start size} {a b : ℕ} {bs : List β}

theorem Apart.symm {x y : β} (h : Apart start size x y) : Apart start size y x := Or.symm h

instance : Std.Symm (Apart start size) := ⟨fun _ _ => Apart.symm⟩

theorem Tiles.le : ∀ {a : ℕ} {bs : List β}, Tiles start size a bs b → a ≤ b
  | _, [], h => le_of_eq h
  | _, _ :: _, h => le_trans (Nat.le_add_right _ _) h.2.le

theorem Tiles.bounds : ∀ {a : ℕ} {bs : List β}, Tiles start size a bs b →
    ∀ x ∈ bs, a ≤ start x ∧ start x + size x ≤ b
  | _, [], _, _, hx => absurd hx List.not_mem_nil
  | _, y :: ys, h, x, hx => by
    rcases List.mem_cons.mp hx with rfl | hx
    · exact ⟨h.1.ge, h.1 ▸ h.2.le⟩
    · have := h.2.bounds x hx
      omega

theorem Tiles.pairwise : ∀ {a : ℕ} {bs : List β}, Tiles start size a bs b →
    bs.Pairwise fun x y => start x + size x ≤ start y
  | _, [], _ => .nil
  | _, y :: ys, h => by
    refine List.pairwise_cons.mpr ⟨fun x hx => ?_, h.2.pairwise⟩
    rw [h.1]
    exact (h.2.bounds x hx).1

theorem Tiles.append {x : β} (hx : start x = b) : ∀ {a : ℕ} {bs : List β},
    Tiles start size a bs b → Tiles start size a (bs ++ [x]) (b + size x)
  | _, [], h => ⟨hx.trans h.symm, by rw [← h]; rfl⟩
  | _, _ :: _, h => ⟨h.1, h.2.append hx⟩

theorem Tiles.add_sum_size : ∀ {a : ℕ} {bs : List β}, Tiles start size a bs b →
    a + (bs.map size).sum = b
  | _, [], h => by
    simp only [List.map_nil, List.sum_nil, Nat.add_zero]
    exact h
  | _, y :: ys, h => by
    have := h.2.add_sum_size
    simp only [List.map_cons, List.sum_cons]
    omega

/-- Records whose sizes are multiples of `k`, laid from a multiple of `k`,
all start at multiples of `k`, and so does the end. -/
theorem Tiles.dvd {k : ℕ} : ∀ {a : ℕ} {bs : List β}, (∀ x ∈ bs, k ∣ size x) → k ∣ a →
    Tiles start size a bs b → (∀ x ∈ bs, k ∣ start x) ∧ k ∣ b
  | _, [], _, ha, h => ⟨fun _ hx => absurd hx List.not_mem_nil, h ▸ ha⟩
  | _, y :: ys, hs, ha, h => by
    have hy : k ∣ start y := h.1 ▸ ha
    obtain ⟨hys, hb⟩ := h.2.dvd (fun x hx => hs x (List.mem_cons_of_mem y hx))
      (h.1 ▸ dvd_add hy (hs y List.mem_cons_self))
    refine ⟨fun x hx => ?_, hb⟩
    rcases List.mem_cons.mp hx with rfl | hx
    · exact hy
    · exact hys x hx

theorem Tiles.pairwise_apart (h : Tiles start size a bs b) {cs : List β} (hperm : bs.Perm cs) :
    cs.Pairwise (Apart start size) := by
  have happart : bs.Pairwise (Apart start size) := h.pairwise.imp Or.inl
  exact (List.Perm.pairwise_iff (fun {x y} hxy => Apart.symm hxy) hperm).mp happart

theorem nodup_of_pairwise_apart {cs : List β} (hpos : ∀ x ∈ cs, 0 < size x)
    (h : cs.Pairwise (Apart start size)) : cs.Nodup := by
  refine h.imp_of_mem fun {x y} hx _ hxy heq => ?_
  subst heq
  have := hpos x hx
  rcases hxy with hxy | hxy <;> omega

end Tiling
