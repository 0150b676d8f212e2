import Mathlib

/-!
# Layered stores

A store with nested transactions is a stack of layers: a committed base and
one layer per open transaction, each a partial map, the innermost first. A
write goes to the top layer (to the base when no transaction is open),
starting a transaction pushes an empty layer, rolling it back drops the top
layer, and committing it merges the top layer into the one below.

The entries of a key from the top down are its `versions`; it reads the first
of them. A write changes the top entry of its key only (`versions_write_self`),
a start and a commit keep what every key reads (`read_start`, `read_commit`),
and a rollback right after a start gives the store back (`rollback_start`).
-/

/-- A store with nested transactions: the committed entries and one layer of
entries per open transaction, the innermost first. -/
structure Layered (κ α : Type*) where
  base : κ → Option α
  layers : List (κ → Option α)

namespace Layered

variable {κ α : Type*}

def fresh (depth : ℕ) : Layered κ α := ⟨fun _ => none, List.replicate depth fun _ => none⟩

def versions (s : Layered κ α) (k : κ) : List α := s.layers.filterMap (· k) ++ (s.base k).toList

def read (s : Layered κ α) (k : κ) : Option α := (s.versions k).head?

def top (s : Layered κ α) (k : κ) : Option α :=
  match s.layers with
  | [] => s.base k
  | layer :: _ => layer k

def below (s : Layered κ α) (k : κ) : List α :=
  match s.layers with
  | [] => []
  | _ :: rest => rest.filterMap (· k) ++ (s.base k).toList

/-- The entry of `k` in the layer below the top one, in the base below the last. -/
def next (s : Layered κ α) (k : κ) : Option α :=
  match s.layers with
  | [] => none
  | [_] => s.base k
  | _ :: lower :: _ => lower k

def write [DecidableEq κ] (s : Layered κ α) (k : κ) (f : Option α → α) : Layered κ α :=
  match s.layers with
  | [] => { s with base := Function.update s.base k (some (f (s.base k))) }
  | layer :: rest => { s with layers := Function.update layer k (some (f (layer k))) :: rest }

def writeWhere (s : Layered κ α) (p : κ → Bool) (f : Option α → α) : Layered κ α :=
  match s.layers with
  | [] => { s with base := fun k => if p k then some (f (s.base k)) else s.base k }
  | layer :: rest => { s with layers := (fun k => if p k then some (f (layer k)) else layer k) :: rest }

def start (s : Layered κ α) : Layered κ α := { s with layers := (fun _ => none) :: s.layers }

def rollback (s : Layered κ α) : Option (Layered κ α) :=
  match s.layers with
  | [] => none
  | _ :: rest => some { s with layers := rest }

/-- The entries of `upper` merged into those of `lower`, `merge l u` where both
have one. -/
def mergeInto (merge : α → α → α) (upper lower : κ → Option α) : κ → Option α := fun k =>
  match upper k, lower k with
  | some u, some l => some (merge l u)
  | some u, none => some u
  | none, l => l

/-- Close the innermost transaction, its entries merged into the layer below. -/
def commit (merge : α → α → α) (s : Layered κ α) : Option (Layered κ α) :=
  match s.layers with
  | [] => none
  | [layer] => some ⟨mergeInto merge layer s.base, []⟩
  | layer :: lower :: rest => some { s with layers := mergeInto merge layer lower :: rest }

/-! ## Versions -/

variable {s s' : Layered κ α} {k k' : κ}

theorem versions_eq (s : Layered κ α) (k : κ) : s.versions k = (s.top k).toList ++ s.below k := by
  unfold versions top below
  cases s.layers with
  | nil => simp
  | cons layer rest =>
    cases h : layer k <;> simp [h]

theorem below_of_next {l : α} (h : s.next k = some l) : s.below k = l :: (s.below k).tail := by
  unfold next at h
  unfold below
  match hl : s.layers, h with
  | [_], h => simp [h]
  | _ :: lower :: rest, h => simp [h]

theorem versions_of_top_eq_none (h : s.top k = none) : s.versions k = s.below k := by
  rw [versions_eq, h]
  rfl

theorem read_eq_top_of_isSome (h : (s.top k).isSome) : s.read k = s.top k := by
  obtain ⟨a, ha⟩ := Option.isSome_iff_exists.mp h
  rw [read, versions_eq, ha]
  rfl

theorem writeWhere_false (s : Layered κ α) (f : Option α → α) : s.writeWhere (fun _ => false) f = s := by
  cases s with
  | mk base layers =>
    cases layers <;> rfl

theorem versions_writeWhere (p : κ → Bool) (f : Option α → α) (k : κ) :
    (s.writeWhere p f).versions k = if p k then f (s.top k) :: s.below k else s.versions k := by
  unfold writeWhere versions top below
  cases s.layers with
  | nil => by_cases hk : p k <;> simp [hk]
  | cons layer rest =>
    by_cases hk : p k
    · simp [hk]
    · simp [hk, List.filterMap_cons]

theorem writeWhere_congr {p q : κ → Bool} (f : Option α → α) (h : ∀ k, p k = q k) :
    s.writeWhere p f = s.writeWhere q f := by
  rw [funext h]

section Write

variable [DecidableEq κ]

@[simp] theorem versions_write_self (s : Layered κ α) (k : κ) (f : Option α → α) :
    (s.write k f).versions k = f (s.top k) :: s.below k := by
  unfold write versions top below
  cases s.layers with
  | nil => simp
  | cons layer rest => simp

theorem versions_write_of_ne (f : Option α → α) (h : k' ≠ k) : (s.write k f).versions k' = s.versions k' := by
  unfold write versions
  cases s.layers with
  | nil => simp [Function.update_of_ne h]
  | cons layer rest => simp [List.filterMap_cons, Function.update_of_ne h]

@[simp] theorem length_layers_write (s : Layered κ α) (k : κ) (f : Option α → α) :
    (s.write k f).layers.length = s.layers.length := by
  unfold write
  cases s.layers <;> rfl

theorem write_of_cons {layer : κ → Option α} {rest : List (κ → Option α)} (f : Option α → α)
    (h : s.layers = layer :: rest) :
    s.write k f = { s with layers := Function.update layer k (some (f (layer k))) :: rest } := by
  unfold write
  rw [h]

theorem write_writeWhere {p : κ → Bool} (f : Option α → α) (h : p k = false) :
    (s.writeWhere p f).write k f = s.writeWhere (fun k' => decide (k' = k) || p k') f := by
  unfold writeWhere write
  cases s.layers with
  | nil =>
    simp only
    congr 1
    funext k'
    by_cases hk : k' = k
    · subst hk
      simp [h]
    · simp [hk]
  | cons layer rest =>
    simp only
    congr 2
    funext k'
    by_cases hk : k' = k
    · subst hk
      simp [h]
    · simp [hk]

end Write

@[simp] theorem versions_start (s : Layered κ α) (k : κ) : s.start.versions k = s.versions k := by
  simp [start, versions]

theorem read_start (s : Layered κ α) (k : κ) : s.start.read k = s.read k := by
  rw [read, read, versions_start]

theorem versions_of_rollback (h : s.rollback = some s') (k : κ) : s'.versions k = s.below k := by
  unfold rollback at h
  unfold below
  cases hl : s.layers with
  | nil => simp [hl] at h
  | cons layer rest =>
    simp only [hl, Option.some.injEq] at h
    subst h
    rfl

theorem rollback_eq_none_iff : s.rollback = none ↔ s.layers = [] := by
  unfold rollback
  cases s.layers <;> simp

theorem layers_of_rollback (h : s.rollback = some s') : s'.layers = s.layers.tail := by
  unfold rollback at h
  cases hl : s.layers with
  | nil => simp [hl] at h
  | cons layer rest =>
    simp only [hl, Option.some.injEq] at h
    subst h
    rfl

variable {merge : α → α → α}

theorem commit_eq_none_iff : s.commit merge = none ↔ s.layers = [] := by
  unfold commit
  match s.layers with
  | [] => simp
  | [_] => simp
  | _ :: _ :: _ => simp

theorem length_layers_of_commit (h : s.commit merge = some s') : s'.layers.length = s.layers.length - 1 := by
  unfold commit at h
  match hl : s.layers, h with
  | [_], h =>
    simp only [Option.some.injEq] at h
    subst h
    rfl
  | _ :: _ :: rest, h =>
    simp only [Option.some.injEq] at h
    subst h
    simp

/-- A commit merges the top entry of a key into the one below, if there is one
in the layer below, and otherwise moves it down a layer. -/
theorem versions_of_commit (h : s.commit merge = some s') (k : κ) :
    s'.versions k =
      match s.top k, s.next k with
      | some u, some l => merge l u :: (s.below k).tail
      | _, _ => s.versions k := by
  unfold commit at h
  unfold versions top next below
  match hl : s.layers, h with
  | [layer], h =>
    simp only [Option.some.injEq] at h
    subst h
    cases hu : layer k <;> cases hb : s.base k <;> simp [mergeInto, hu, hb]
  | layer :: lower :: rest, h =>
    simp only [Option.some.injEq] at h
    subst h
    cases hu : layer k <;> cases hb : lower k <;> simp [mergeInto, hu, hb]

/-- What a key reads, seen through `proj`, survives a commit when merging
keeps the upper entry's `proj`. -/
theorem read_commit {β : Type*} (proj : α → β) (hmerge : ∀ l u, proj (merge l u) = proj u)
    (h : s.commit merge = some s') (k : κ) : (s'.read k).map proj = (s.read k).map proj := by
  rw [read, read, versions_of_commit h]
  split
  · next u l hu _ =>
    rw [versions_eq, hu]
    simp [hmerge]
  · rfl

theorem rollback_start (s : Layered κ α) : s.start.rollback = some s := by
  rfl

end Layered
