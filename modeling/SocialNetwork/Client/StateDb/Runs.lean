import Mathlib
import SocialNetwork.Client.StateDb.Sync

/-!
# The client's calls on the state database

`sc-client-db` calls the state database as blocks are imported, finalized
and reverted, and writes every `CommitSet` it gets back to its own database
before the next call (`apply_state_commit`). A `Command` is one such call;
`apply` runs it on the state database and the client's database together,
the commit it returns written. Calls that return nothing to write leave the
database alone.

The runs of the client are `Dispatch.Reachable` over these commands, from a
new state database over an empty database.
-/

namespace SocialNetwork.StateDb

open Dispatch

/-- The calls the client makes on the state database. -/
inductive Command (H K V : Type) where
  | insertBlock (hash : H) (number : ℕ) (parentHash : H) (changeset : ChangeSet K V)
  | canonicalizeBlock (hash : H)
  | revertOne
  | pin (hash : H)
  | unpin (hash : H)
  | applyPending
  | revertPending

variable {H K V : Type} [DecidableEq K]

def committing {ε σ : Type} (m : Call ε σ (CommitSet H K V)) : Call ε (σ × Db H K V) Unit := do
  let commit ← zoom Prod.fst (fun p s => (s, p.2)) m
  modify fun p => (p.1, p.2.commit commit)

def inMemory {ε σ α : Type} (m : Call ε σ α) : Call ε (σ × Db H K V) α :=
  zoom Prod.fst (fun p s => (s, p.2)) m

variable [DecidableEq H]

/-- A call of the client on the overlay alone. -/
def NonCanonicalOverlay.apply :
    Command H K V → Call Error (NonCanonicalOverlay H K V × Db H K V) Unit
  | .insertBlock hash number parentHash changeset =>
      committing (NonCanonicalOverlay.insert hash number parentHash changeset)
  | .canonicalizeBlock hash => committing (NonCanonicalOverlay.canonicalize hash .empty)
  | .revertOne => committing (do pure ((← NonCanonicalOverlay.revertOne).getD .empty))
  | .pin hash => inMemory (modify (·.pin hash))
  | .unpin hash => inMemory (modify (·.unpin hash))
  | .applyPending => inMemory NonCanonicalOverlay.applyPending
  | .revertPending => inMemory NonCanonicalOverlay.revertPending

/-- A call of the client on the state database, its errors and the pin
errors told apart. -/
def StateDbSync.apply :
    Command H K V → Call (Error ⊕ PinError) (StateDbSync H K V × Db H K V) Unit
  | .insertBlock hash number parentHash changeset =>
      mapError .inl (committing (StateDbSync.insertBlock hash number parentHash changeset))
  | .canonicalizeBlock hash => mapError .inl (committing (StateDbSync.canonicalizeBlock hash))
  | .revertOne => mapError .inl (committing (do pure ((← StateDbSync.revertOne).getD .empty)))
  | .pin hash => mapError .inr (inMemory (StateDbSync.pin hash))
  | .unpin hash => inMemory (modify (·.unpin hash))
  | .applyPending => mapError .inl (inMemory StateDbSync.applyPending)
  | .revertPending => mapError .inl (inMemory StateDbSync.revertPending)

/-- A run of the client on a new overlay over an empty database that ends
where `p` holds shows a reachable state where `p` holds. -/
theorem NonCanonicalOverlay.exists_of_execute {p : NonCanonicalOverlay H K V × Db H K V → Prop}
    [DecidablePred p] (cs : List (Command H K V))
    (h : (execute NonCanonicalOverlay.apply cs (.empty, .empty)).map (fun s => decide (p s)) = some true) :
    ∃ s, Reachable NonCanonicalOverlay.apply (· = (.empty, .empty)) s ∧ p s :=
  Reachable.exists_of_execute rfl h

end SocialNetwork.StateDb
