import SocialNetwork.Primitives.StateMachine.Refinement
import SocialNetwork.Lib.Simulation

/-!
# Transactions over whole runs

The calls a block makes on an overlay (`Command`), and what they are for: a
`TransactionStack`, a layered store of versions with the depth at which the
runtime was entered and the mode. The stack's calls say in a line each what
the overlay's do in a loop: a write goes to the top layer, a start pushes an
empty layer, a rollback drops the top layer and a commit merges it into the
one below, each refused with `NoOpenTransaction` when no layer is open or
when the runtime would close one the client opened; `exit_runtime` drops
the layers the runtime opened.

The overlay simulates the stack (`simulates`): from related states every
call ends the same way on both sides, with the same error, and never
panics. Over a whole run from the empty overlay, then, none of the
`expect`s of `close_transaction` and `exit_runtime` fails, and every key
holds the value the stack reads (`overlay_refines_transactionStack`).
-/

namespace SocialNetwork.StateMachine

open Dispatch

variable {K V : Type}

/-- The calls a block makes on an overlay. -/
inductive Command (K V : Type) where
  | set (key : K) (value : V) (atExtrinsic : Option ℕ)
  | startTransaction
  | rollbackTransaction
  | commitTransaction
  | enterRuntime
  | exitRuntime

def Command.keepsMode : Command K V → Bool
  | .enterRuntime | .exitRuntime => false
  | _ => true

/-- The number of transactions open above those a run started from, after the
calls `cs` with `height` of them open; `none` where a call would close one of
those below. -/
def heightAfter : ℕ → List (Command K V) → Option ℕ
  | height, [] => some height
  | height, c :: cs =>
    match c with
    | .startTransaction => heightAfter (height + 1) cs
    | .rollbackTransaction | .commitTransaction => if height = 0 then none else heightAfter (height - 1) cs
    | _ => heightAfter height cs

/-- The overlay's entry points. -/
def OverlayedMap.apply [LinearOrder K] : Command K V → MapCall K V Unit
  | .set key value atExtrinsic => modify fun self => self.set key value atExtrinsic
  | .startTransaction => modify OverlayedMap.startTransaction
  | .rollbackTransaction => OverlayedMap.rollbackTransaction
  | .commitTransaction => OverlayedMap.commitTransaction
  | .enterRuntime => OverlayedMap.enterRuntime
  | .exitRuntime => OverlayedMap.exitRuntime

/-! ## The stack of transactions -/

/-- What an overlay is for: a layered store of versions, the number of
transactions the client had open when it last entered the runtime, and the
mode. -/
structure TransactionStack (K V : Type) where
  store : Layered K (InnerValue V)
  numClientTransactions : ℕ
  executionMode : ExecutionMode

namespace TransactionStack

/-- No layer, in the client. -/
def empty : TransactionStack K V := ⟨Layered.fresh 0, 0, .client⟩

def depth (σ : TransactionStack K V) : ℕ := σ.store.layers.length

/-- Close the innermost transaction with `closeStore`, unless the runtime
would close one the client opened. -/
def close (closeStore : Layered K (InnerValue V) → Option (Layered K (InnerValue V))) :
    Call Error (TransactionStack K V) Unit := do
  let σ ← get
  if σ.executionMode = .runtime ∧ σ.depth ≤ σ.numClientTransactions then fail .noOpenTransaction
  else
    match closeStore σ.store with
    | none => fail .noOpenTransaction
    | some store => set { σ with store }

/-- The stack's calls. -/
def apply [DecidableEq K] : Command K V → Call Error (TransactionStack K V) Unit
  | .set key value atExtrinsic => modify fun σ => { σ with store := σ.store.write key (stamp value atExtrinsic) }
  | .startTransaction => modify fun σ => { σ with store := σ.store.start }
  | .rollbackTransaction => close Layered.rollback
  | .commitTransaction => close (Layered.commit mergeVersions)
  | .enterRuntime => do
    let σ ← get
    if σ.executionMode = .runtime then fail .alreadyInRuntime
    else set { σ with executionMode := .runtime, numClientTransactions := σ.depth }
  | .exitRuntime => do
    let σ ← get
    if σ.executionMode = .client then fail .notInRuntime
    else
      -- the layers of the transactions the runtime opened are dropped
      set { σ with
        store := { σ.store with layers := σ.store.layers.drop (σ.depth - σ.numClientTransactions) },
        executionMode := .client }

theorem neverPanics_apply [DecidableEq K] (c : Command K V) : NeverPanics (apply c) := by
  intro σ σ' h
  cases c with
  | set | startTransaction => simp [apply] at h
  | rollbackTransaction | commitTransaction =>
    simp only [apply, close, run_get_bind] at h
    split_ifs at h
    · simp at h
    · split at h <;> simp at h
  | enterRuntime | exitRuntime =>
    simp only [apply, run_get_bind] at h
    split_ifs at h <;> simp at h

/-! ### What every run of the stack keeps -/

variable {σ : TransactionStack K V}

theorem run_close_of_some {closeStore : Layered K (InnerValue V) → Option (Layered K (InnerValue V))}
    {store : Layered K (InnerValue V)} (hg : ¬ (σ.executionMode = .runtime ∧ σ.depth ≤ σ.numClientTransactions))
    (hc : closeStore σ.store = some store) : (close closeStore).run σ = .ok () { σ with store } := by
  simp [close, hg, hc]

/-- What a close keeps: `P` of the stack it leaves where it fails, and of the
stack with one layer less where the guard lets it through. -/
theorem wp_close {closeStore : Layered K (InnerValue V) → Option (Layered K (InnerValue V))}
    (hclose : ∀ s s', closeStore s = some s' → s'.layers.length + 1 = s.layers.length)
    {P : TransactionStack K V → Prop} (herr : P σ)
    (hok : ∀ store : Layered K (InnerValue V), ¬ (σ.executionMode = .runtime ∧ σ.depth ≤ σ.numClientTransactions) →
      store.layers.length + 1 = σ.depth → P { σ with store }) :
    Wp (close closeStore) (fun _ => P) (fun _ => P) σ := by
  simp only [close, wp_bind, wp_get]
  by_cases hg : σ.executionMode = .runtime ∧ σ.depth ≤ σ.numClientTransactions
  · rw [wp_ite, if_pos hg]
    exact herr
  · rw [wp_ite, if_neg hg]
    cases hc : closeStore σ.store with
    | none => exact herr
    | some store => exact hok store hg (hclose _ _ hc)

theorem length_layers_of_rollback {s s' : Layered K (InnerValue V)} (h : s.rollback = some s') :
    s'.layers.length + 1 = s.layers.length := by
  have hne : s.layers ≠ [] := fun hl => by simp [Layered.rollback_eq_none_iff.mpr hl] at h
  rw [Layered.layers_of_rollback h, List.length_tail]
  have := List.length_pos_iff.mpr hne
  omega

theorem length_layers_of_commit {s s' : Layered K (InnerValue V)} (h : s.commit mergeVersions = some s') :
    s'.layers.length + 1 = s.layers.length := by
  have hne : s.layers ≠ [] := fun hl => by simp [Layered.commit_eq_none_iff.mpr hl] at h
  rw [Layered.length_layers_of_commit h]
  have := List.length_pos_iff.mpr hne
  omega

def ClientOpen (σ : TransactionStack K V) : Prop :=
  σ.executionMode = .runtime → σ.numClientTransactions ≤ σ.depth

theorem clientOpen_empty : (empty : TransactionStack K V).ClientOpen := fun h => by cases h

variable [DecidableEq K]

theorem run_set (k : K) (value : V) (atExtrinsic : Option ℕ) :
    (apply (.set k value atExtrinsic)).run σ = .ok () { σ with store := σ.store.write k (stamp value atExtrinsic) } :=
  rfl

theorem run_startTransaction : (apply (.startTransaction : Command K V)).run σ = .ok () { σ with store := σ.store.start } :=
  rfl

theorem preserves_clientOpen (c : Command K V) : Preserves ClientOpen (apply c) := by
  refine preserves_of_wp fun σ hσ => ?_
  cases c with
  | set k value atExtrinsic => simpa [apply, ClientOpen, depth] using hσ
  | startTransaction =>
    simp only [ClientOpen, depth] at hσ
    simp only [apply, wp_modify, ClientOpen, depth, Layered.start, List.length_cons]
    intro hrt
    have := hσ hrt
    omega
  | rollbackTransaction | commitTransaction =>
    refine wp_close (fun _ _ h => ?_) hσ fun store hg hlen hrt => ?_
    · first
        | exact length_layers_of_rollback h
        | exact length_layers_of_commit h
    · -- the guard let the runtime through: it had a transaction of its own
      have hlt : σ.numClientTransactions < σ.depth := by
        have := hσ hrt
        simp only [not_and, not_le] at hg
        exact hg hrt
      show σ.numClientTransactions ≤ store.layers.length
      omega
  | enterRuntime =>
    simp only [apply, wp_bind, wp_get]
    split_ifs
    · exact hσ
    · intro _
      exact le_refl _
  | exitRuntime =>
    simp only [apply, wp_bind, wp_get]
    split_ifs
    · exact hσ
    · intro hrt
      cases hrt

/-- Inside the runtime, entered at depth `n`: the runtime's calls keep the
mode, the count and the client's transactions open. -/
def InRuntime (n : ℕ) (σ : TransactionStack K V) : Prop :=
  σ.executionMode = .runtime ∧ σ.numClientTransactions = n ∧ n ≤ σ.depth

theorem preserves_inRuntime (n : ℕ) {c : Command K V} (hc : c.keepsMode = true) :
    Preserves (InRuntime n) (apply c) := by
  refine preserves_of_wp fun σ hσ => ?_
  obtain ⟨hrt, hn, hle⟩ := hσ
  cases c with
  | set k value atExtrinsic => simpa [apply, InRuntime, depth, hrt, hn] using hle
  | startTransaction =>
    simp only [apply, wp_modify, InRuntime, depth, Layered.start, List.length_cons]
    exact ⟨hrt, hn, by simp only [depth] at hle; omega⟩
  | rollbackTransaction | commitTransaction =>
    refine wp_close (fun _ _ h => ?_) ⟨hrt, hn, hle⟩ fun store hg hlen => ?_
    · first
        | exact length_layers_of_rollback h
        | exact length_layers_of_commit h
    · -- the guard let the runtime through: it had a transaction of its own
      have hlt : n < σ.depth := by
        simp only [not_and, not_le, hn] at hg
        exact hg hrt
      exact ⟨hrt, hn, by show n ≤ store.layers.length; omega⟩
  | enterRuntime | exitRuntime => cases hc

/-- The stack from `above ++ below`, the client's calls never closing a layer
of `below`: they leave `below` and the committed entries alone. The induction
is on the calls. -/
theorem execute_above : ∀ (cs : List (Command K V)) (σ : TransactionStack K V)
    (above below : List (K → Option (InnerValue V))) (height height' : ℕ),
    σ.store.layers = above ++ below → above.length = height + 1 → σ.executionMode = .client →
    (∀ c ∈ cs, c.keepsMode = true) → heightAfter height cs = some height' →
    ∃ σ' above', execute apply cs σ = some σ' ∧ σ'.store.layers = above' ++ below ∧
      above'.length = height' + 1 ∧ σ'.store.base = σ.store.base ∧
      σ'.numClientTransactions = σ.numClientTransactions ∧ σ'.executionMode = .client
  | [], σ, above, below, height, height', hl, hlen, hmode, _, hh => by
    simp only [heightAfter, Option.some.injEq] at hh
    exact ⟨σ, above, rfl, hl, hh ▸ hlen, rfl, rfl, hmode⟩
  | c :: cs, σ, above, below, height, height', hl, hlen, hmode, hcs, hh => by
    have hrest : ∀ c' ∈ cs, c'.keepsMode = true := fun c' hc' => hcs c' (List.mem_cons_of_mem _ hc')
    have hg : ¬ (σ.executionMode = .runtime ∧ σ.depth ≤ σ.numClientTransactions) := by simp [hmode]
    obtain ⟨a, as, rfl⟩ : ∃ a as, above = a :: as := List.exists_cons_of_length_eq_add_one hlen
    cases c with
    | set k value atExtrinsic =>
      -- the write goes to the top layer
      obtain ⟨σ', above', hrun, hl', hlen', hbase, hclient, hmode'⟩ :=
        execute_above cs { σ with store := σ.store.write k (stamp value atExtrinsic) }
          (Function.update a k (some (stamp value atExtrinsic (a k))) :: as) below height height'
          (by simp [Layered.write_of_cons _ hl]) (by simpa using hlen) hmode hrest hh
      refine ⟨σ', above', ?_, hl', hlen', ?_, hclient, hmode'⟩
      · rw [execute_cons_of_ok (run_set k value atExtrinsic)]
        exact hrun
      · rw [hbase, Layered.write_of_cons _ hl]
    | startTransaction =>
      obtain ⟨σ', above', hrun, hl', hlen', hbase, hclient, hmode'⟩ :=
        execute_above cs { σ with store := σ.store.start } ((fun _ => none) :: a :: as) below (height + 1) height'
          (by simp [Layered.start, hl]) (by simpa using hlen) hmode hrest hh
      exact ⟨σ', above', by rw [execute_cons_of_ok run_startTransaction]; exact hrun, hl', hlen', hbase, hclient,
        hmode'⟩
    | rollbackTransaction =>
      obtain ⟨height₀, rfl⟩ : ∃ height₀, height = height₀ + 1 := by
        cases height with
        | zero => simp [heightAfter] at hh
        | succ height₀ => exact ⟨height₀, rfl⟩
      have hstore : σ.store.rollback = some { σ.store with layers := as ++ below } := by
        simp [Layered.rollback, hl]
      obtain ⟨σ', above', hrun, hl', hlen', hbase, hclient, hmode'⟩ :=
        execute_above cs { σ with store := { σ.store with layers := as ++ below } } as below height₀ height' rfl
          (by simpa using hlen) hmode hrest (by simpa [heightAfter] using hh)
      have hclose : (apply (.rollbackTransaction : Command K V)).run σ = .ok () _ := run_close_of_some hg hstore
      exact ⟨σ', above', by rw [execute_cons_of_ok hclose]; exact hrun, hl', hlen', hbase, hclient, hmode'⟩
    | commitTransaction =>
      obtain ⟨height₀, rfl⟩ : ∃ height₀, height = height₀ + 1 := by
        cases height with
        | zero => simp [heightAfter] at hh
        | succ height₀ => exact ⟨height₀, rfl⟩
      obtain ⟨b, bs, rfl⟩ : ∃ b bs, as = b :: bs := List.exists_cons_of_length_eq_add_one (by simpa using hlen)
      have hstore : σ.store.commit mergeVersions =
          some { σ.store with layers := Layered.mergeInto mergeVersions a b :: (bs ++ below) } := by
        simp [Layered.commit, hl]
      obtain ⟨σ', above', hrun, hl', hlen', hbase, hclient, hmode'⟩ :=
        execute_above cs
          { σ with store := { σ.store with layers := Layered.mergeInto mergeVersions a b :: (bs ++ below) } }
          (Layered.mergeInto mergeVersions a b :: bs) below height₀ height' rfl
          (by simpa using hlen) hmode hrest (by simpa [heightAfter] using hh)
      have hclose : (apply (.commitTransaction : Command K V)).run σ = .ok () _ := run_close_of_some hg hstore
      exact ⟨σ', above', by rw [execute_cons_of_ok hclose]; exact hrun, hl', hlen', hbase, hclient, hmode'⟩
    | enterRuntime | exitRuntime => cases hcs _ List.mem_cons_self

end TransactionStack

/-! ## The overlay holds a stack -/

variable [LinearOrder K]

/-- The overlay `m` holds the stack `σ`: its map refines the store, with the
same count of client transactions and the same mode. -/
structure Holds (m : OverlayedMap K V) (σ : TransactionStack K V) : Prop where
  refines : Refines m σ.store
  numClientTransactions : m.numClientTransactions = σ.numClientTransactions
  executionMode : m.executionMode = σ.executionMode

namespace Holds

variable {m : OverlayedMap K V} {σ : TransactionStack K V}

theorem empty : Holds (OverlayedMap.empty : OverlayedMap K V) TransactionStack.empty :=
  ⟨Refines.empty, rfl, rfl⟩

theorem depth_eq (h : Holds m σ) : m.transactionDepth = σ.depth := h.refines.depth_eq

theorem guard_iff (h : Holds m σ) :
    (m.executionMode = .runtime ∧ m.hasOpenRuntimeTransactions = false) ↔
      (σ.executionMode = .runtime ∧ σ.depth ≤ σ.numClientTransactions) := by
  rw [← h.executionMode, ← h.numClientTransactions, ← h.depth_eq]
  simp [OverlayedMap.hasOpenRuntimeTransactions]

theorem valueRef_get (h : Holds m σ) (k : K) :
    (m.get k).bind OverlayedEntry.valueRef = (σ.store.read k).map (·.value) :=
  h.refines.valueRef_get k

end Holds

/-! ## One call -/

section Step

variable {m : OverlayedMap K V} {σ : TransactionStack K V}

/-- `close_transaction` ends as the stack's close does, given what closing
does to a store with a layer (`hsome`) and when it cannot (`hnone`). -/
theorem Holds.closeTransaction {rollback : Bool}
    {closeStore : Layered K (InnerValue V) → Option (Layered K (InnerValue V))} (h : Holds m σ)
    (hnone : ∀ s, closeStore s = none ↔ s.layers = [])
    (hsome : ∀ {m : OverlayedMap K V} {s s'}, Refines m s →
      ¬ (m.executionMode = .runtime ∧ m.hasOpenRuntimeTransactions = false) → closeStore s = some s' →
      ∃ m', (OverlayedMap.closeTransaction rollback).run m = .ok () m' ∧ Refines m' s' ∧
        m'.numClientTransactions = m.numClientTransactions ∧ m'.executionMode = m.executionMode) :
    ResultRel Holds ((OverlayedMap.closeTransaction rollback).run m) ((TransactionStack.close closeStore).run σ) := by
  by_cases hg : m.executionMode = .runtime ∧ m.hasOpenRuntimeTransactions = false
  · -- the runtime may not close a transaction the client opened
    rw [OverlayedMap.run_closeTransaction_of_guard rollback hg]
    simp [TransactionStack.close, h.guard_iff.mp hg, ResultRel, h]
  · have hg' := h.guard_iff.not.mp hg
    cases hc : closeStore σ.store with
    | none =>
      -- no transaction open
      have hd : m.dirtyKeys = [] := by
        have hdirty := h.refines.dirty
        rwa [(hnone _).mp hc, List.forall₂_nil_right_iff] at hdirty
      rw [OverlayedMap.run_closeTransaction_of_nil rollback hd]
      simp [TransactionStack.close, hg', hc, ResultRel, h]
    | some s' =>
      obtain ⟨m', hrun, h', hclient, hmode⟩ := hsome h.refines hg hc
      rw [hrun]
      simp only [TransactionStack.close, run_get_bind, hg', if_false, hc]
      exact ⟨rfl, h', hclient.trans h.numClientTransactions, hmode.trans h.executionMode⟩

theorem Holds.enterRuntime (h : Holds m σ) :
    ResultRel Holds (OverlayedMap.enterRuntime.run m) ((TransactionStack.apply (.enterRuntime : Command K V)).run σ) := by
  cases hmode : σ.executionMode with
  | runtime =>
    simp [OverlayedMap.enterRuntime, TransactionStack.apply, h.executionMode, hmode, ResultRel, h]
  | client =>
    simp only [OverlayedMap.enterRuntime, TransactionStack.apply, run_get_bind, h.executionMode, hmode,
      reduceCtorEq, if_false]
    exact ⟨rfl, ⟨h.refines.changes, h.refines.dirty⟩, h.depth_eq, rfl⟩

theorem Holds.exitRuntime (h : Holds m σ) :
    ResultRel Holds (OverlayedMap.exitRuntime.run m) ((TransactionStack.apply (.exitRuntime : Command K V)).run σ) := by
  cases hmode : σ.executionMode with
  | client =>
    simp [OverlayedMap.exitRuntime, TransactionStack.apply, h.executionMode, hmode, ResultRel, h]
  | runtime =>
    obtain ⟨m', hrun, h', hclient, hmode'⟩ := h.refines.exitRuntime (h.executionMode.trans hmode)
    rw [hrun]
    simp only [TransactionStack.apply, run_get_bind, hmode, reduceCtorEq, if_false]
    refine ⟨rfl, ?_, hclient.trans h.numClientTransactions, hmode'⟩
    rw [h.depth_eq, h.numClientTransactions] at h'
    exact h'

/-- **One call.** From an overlay holding a stack, each call of the overlay
ends as the stack's: it returns `Ok` when the stack's does, the same error
when the stack's fails, never panics, and leaves an overlay holding the
stack left. -/
theorem simulates : Simulates Holds (OverlayedMap.apply (K := K) (V := V)) TransactionStack.apply := by
  intro c m σ h
  cases c with
  | set k value atExtrinsic =>
    exact ⟨rfl, h.refines.set k value atExtrinsic, h.numClientTransactions, h.executionMode⟩
  | startTransaction =>
    exact ⟨rfl, h.refines.startTransaction, h.numClientTransactions, h.executionMode⟩
  | rollbackTransaction =>
    exact h.closeTransaction (fun _ => Layered.rollback_eq_none_iff) fun h hg hs => h.rollbackTransaction hg hs
  | commitTransaction =>
    exact h.closeTransaction (fun _ => Layered.commit_eq_none_iff) fun h hg hs => h.commitTransaction hg hs
  | enterRuntime => exact h.enterRuntime
  | exitRuntime => exact h.exitRuntime

end Step

/-! ## Whole runs -/

section Runs

/-- **The overlay refines the stack of transactions.** Every sequence of
calls from the empty overlay runs without a panic (none of the `expect`s of
`close_transaction` and `exit_runtime` fails), so does the stack's, and the
overlay left holds the stack left: each key has the versions the stack has,
and the value the stack reads. -/
theorem overlay_refines_transactionStack (cs : List (Command K V)) :
    ∃ m σ, execute OverlayedMap.apply cs OverlayedMap.empty = some m ∧
      execute TransactionStack.apply cs TransactionStack.empty = some σ ∧ Holds m σ ∧
      ∀ k, (m.get k).bind OverlayedEntry.valueRef = (σ.store.read k).map (·.value) := by
  obtain ⟨m, σ, hm, hσ, h⟩ := simulates.execute_eq_some TransactionStack.neverPanics_apply cs Holds.empty
  exact ⟨m, σ, hm, hσ, h, h.valueRef_get⟩

theorem Holds.of_reachable {m : OverlayedMap K V} (hm : Reachable OverlayedMap.apply (· = OverlayedMap.empty) m) :
    ∃ σ, Reachable TransactionStack.apply (· = TransactionStack.empty) σ ∧ Holds m σ := by
  refine simulates.reachable ?_ hm
  intro s hs
  exact ⟨_, rfl, hs ▸ Holds.empty⟩

variable {m : OverlayedMap K V}

/-- **Closing a transaction, in every reachable overlay.** In the runtime
the client's transactions stay open: the depth never drops below the one
at `enter_runtime`. `commit_transaction` and `rollback_transaction` return
`NoOpenTransaction` and change nothing exactly when no transaction is open
or, in the runtime, the depth is the one at `enter_runtime`; otherwise they
return `Ok` with one transaction less. -/
theorem closeTransaction_of_reachable (hm : Reachable OverlayedMap.apply (· = OverlayedMap.empty) m)
    (rollback : Bool) :
    (m.executionMode = .runtime → m.numClientTransactions ≤ m.transactionDepth) ∧
    (m.transactionDepth = 0 ∨ m.executionMode = .runtime ∧ m.transactionDepth = m.numClientTransactions →
      (OverlayedMap.closeTransaction rollback).run m = .error (.error .noOpenTransaction) m) ∧
    (¬ (m.transactionDepth = 0 ∨ m.executionMode = .runtime ∧ m.transactionDepth = m.numClientTransactions) →
      ∃ m', (OverlayedMap.closeTransaction rollback).run m = .ok () m' ∧
        m'.transactionDepth + 1 = m.transactionDepth) := by
  obtain ⟨σ, hσ, h⟩ := Holds.of_reachable hm
  have hopen : m.executionMode = .runtime → m.numClientTransactions ≤ m.transactionDepth := by
    rw [h.executionMode, h.numClientTransactions, h.depth_eq]
    exact hσ.invariant (fun _ hs => hs ▸ TransactionStack.clientOpen_empty) TransactionStack.preserves_clientOpen
  refine ⟨hopen, fun hclosed => ?_, fun hclosed => ?_⟩
  · rcases hclosed with hzero | ⟨hrt, heq⟩
    · exact OverlayedMap.run_closeTransaction_of_nil rollback (List.length_eq_zero_iff.mp hzero)
    · exact OverlayedMap.run_closeTransaction_of_guard rollback
        ⟨hrt, by simp [OverlayedMap.hasOpenRuntimeTransactions, heq]⟩
  · -- a transaction is open, and in the runtime one of its own
    simp only [not_or, not_and] at hclosed
    have hg : ¬ (m.executionMode = .runtime ∧ m.hasOpenRuntimeTransactions = false) := by
      rintro ⟨hrt, hfalse⟩
      simp only [OverlayedMap.hasOpenRuntimeTransactions, decide_eq_false_iff_not, not_lt] at hfalse
      exact hclosed.2 hrt (le_antisymm (hopen hrt) hfalse).symm
    have hne : σ.store.layers ≠ [] := by
      rw [← List.length_pos_iff, ← h.refines.depth_eq]
      exact Nat.pos_of_ne_zero hclosed.1
    cases rollback with
    | true =>
      obtain ⟨s', hs'⟩ := Option.ne_none_iff_exists'.mp (Layered.rollback_eq_none_iff.not.mpr hne)
      obtain ⟨m', hrun, h', -, -⟩ := h.refines.rollbackTransaction hg hs'
      refine ⟨m', hrun, ?_⟩
      rw [h'.depth_eq, h.refines.depth_eq]
      exact TransactionStack.length_layers_of_rollback hs'
    | false =>
      obtain ⟨s', hs'⟩ := Option.ne_none_iff_exists'.mp (Layered.commit_eq_none_iff.not.mpr hne)
      obtain ⟨m', hrun, h', -, -⟩ := h.refines.commitTransaction hg hs'
      refine ⟨m', hrun, ?_⟩
      rw [h'.depth_eq, h.refines.depth_eq]
      exact TransactionStack.length_layers_of_commit hs'

theorem closeTransaction_of_reachable_open :
    Reachable OverlayedMap.apply (· = OverlayedMap.empty)
        (((OverlayedMap.empty : OverlayedMap ℕ ℕ).startTransaction).set 1 2 none) ∧
    ((((OverlayedMap.empty : OverlayedMap ℕ ℕ).startTransaction).set 1 2 none).executionMode = .runtime →
      (((OverlayedMap.empty : OverlayedMap ℕ ℕ).startTransaction).set 1 2 none).numClientTransactions ≤
        (((OverlayedMap.empty : OverlayedMap ℕ ℕ).startTransaction).set 1 2 none).transactionDepth) ∧
    ((((OverlayedMap.empty : OverlayedMap ℕ ℕ).startTransaction).set 1 2 none).transactionDepth = 0 ∨
        (((OverlayedMap.empty : OverlayedMap ℕ ℕ).startTransaction).set 1 2 none).executionMode = .runtime ∧
          (((OverlayedMap.empty : OverlayedMap ℕ ℕ).startTransaction).set 1 2 none).transactionDepth =
            (((OverlayedMap.empty : OverlayedMap ℕ ℕ).startTransaction).set 1 2 none).numClientTransactions →
      (OverlayedMap.closeTransaction true).run (((OverlayedMap.empty : OverlayedMap ℕ ℕ).startTransaction).set 1 2 none) =
        .error (.error .noOpenTransaction) (((OverlayedMap.empty : OverlayedMap ℕ ℕ).startTransaction).set 1 2 none)) ∧
    (¬ ((((OverlayedMap.empty : OverlayedMap ℕ ℕ).startTransaction).set 1 2 none).transactionDepth = 0 ∨
        (((OverlayedMap.empty : OverlayedMap ℕ ℕ).startTransaction).set 1 2 none).executionMode = .runtime ∧
          (((OverlayedMap.empty : OverlayedMap ℕ ℕ).startTransaction).set 1 2 none).transactionDepth =
            (((OverlayedMap.empty : OverlayedMap ℕ ℕ).startTransaction).set 1 2 none).numClientTransactions) →
      ∃ m', (OverlayedMap.closeTransaction true).run
          (((OverlayedMap.empty : OverlayedMap ℕ ℕ).startTransaction).set 1 2 none) = .ok () m' ∧
        m'.transactionDepth + 1 =
          (((OverlayedMap.empty : OverlayedMap ℕ ℕ).startTransaction).set 1 2 none).transactionDepth) :=
  have hstart : Reachable OverlayedMap.apply (· = OverlayedMap.empty)
      ((OverlayedMap.empty : OverlayedMap ℕ ℕ).startTransaction) :=
    Reachable.step (.start rfl) Command.startTransaction (.inl ⟨(), rfl⟩)
  have hreach : Reachable OverlayedMap.apply (· = OverlayedMap.empty)
      (((OverlayedMap.empty : OverlayedMap ℕ ℕ).startTransaction).set 1 2 none) :=
    hstart.step (Command.set 1 2 none) (.inl ⟨(), rfl⟩)
  ⟨hreach, closeTransaction_of_reachable hreach true⟩

/-- **The runtime leaves the client's depth.** From a reachable overlay in
the client, `enter_runtime`, any calls of the runtime and `exit_runtime`
run without a panic and end in the client at the depth they started from:
the runtime cannot close a transaction the client opened, and
`exit_runtime` closes each one the runtime left open. -/
theorem runtime_restores_depth (hm : Reachable OverlayedMap.apply (· = OverlayedMap.empty) m)
    (hclient : m.executionMode = .client) (cs : List (Command K V)) (hcs : ∀ c ∈ cs, c.keepsMode = true) :
    ∃ m', execute OverlayedMap.apply (.enterRuntime :: cs ++ [.exitRuntime]) m = some m' ∧
      m'.executionMode = .client ∧ m'.transactionDepth = m.transactionDepth := by
  obtain ⟨σ, -, h⟩ := Holds.of_reachable hm
  have hmode : σ.executionMode = .client := h.executionMode ▸ hclient
  -- the stack's run: entered at its depth, which the runtime's calls keep below them
  have henter : (TransactionStack.apply (.enterRuntime : Command K V)).run σ =
      .ok () { σ with executionMode := .runtime, numClientTransactions := σ.depth } := by
    simp [TransactionStack.apply, hmode]
  obtain ⟨σ₂, hσ₂⟩ := Option.isSome_iff_exists.mp
    (execute_isSome_of_neverPanics TransactionStack.neverPanics_apply cs
      { σ with executionMode := .runtime, numClientTransactions := σ.depth })
  have hentered : TransactionStack.InRuntime σ.depth
      { σ with executionMode := .runtime, numClientTransactions := σ.depth } := ⟨rfl, rfl, le_refl _⟩
  obtain ⟨hrt, hn, hle⟩ : TransactionStack.InRuntime σ.depth σ₂ :=
    execute_invariant (fun c hc => TransactionStack.preserves_inRuntime σ.depth (hcs c hc)) hentered hσ₂
  have hexit : (TransactionStack.apply (.exitRuntime : Command K V)).run σ₂ =
      .ok () { σ₂ with
        store := { σ₂.store with layers := σ₂.store.layers.drop (σ₂.depth - σ₂.numClientTransactions) },
        executionMode := .client } := by
    simp [TransactionStack.apply, hrt]
  have hrun : execute TransactionStack.apply (.enterRuntime :: cs ++ [.exitRuntime]) σ =
      some { σ₂ with
        store := { σ₂.store with layers := σ₂.store.layers.drop (σ₂.depth - σ₂.numClientTransactions) },
        executionMode := .client } := by
    rw [execute_append, execute_cons_of_ok henter, hσ₂, Option.bind_some, execute_cons_of_ok hexit]
    rfl
  obtain ⟨m', σ', hm', hσ', h'⟩ := simulates.execute_eq_some TransactionStack.neverPanics_apply _ h
  rw [hrun, Option.some.injEq] at hσ'
  subst hσ'
  refine ⟨m', hm', h'.executionMode, ?_⟩
  rw [h'.depth_eq, h.depth_eq]
  simp only [TransactionStack.depth, List.length_drop] at hle hn ⊢
  omega

theorem runtime_restores_depth_empty :
    Reachable OverlayedMap.apply (· = OverlayedMap.empty) (OverlayedMap.empty : OverlayedMap ℕ ℕ) ∧
    (OverlayedMap.empty : OverlayedMap ℕ ℕ).executionMode = .client ∧
    (∀ c ∈ [Command.startTransaction, .set 1 2 (some 0)], c.keepsMode = true) ∧
    ∃ m', execute OverlayedMap.apply
        (.enterRuntime :: [Command.startTransaction, .set 1 2 (some 0)] ++ [.exitRuntime])
        (OverlayedMap.empty : OverlayedMap ℕ ℕ) = some m' ∧
      m'.executionMode = .client ∧ m'.transactionDepth = (OverlayedMap.empty : OverlayedMap ℕ ℕ).transactionDepth :=
  ⟨.start rfl, rfl, by decide, runtime_restores_depth (.start rfl) rfl _ (by decide)⟩

/-- **A rollback undoes what its transaction did.** From a reachable
overlay in the client, `start_transaction`, calls of the client that never
close a transaction opened before it (`heightAfter 0 cs = some 0`), and
`rollback_transaction` run without a panic and leave every key with the
versions it had, at the same depth and count. -/
theorem rollback_restores_changes (hm : Reachable OverlayedMap.apply (· = OverlayedMap.empty) m)
    (hclient : m.executionMode = .client) (cs : List (Command K V)) (hcs : ∀ c ∈ cs, c.keepsMode = true)
    (hbalanced : heightAfter 0 cs = some 0) :
    ∃ m', execute OverlayedMap.apply (.startTransaction :: cs ++ [.rollbackTransaction]) m = some m' ∧
      m'.changes = m.changes ∧ m'.transactionDepth = m.transactionDepth ∧
      m'.numClientTransactions = m.numClientTransactions ∧ m'.executionMode = .client := by
  obtain ⟨σ, -, h⟩ := Holds.of_reachable hm
  have hmode : σ.executionMode = .client := h.executionMode ▸ hclient
  -- the stack's run: a layer of its own above σ's, dropped at the end
  obtain ⟨σ₂, above, hσ₂, hl, hlen, hbase, hn, hmode₂⟩ :=
    TransactionStack.execute_above cs { σ with store := σ.store.start } [fun _ => none] σ.store.layers 0 0 rfl rfl
      hmode hcs hbalanced
  obtain ⟨a, rfl⟩ : ∃ a, above = [a] := List.length_eq_one_iff.mp hlen
  have hstore : σ₂.store.rollback = some σ.store := by
    unfold Layered.rollback
    rw [hl]
    cases hs : σ.store
    simp_all [Layered.start]
  have hclose : (TransactionStack.apply (.rollbackTransaction : Command K V)).run σ₂ = .ok () { σ₂ with store := σ.store } :=
    TransactionStack.run_close_of_some (by simp [hmode₂]) hstore
  have hrun : execute TransactionStack.apply (.startTransaction :: cs ++ [.rollbackTransaction]) σ =
      some { σ₂ with store := σ.store } := by
    rw [execute_append, execute_cons_of_ok TransactionStack.run_startTransaction, hσ₂, Option.bind_some,
      execute_cons_of_ok hclose]
    rfl
  obtain ⟨m', σ', hm', hσ', h'⟩ := simulates.execute_eq_some TransactionStack.neverPanics_apply _ h
  rw [hrun, Option.some.injEq] at hσ'
  subst hσ'
  refine ⟨m', hm', OrderedMap.ext_get? fun k => ?_, ?_, ?_, h'.executionMode.trans hmode₂⟩
  · rw [h'.refines.changes k, h.refines.changes k]
  · rw [h'.depth_eq, h.depth_eq]
    rfl
  · rw [h'.numClientTransactions, h.numClientTransactions]
    exact hn

theorem rollback_restores_changes_empty :
    Reachable OverlayedMap.apply (· = OverlayedMap.empty) (OverlayedMap.empty : OverlayedMap ℕ ℕ) ∧
    (OverlayedMap.empty : OverlayedMap ℕ ℕ).executionMode = .client ∧
    (∀ c ∈ [Command.set 1 2 none, .startTransaction, .set 1 3 (some 0), .commitTransaction], c.keepsMode = true) ∧
    heightAfter 0 [Command.set 1 2 none, .startTransaction, .set 1 3 (some 0), .commitTransaction] = some 0 ∧
    ∃ m', execute OverlayedMap.apply
        (.startTransaction :: [Command.set 1 2 none, .startTransaction, .set 1 3 (some 0), .commitTransaction] ++
          [.rollbackTransaction]) (OverlayedMap.empty : OverlayedMap ℕ ℕ) = some m' ∧
      m'.changes = (OverlayedMap.empty : OverlayedMap ℕ ℕ).changes ∧
      m'.transactionDepth = (OverlayedMap.empty : OverlayedMap ℕ ℕ).transactionDepth ∧
      m'.numClientTransactions = (OverlayedMap.empty : OverlayedMap ℕ ℕ).numClientTransactions ∧
      m'.executionMode = .client :=
  ⟨.start rfl, rfl, by decide, rfl, rollback_restores_changes (.start rfl) rfl _ (by decide) rfl⟩

theorem Holds.exists_cons_of_mem {σ : TransactionStack K V} (h : Holds m σ) {e : K × OverlayedEntry V}
    (he : e ∈ m.changes.entries) : ∃ t rest, e.2 = ⟨t :: rest⟩ := by
  obtain ⟨hne, hentry⟩ :=
    entryOf_eq_some.mp ((OrderedMap.get?_of_mem he).symm.trans (h.refines.changes e.1)).symm
  obtain ⟨t, rest, hvs⟩ := List.exists_cons_of_ne_nil hne
  exact ⟨t, rest, by rw [← hentry, hvs]⟩

/-- `l` is what draining `m` gives: the key and the current value of each
entry, in the order of the keys. -/
def OverlayedMap.Drains (m : OverlayedMap K V) (l : List (K × V)) : Prop :=
  List.Forall₂ (fun e p => p.1 = e.1 ∧ e.2.valueRef = some p.2) m.changes.entries l

/-- With no transaction open, `drain_commited` of an overlay holding a stack
returns without a panic (each entry has a version for its `expect` to pop)
the key and the current value of each entry, in the order of the keys. -/
theorem Holds.run_drainCommited {σ : TransactionStack K V} (h : Holds m σ) (hdepth : m.transactionDepth = 0) :
    ∃ l, OverlayedMap.drainCommited.run m = .ok l m ∧ m.Drains l := by
  have hpop : ∀ e ∈ m.changes.entries, ∃ p : K × V,
      ((unwrap e.2.popTransaction : MapCall K V _) >>= fun x => pure (e.1, x.1.value)).run m = .ok p m ∧
        p.1 = e.1 ∧ e.2.valueRef = some p.2 := by
    intro e he
    obtain ⟨t, rest, he₂⟩ := h.exists_cons_of_mem he
    rw [he₂]
    exact ⟨(e.1, t.value), rfl, rfl, rfl⟩
  obtain ⟨l, hrun, hl⟩ := run_mapM_of_forall hpop
  refine ⟨l, ?_, hl⟩
  simp only [OverlayedMap.drainCommited, run_get_bind, hdepth, ne_eq, not_true_eq_false, if_false]
  exact hrun

/-- **`drain_commited` with no transaction open.** In every reachable
overlay at depth zero, `drain_commited` returns without a panic (each entry
has a version for its `expect` to pop) the key and the value of each entry,
in the order of the keys: exactly the pairs of a key and the value it
reads. -/
theorem drainCommited_of_reachable (hm : Reachable OverlayedMap.apply (· = OverlayedMap.empty) m)
    (hdepth : m.transactionDepth = 0) :
    ∃ l, OverlayedMap.drainCommited.run m = .ok l m ∧ l.map Prod.fst = m.changes.entries.map Prod.fst ∧
      ∀ k v, (k, v) ∈ l ↔ (m.get k).bind OverlayedEntry.valueRef = some v := by
  obtain ⟨σ, -, h⟩ := Holds.of_reachable hm
  obtain ⟨l, hrun, hl⟩ := h.run_drainCommited hdepth
  exact ⟨l, hrun, OrderedMap.map_fst_of_forall₂ (g := OverlayedEntry.valueRef) hl,
    fun k v => OrderedMap.mem_iff_bind_get? (g := OverlayedEntry.valueRef) hl⟩

theorem drainCommited_of_reachable_set :
    Reachable OverlayedMap.apply (· = OverlayedMap.empty) ((OverlayedMap.empty : OverlayedMap ℕ ℕ).set 1 5 none) ∧
    ((OverlayedMap.empty : OverlayedMap ℕ ℕ).set 1 5 none).transactionDepth = 0 ∧
    ∃ l, (OverlayedMap.drainCommited : MapCall ℕ ℕ (List (ℕ × ℕ))).run
        ((OverlayedMap.empty : OverlayedMap ℕ ℕ).set 1 5 none) =
        .ok l ((OverlayedMap.empty : OverlayedMap ℕ ℕ).set 1 5 none) ∧
      l.map Prod.fst = ((OverlayedMap.empty : OverlayedMap ℕ ℕ).set 1 5 none).changes.entries.map Prod.fst ∧
      ∀ k v, (k, v) ∈ l ↔
        (((OverlayedMap.empty : OverlayedMap ℕ ℕ).set 1 5 none).get k).bind OverlayedEntry.valueRef = some v :=
  have hreach : Reachable OverlayedMap.apply (· = OverlayedMap.empty)
      ((OverlayedMap.empty : OverlayedMap ℕ ℕ).set 1 5 none) :=
    Reachable.step (.start rfl) (.set 1 5 none) (.inl ⟨(), rfl⟩)
  ⟨hreach, rfl, drainCommited_of_reachable hreach rfl⟩

end Runs

end SocialNetwork.StateMachine
