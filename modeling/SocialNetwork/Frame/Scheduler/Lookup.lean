import SocialNetwork.Frame.Scheduler.Pallet

/-!
# `pallet_scheduler`: `Lookup` after a deferred task

`on_initialize` writes a named task's `Lookup` only when the task runs
(`serviceTasks_lookup_of_not_dispatched`). A task that does not fit in the
block's weight is appended to the next block's agenda with its `Lookup`
left at the slot it was taken from, in an agenda that `on_initialize` has
just emptied. `cancel_named` then finds no task there, which it does not
report: it returns `Ok`, deposits `Canceled` and removes the name, and
leaves every agenda as it was (`run_doCancelNamed_of_empty_slot`). The task
runs in the next block all the same (`cancelled_named_task_still_runs`).
-/

namespace SocialNetwork.Scheduler

open Dispatch

variable {RuntimeCall PalletsOrigin E : Type}

theorem set_none_of_join_eq_none {α : Type} {l : List (Option α)} {i : ℕ}
    (h : l[i]?.join = none) : l.set i none = l := by
  by_cases hi : i < l.length
  · have hnone : l[i] = none := by simpa [List.getElem?_eq_getElem hi] using h
    rw [← hnone]
    exact List.set_getElem_self hi
  · exact List.set_eq_of_length_le (by omega)

@[simp] theorem State.setAgenda_self (st : State RuntimeCall PalletsOrigin E) (when : ℕ) :
    st.setAgenda when (st.agenda when) = st := by
  simp [State.setAgenda]

/-! ## `on_initialize` -/

section Service

variable (T : Config RuntimeCall PalletsOrigin E) (now : ℕ)

theorem dispatchTask_events (index : ℕ) (s : Scheduled RuntimeCall PalletsOrigin)
    (st : State RuntimeCall PalletsOrigin E) :
    (dispatchTask T now index s st).events =
      st.events ++ [.dispatched (now, index) s.maybeId (T.dispatch s.call s.origin)] := by
  rcases hp : s.maybePeriodic with _ | ⟨period, count⟩ <;>
    rcases hi : s.maybeId with _ | id <;> simp [dispatchTask, hp, hi]

theorem dispatchTask_lookup_of_ne {id : TaskName} (index : ℕ)
    (s : Scheduled RuntimeCall PalletsOrigin) (st : State RuntimeCall PalletsOrigin E)
    (h : s.maybeId ≠ some id) : (dispatchTask T now index s st).lookup id = st.lookup id := by
  rcases hi : s.maybeId with _ | id'
  · rcases hp : s.maybePeriodic with _ | ⟨period, count⟩ <;> simp [dispatchTask, hp, hi]
  · -- a named task writes its own name only
    have hne : id ≠ id' := fun e => h (hi ▸ e ▸ rfl)
    rcases hp : s.maybePeriodic with _ | ⟨period, count⟩ <;>
      simp [dispatchTask, hp, hi, State.setLookup, Function.update_of_ne hne]

theorem events_prefix_serviceTasks :
    ∀ (queued : List (ℕ × Scheduled RuntimeCall PalletsOrigin)) (order cumulativeWeight totalWeight : ℕ)
      (st : State RuntimeCall PalletsOrigin E),
      st.events <+: (serviceTasks T now order cumulativeWeight totalWeight queued st).2.events
  | [], _, _, _, _ => List.prefix_refl _
  | (index, s) :: queued, order, cumulativeWeight, totalWeight, st => by
    rw [serviceTasks]
    split
    · have hstep : st.events <+: (dispatchTask T now index s st).events := by
        rw [dispatchTask_events]
        exact List.prefix_append _ _
      exact hstep.trans (events_prefix_serviceTasks queued _ _ _ _)
    · exact events_prefix_serviceTasks queued _ _ _ (st.append _ _)

/-- A name whose task did not run keeps its `Lookup` through the service of
a block, deferred or not. -/
theorem serviceTasks_lookup_of_not_dispatched {id : TaskName} :
    ∀ (queued : List (ℕ × Scheduled RuntimeCall PalletsOrigin)) (order cumulativeWeight totalWeight : ℕ)
      (st : State RuntimeCall PalletsOrigin E),
      (∀ address r, Event.dispatched address (some id) r ∉
        (serviceTasks T now order cumulativeWeight totalWeight queued st).2.events) →
      (serviceTasks T now order cumulativeWeight totalWeight queued st).2.lookup id = st.lookup id
  | [], _, _, _, _, _ => rfl
  | (index, s) :: queued, order, cumulativeWeight, totalWeight, st, hnot => by
    rw [serviceTasks] at hnot ⊢
    by_cases hrun : runsNow T s order (taskWeight T s cumulativeWeight)
    · rw [if_pos hrun] at hnot ⊢
      have hne : s.maybeId ≠ some id := by
        intro hid
        apply hnot (now, index) (T.dispatch s.call s.origin)
        apply (events_prefix_serviceTasks T now queued _ _ _ _).subset
        rw [dispatchTask_events, hid]
        exact List.mem_append_right _ (List.mem_singleton_self _)
      rw [serviceTasks_lookup_of_not_dispatched queued _ _ _ _ hnot,
        dispatchTask_lookup_of_ne T now index s st hne]
    · rw [if_neg hrun] at hnot ⊢
      rw [serviceTasks_lookup_of_not_dispatched queued _ _ _ _ hnot, State.append_lookup]

theorem onInitialize_lookup_of_not_dispatched {id : TaskName} (st : State RuntimeCall PalletsOrigin E)
    (h : ∀ address r, Event.dispatched address (some id) r ∉ (onInitialize T now st).2.events) :
    (onInitialize T now st).2.lookup id = st.lookup id :=
  serviceTasks_lookup_of_not_dispatched T now _ _ _ _ _ h

end Service

/-! ## `cancel_named` -/

/-- `cancel_named` on a name whose slot holds no task, or does not exist:
`Ok`, with `Canceled` deposited and the name removed, and no agenda
changed. -/
theorem run_doCancelNamed_of_empty_slot [DecidableEq PalletsOrigin]
    {st : State RuntimeCall PalletsOrigin E} {id : TaskName} {when index : ℕ}
    (hl : st.lookup id = some (when, index)) (hslot : (st.agenda when)[index]?.join = none)
    (origin : Option PalletsOrigin) :
    (doCancelNamed origin id).run st =
      .ok () ((st.depositEvent (.canceled when index)).setLookup id none) := by
  have hcheck : (checkOrigin origin (st.agenda when)[index]?.join :
      SchedulerCall RuntimeCall PalletsOrigin E Unit) = pure () := by
    rw [hslot]
    cases origin <;> rfl
  simp [doCancelNamed, hl, hcheck, write, okOr, set_none_of_join_eq_none hslot]

/-! ## A run -/

/-- A runtime for the run below: a call weighs its own number, every
dispatch succeeds, root may schedule, and storage costs no weight. -/
def mockConfig : Config ℕ (Origin ℕ) Unit where
  maximumWeight := 10
  dbWeight := ⟨0, 0⟩
  weight := id
  dispatch _ _ := .ok ()
  isSigned o := o matches .signed _
  scheduleOrigin o := o == .root

/-- Two tasks for block 1 of weight 10 each, the second named `[1]` and of
low priority: block 1 runs the first and defers the second. -/
def deferTrace : List (Command ℕ (Origin ℕ)) :=
  [.schedule .root 1 none 0 10, .scheduleNamed .root [1] 1 none 100 10, .nextBlock]

/-- After the deferral, `Lookup` names slot 1 of block 1, whose agenda is
empty; `cancel_named` succeeds, and block 2 still dispatches the task. -/
theorem cancelled_named_task_still_runs :
    ∃ s s', Reachable (Command.apply mockConfig) (· = State.init) s ∧
      (Command.apply mockConfig (.cancelNamed .root [1])).run s = .ok () s' ∧
      s.lookup [1] = some (1, 1) ∧ s.agenda 1 = [] ∧
      ∃ s'', (Command.apply mockConfig .nextBlock).run s' = .ok () s'' ∧
        s''.events = s'.events ++ [.dispatched (2, 0) (some [1]) (.ok ())] := by
  have h : (execute (Command.apply mockConfig) deferTrace State.init).map (fun s => okAnd
      (fun s s' => s.lookup [1] = some (1, 1) ∧ s.agenda 1 = [] ∧
        returnsAnd (fun _ s'' => s''.events = s'.events ++ [.dispatched (2, 0) (some [1]) (.ok ())])
          ((Command.apply mockConfig .nextBlock).run s') = true) s
      ((Command.apply mockConfig (.cancelNamed .root [1])).run s)) = some true := by
    decide
  obtain ⟨s, s', hs, hc, hl, ha, hr⟩ : ∃ s s', Reachable (Command.apply mockConfig) (· = State.init) s ∧
      (Command.apply mockConfig (.cancelNamed .root [1])).run s = .ok () s' ∧
      (s.lookup [1] = some (1, 1) ∧ s.agenda 1 = [] ∧
        returnsAnd (fun _ s'' => s''.events = s'.events ++ [.dispatched (2, 0) (some [1]) (.ok ())])
          ((Command.apply mockConfig .nextBlock).run s') = true) :=
    Reachable.exists_ok_of_execute rfl h
  obtain ⟨_, s'', hrun, hev⟩ := exists_of_returnsAnd hr
  exact ⟨s, s', hs, hc, hl, ha, s'', hrun, hev⟩

end SocialNetwork.Scheduler
