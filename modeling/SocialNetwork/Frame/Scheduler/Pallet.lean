import Mathlib.Data.List.Sort
import SocialNetwork.Frame.Support

/-!
# `pallet_scheduler`

The scheduler of `src/frame/scheduler/src/lib.rs`. `Agenda` keeps, for
each block, the tasks due then as a list of slots, and a task's address is
its block and its slot. A cancelled or moved task leaves `None` in its slot,
so that the addresses of the others stay valid. `Lookup` maps the name of a
named task to its address.

At the start of every block `on_initialize` takes the block's agenda, sorts
its tasks by priority (a stable sort: equal priorities keep their slots'
order) and adds up their weights in that order. A task runs when its
priority is `HARD_DEADLINE` or below, when the weight so far is within
`MaximumWeight`, or when it is the first; a periodic task is then appended
again `period` blocks later, and a named one's `Lookup` is moved with it or
removed. A task that does not run is appended to the next block's agenda.
The hook cannot fail, so it is a function of the state here.

The dispatchables check `ScheduleOrigin` and call the `do_*` functions
with the caller as the task's origin; the `Anon` and `Named` traits, for
other pallets, call them with an origin of their choosing and no check.
The traits map their errors to `()`, which changes nothing in the state.

Fixed by the model: a scheduled call's dispatch is the runtime's
`Config.dispatch`, which returns its result and does not reenter the
scheduler. Events are kept for the whole run, where `frame_system` clears
them at each block. The block number is a `u32` (`blockNumberBits`), and
`now + period` and `now + 1` wrap as in a release build; agendas stay below
`u32::MAX` slots, so the `as u32` casts of their lengths are the identity.
The storage migrations and the weight warnings are left out.
-/

namespace SocialNetwork.Scheduler

open Dispatch Unsigned

/-- `pallet_scheduler::Error`. -/
inductive Error where
  | failedToSchedule | notFound | targetBlockNumberInPast | rescheduleNoChange
  deriving DecidableEq, Repr

/-- The errors of the scheduler's calls: `BadOrigin`, or an error of the
pallet. -/
inductive DispatchError where
  | badOrigin
  | module (e : Error)
  deriving DecidableEq, Repr

abbrev weightBits : ℕ := 64

/-- `schedule::Priority`: lower values run first. -/
abbrev Priority := UInt8

/-- `schedule::HARD_DEADLINE`: a task of this priority or below runs in the
block it asks for, whatever its weight. -/
def hardDeadline : Priority := 63

/-- `schedule::Period`: the period in blocks and the number of runs. -/
abbrev Period := ℕ × ℕ

abbrev TaskName := List UInt8

/-- `schedule::DispatchTime` (`At` and `After`). -/
inductive DispatchTime where
  | atBlock (x : ℕ)
  | after (x : ℕ)
  deriving DecidableEq, Repr

/-- `ScheduledV2`, the current `Scheduled`. -/
structure Scheduled (RuntimeCall PalletsOrigin : Type) where
  maybeId : Option TaskName
  priority : Priority
  call : RuntimeCall
  maybePeriodic : Option Period
  origin : PalletsOrigin
  deriving DecidableEq, Repr

/-- `RawEvent`. -/
inductive Event (E : Type) where
  | scheduled (when index : ℕ)
  | canceled (when index : ℕ)
  | dispatched (task : ℕ × ℕ) (id : Option TaskName) (result : Except E Unit)
  deriving DecidableEq, Repr

/-- `RuntimeDbWeight`: the weight of one storage read and of one write. -/
structure RuntimeDbWeight where
  read : ℕ
  write : ℕ
  deriving DecidableEq, Repr

/-- `RuntimeDbWeight::writes`. -/
def RuntimeDbWeight.writes (w : RuntimeDbWeight) (n : ℕ) : ℕ :=
  saturatingMul weightBits w.write n

/-- `RuntimeDbWeight::reads_writes`. -/
def RuntimeDbWeight.readsWrites (w : RuntimeDbWeight) (r n : ℕ) : ℕ :=
  saturatingAdd weightBits (saturatingMul weightBits w.read r) (saturatingMul weightBits w.write n)

/-- What the pallet asks of the runtime: `MaximumWeight`, the database
weights, a call's dispatch weight and its dispatch, whether an origin is
signed, and `ScheduleOrigin`. -/
structure Config (RuntimeCall PalletsOrigin E : Type) where
  maximumWeight : ℕ
  dbWeight : RuntimeDbWeight
  weight : RuntimeCall → ℕ
  dispatch : RuntimeCall → PalletsOrigin → Except E Unit
  isSigned : PalletsOrigin → Bool
  scheduleOrigin : PalletsOrigin → Bool

/-- The pallet's storage, with `frame_system`'s block number and the events. -/
structure State (RuntimeCall PalletsOrigin E : Type) where
  blockNumber : ℕ
  agenda : ℕ → List (Option (Scheduled RuntimeCall PalletsOrigin))
  lookup : TaskName → Option (ℕ × ℕ)
  events : List (Event E)

variable {RuntimeCall PalletsOrigin E : Type}

def State.init : State RuntimeCall PalletsOrigin E where
  blockNumber := 0
  agenda _ := []
  lookup _ := none
  events := []

/-! ## Storage writes -/

namespace State

/-- `Agenda::insert`. -/
def setAgenda (st : State RuntimeCall PalletsOrigin E) (when : ℕ)
    (agenda : List (Option (Scheduled RuntimeCall PalletsOrigin))) :
    State RuntimeCall PalletsOrigin E :=
  { st with agenda := Function.update st.agenda when agenda }

/-- `Agenda::append`: the task takes the next slot of the block. -/
def append (st : State RuntimeCall PalletsOrigin E) (when : ℕ)
    (task : Option (Scheduled RuntimeCall PalletsOrigin)) : State RuntimeCall PalletsOrigin E :=
  st.setAgenda when (st.agenda when ++ [task])

/-- `Lookup::insert` (`some`) and `Lookup::remove` (`none`). -/
def setLookup (st : State RuntimeCall PalletsOrigin E) (id : TaskName)
    (address : Option (ℕ × ℕ)) : State RuntimeCall PalletsOrigin E :=
  { st with lookup := Function.update st.lookup id address }

/-- `deposit_event`. -/
def depositEvent (st : State RuntimeCall PalletsOrigin E) (e : Event E) :
    State RuntimeCall PalletsOrigin E :=
  { st with events := st.events ++ [e] }

variable (st : State RuntimeCall PalletsOrigin E)

@[simp] theorem setAgenda_lookup (when : ℕ) (agenda) : (st.setAgenda when agenda).lookup = st.lookup := rfl
@[simp] theorem setAgenda_events (when : ℕ) (agenda) : (st.setAgenda when agenda).events = st.events := rfl
@[simp] theorem setAgenda_blockNumber (when : ℕ) (agenda) :
    (st.setAgenda when agenda).blockNumber = st.blockNumber := rfl
@[simp] theorem setAgenda_agenda_self (when : ℕ) (agenda) : (st.setAgenda when agenda).agenda when = agenda := by
  simp [setAgenda]
theorem setAgenda_agenda_of_ne {when when' : ℕ} (h : when' ≠ when) (agenda) :
    (st.setAgenda when agenda).agenda when' = st.agenda when' := by
  simp [setAgenda, h]
@[simp] theorem append_lookup (when : ℕ) (task) : (st.append when task).lookup = st.lookup := rfl
@[simp] theorem append_events (when : ℕ) (task) : (st.append when task).events = st.events := rfl
@[simp] theorem append_blockNumber (when : ℕ) (task) : (st.append when task).blockNumber = st.blockNumber := rfl
@[simp] theorem setLookup_agenda (id : TaskName) (address) : (st.setLookup id address).agenda = st.agenda := rfl
@[simp] theorem setLookup_events (id : TaskName) (address) : (st.setLookup id address).events = st.events := rfl
@[simp] theorem setLookup_blockNumber (id : TaskName) (address) :
    (st.setLookup id address).blockNumber = st.blockNumber := rfl
@[simp] theorem depositEvent_agenda (e : Event E) : (st.depositEvent e).agenda = st.agenda := rfl
@[simp] theorem depositEvent_lookup (e : Event E) : (st.depositEvent e).lookup = st.lookup := rfl
@[simp] theorem depositEvent_events (e : Event E) : (st.depositEvent e).events = st.events ++ [e] := rfl
@[simp] theorem depositEvent_blockNumber (e : Event E) :
    (st.depositEvent e).blockNumber = st.blockNumber := rfl

end State

/-! ## Calls -/

abbrev SchedulerCall (RuntimeCall PalletsOrigin E : Type) :=
  Call DispatchError (State RuntimeCall PalletsOrigin E)

def write (f : State RuntimeCall PalletsOrigin E → State RuntimeCall PalletsOrigin E) :
    SchedulerCall RuntimeCall PalletsOrigin E Unit :=
  modify f

/-- `resolve_time`: the block a `DispatchTime` names, which must be later
than the current one. -/
def resolveTime (when : DispatchTime) : SchedulerCall RuntimeCall PalletsOrigin E ℕ := do
  let now := (← get).blockNumber
  let when := match when with
    | .atBlock x => x
    -- the current block has run its tasks: at least one block after it
    | .after x => saturatingAdd blockNumberBits (saturatingAdd blockNumberBits now x) 1
  if when ≤ now then fail (.module .targetBlockNumberInPast) else pure when

/-- The `maybe_periodic` sanitation of `do_schedule` and `do_schedule_named`:
a period of zero blocks or of one run is dropped, and one run is taken off,
since the task is scheduled once now. -/
def sanitizePeriodic (maybePeriodic : Option Period) : Option Period :=
  (maybePeriodic.filter fun p => decide (p.2 > 1) && p.1 != 0).map fun p => (p.1, p.2 - 1)

def lastIndex (st : State RuntimeCall PalletsOrigin E) (when : ℕ) : ℕ :=
  (st.agenda when).length - 1

/-- `do_schedule`. -/
def doSchedule (when : DispatchTime) (maybePeriodic : Option Period) (priority : Priority)
    (origin : PalletsOrigin) (call : RuntimeCall) :
    SchedulerCall RuntimeCall PalletsOrigin E (ℕ × ℕ) := do
  let when ← resolveTime when
  let s : Scheduled RuntimeCall PalletsOrigin :=
    { maybeId := none, priority, call, maybePeriodic := sanitizePeriodic maybePeriodic, origin }
  write (·.append when (some s))
  let index := lastIndex (← get) when
  write (·.depositEvent (.scheduled when index))
  pure (when, index)

/-- The origin check of `do_cancel` and `do_cancel_named`: a caller that is
not the task's origin gets `BadOrigin`; an empty slot is not checked. -/
def checkOrigin [DecidableEq PalletsOrigin] (origin : Option PalletsOrigin)
    (slot : Option (Scheduled RuntimeCall PalletsOrigin)) :
    SchedulerCall RuntimeCall PalletsOrigin E Unit :=
  match origin, slot with
  | some o, some s => if o ≠ s.origin then fail .badOrigin else pure ()
  | _, _ => pure ()

/-- `do_cancel`. In `Agenda::try_mutate` a slot beyond the end reads as
`Ok(None)` and an empty slot is taken as `None`: both end in `NotFound`. -/
def doCancel [DecidableEq PalletsOrigin] (origin : Option PalletsOrigin) (address : ℕ × ℕ) :
    SchedulerCall RuntimeCall PalletsOrigin E Unit := do
  let (when, index) := address
  let agenda := (← get).agenda when
  checkOrigin origin agenda[index]?.join
  write (·.setAgenda when (agenda.set index none))
  match agenda[index]?.join with
  | some s =>
    if let some id := s.maybeId then write (·.setLookup id none)
    write (·.depositEvent (.canceled when index))
  | none => fail (.module .notFound)

/-- The `Agenda::try_mutate` of `do_reschedule` and `do_reschedule_named`:
the task leaves its slot for the end of `newTime`'s agenda, and the new
slot is returned. -/
def moveTask (address : ℕ × ℕ) (newTime : ℕ) : SchedulerCall RuntimeCall PalletsOrigin E ℕ := do
  let (when, index) := address
  let agenda := (← get).agenda when
  let task ← okOr agenda[index]? (.module .notFound)
  let task ← okOr task (.module .notFound)
  write (·.append newTime (some task))
  write (·.setAgenda when (agenda.set index none))
  let newIndex := lastIndex (← get) newTime
  write (·.depositEvent (.canceled when index))
  write (·.depositEvent (.scheduled newTime newIndex))
  pure newIndex

/-- `do_reschedule`. -/
def doReschedule (address : ℕ × ℕ) (newTime : DispatchTime) :
    SchedulerCall RuntimeCall PalletsOrigin E (ℕ × ℕ) := do
  let newTime ← resolveTime newTime
  if newTime = address.1 then fail (.module .rescheduleNoChange)
  let newIndex ← moveTask address newTime
  pure (newTime, newIndex)

/-- `do_schedule_named`. -/
def doScheduleNamed (id : TaskName) (when : DispatchTime) (maybePeriodic : Option Period)
    (priority : Priority) (origin : PalletsOrigin) (call : RuntimeCall) :
    SchedulerCall RuntimeCall PalletsOrigin E (ℕ × ℕ) := do
  -- the name must not be in use
  if ((← get).lookup id).isSome then fail (.module .failedToSchedule)
  let when ← resolveTime when
  let s : Scheduled RuntimeCall PalletsOrigin :=
    { maybeId := some id, priority, call, maybePeriodic := sanitizePeriodic maybePeriodic, origin }
  write (·.append when (some s))
  let index := lastIndex (← get) when
  write (·.setLookup id (some (when, index)))
  write (·.depositEvent (.scheduled when index))
  pure (when, index)

/-- `do_cancel_named`. `Lookup::try_mutate_exists` writes the lookup only
when its closure returns `Ok`; the closure empties the slot the lookup
names, and a slot that is already empty, or beyond the end, is no error. -/
def doCancelNamed [DecidableEq PalletsOrigin] (origin : Option PalletsOrigin) (id : TaskName) :
    SchedulerCall RuntimeCall PalletsOrigin E Unit := do
  let (when, index) ← okOr ((← get).lookup id) (.module .notFound)
  let agenda := (← get).agenda when
  checkOrigin origin agenda[index]?.join
  write (·.setAgenda when (agenda.set index none))
  write (·.depositEvent (.canceled when index))
  write (·.setLookup id none)

/-- `do_reschedule_named`. -/
def doRescheduleNamed (id : TaskName) (newTime : DispatchTime) :
    SchedulerCall RuntimeCall PalletsOrigin E (ℕ × ℕ) := do
  let newTime ← resolveTime newTime
  let address ← okOr ((← get).lookup id) (.module .notFound)
  if newTime = address.1 then fail (.module .rescheduleNoChange)
  let newIndex ← moveTask address newTime
  write (·.setLookup id (some (newTime, newIndex)))
  pure (newTime, newIndex)

/-! ## `on_initialize` -/

/-- The weight a task adds in the `scan` of `on_initialize`: its call, the
account data of a signed origin, the `Lookup` write of a named task and
the later agenda of a periodic one. -/
def taskWeight (T : Config RuntimeCall PalletsOrigin E) (s : Scheduled RuntimeCall PalletsOrigin)
    (cumulativeWeight : ℕ) : ℕ :=
  let w := saturatingAdd weightBits cumulativeWeight (T.weight s.call)
  let w := if T.isSigned s.origin then saturatingAdd weightBits w (T.dbWeight.readsWrites 1 1) else w
  let w := if s.maybeId.isSome then saturatingAdd weightBits w (T.dbWeight.writes 1) else w
  if s.maybePeriodic.isSome then saturatingAdd weightBits w (T.dbWeight.readsWrites 1 1) else w

/-- A task that runs at block `now` from slot `index`: it is dispatched; a
periodic task is appended `period` blocks later with one run less, its
`Lookup` naming the slot it takes; a task that is done leaves `Lookup`. -/
def dispatchTask (T : Config RuntimeCall PalletsOrigin E) (now index : ℕ)
    (s : Scheduled RuntimeCall PalletsOrigin) (st : State RuntimeCall PalletsOrigin E) :
    State RuntimeCall PalletsOrigin E :=
  let r := T.dispatch s.call s.origin
  let st := match s.maybePeriodic with
    | some (period, count) =>
      let next := wrappingAdd blockNumberBits now period
      let st := match s.maybeId with
        | some id => st.setLookup id (some (next, (st.agenda next).length))
        | none => st
      st.append next (some { s with maybePeriodic := if count > 1 then some (period, count - 1) else none })
    | none =>
      match s.maybeId with
      | some id => st.setLookup id none
      | none => st
  st.depositEvent (.dispatched (now, index) s.maybeId r)

/-- Whether a task runs: its priority is `HARD_DEADLINE` or below, the
weight so far fits under `MaximumWeight`, or it is the first of the block. -/
def runsNow (T : Config RuntimeCall PalletsOrigin E) (s : Scheduled RuntimeCall PalletsOrigin)
    (order cumulativeWeight : ℕ) : Prop :=
  s.priority ≤ hardDeadline ∨ cumulativeWeight ≤ T.maximumWeight ∨ order = 0

instance (T : Config RuntimeCall PalletsOrigin E) (s : Scheduled RuntimeCall PalletsOrigin)
    (order cumulativeWeight : ℕ) : Decidable (runsNow T s order cumulativeWeight) :=
  inferInstanceAs (Decidable (_ ≤ _ ∨ _ ≤ _ ∨ _ = _))

/-- The `scan`, `filter_map` and `for_each` of `on_initialize`, which Rust
runs one task at a time: `order` is the task's place in the sorted list.
Returns the weight of the last task that ran, and the state. -/
def serviceTasks (T : Config RuntimeCall PalletsOrigin E) (now : ℕ) :
    ℕ → ℕ → ℕ → List (ℕ × Scheduled RuntimeCall PalletsOrigin) →
      State RuntimeCall PalletsOrigin E → ℕ × State RuntimeCall PalletsOrigin E
  | _, _, totalWeight, [], st => (totalWeight, st)
  | order, cumulativeWeight, totalWeight, (index, s) :: queued, st =>
    let cumulativeWeight := taskWeight T s cumulativeWeight
    if runsNow T s order cumulativeWeight then
      serviceTasks T now (order + 1) cumulativeWeight cumulativeWeight queued
        (dispatchTask T now index s st)
    else
      -- a task that does not fit goes to the end of the next block's agenda
      serviceTasks T now (order + 1) cumulativeWeight totalWeight queued
        (st.append (wrappingAdd blockNumberBits now 1) (some s))

/-- The tasks of an agenda with their slots, empty slots dropped, sorted
by priority. `sort_by_key` is stable, as is insertion sort, so the two
give the same list. -/
def queuedTasks (agenda : List (Option (Scheduled RuntimeCall PalletsOrigin))) :
    List (ℕ × Scheduled RuntimeCall PalletsOrigin) :=
  (agenda.zipIdx.filterMap fun p => p.1.map fun inner => (p.2, inner)).insertionSort
    fun a b => a.2.priority ≤ b.2.priority

/-- `on_initialize`: the block's agenda is taken and its tasks served; the
weight used is returned. -/
def onInitialize (T : Config RuntimeCall PalletsOrigin E) (now : ℕ)
    (st : State RuntimeCall PalletsOrigin E) : ℕ × State RuntimeCall PalletsOrigin E :=
  serviceTasks T now 0 (T.dbWeight.readsWrites 1 2) 0 (queuedTasks (st.agenda now))
    (st.setAgenda now [])

/-! ## Dispatchables and traits -/

/-- `T::ScheduleOrigin::ensure_origin`. -/
def ensureOrigin (T : Config RuntimeCall PalletsOrigin E) (origin : PalletsOrigin) :
    SchedulerCall RuntimeCall PalletsOrigin E Unit :=
  if T.scheduleOrigin origin then pure () else fail .badOrigin

section Dispatchables

variable [DecidableEq PalletsOrigin] (T : Config RuntimeCall PalletsOrigin E)

/-- `schedule`. -/
def schedule (origin : PalletsOrigin) (when : ℕ) (maybePeriodic : Option Period)
    (priority : Priority) (call : RuntimeCall) : SchedulerCall RuntimeCall PalletsOrigin E Unit := do
  ensureOrigin T origin
  let _ ← doSchedule (.atBlock when) maybePeriodic priority origin call

/-- `cancel`. -/
def cancel (origin : PalletsOrigin) (when index : ℕ) : SchedulerCall RuntimeCall PalletsOrigin E Unit := do
  ensureOrigin T origin
  doCancel (some origin) (when, index)

/-- `schedule_named`. -/
def scheduleNamed (origin : PalletsOrigin) (id : TaskName) (when : ℕ)
    (maybePeriodic : Option Period) (priority : Priority) (call : RuntimeCall) :
    SchedulerCall RuntimeCall PalletsOrigin E Unit := do
  ensureOrigin T origin
  let _ ← doScheduleNamed id (.atBlock when) maybePeriodic priority origin call

/-- `cancel_named`. -/
def cancelNamed (origin : PalletsOrigin) (id : TaskName) :
    SchedulerCall RuntimeCall PalletsOrigin E Unit := do
  ensureOrigin T origin
  doCancelNamed (some origin) id

/-- `schedule_after`. -/
def scheduleAfter (origin : PalletsOrigin) (after : ℕ) (maybePeriodic : Option Period)
    (priority : Priority) (call : RuntimeCall) : SchedulerCall RuntimeCall PalletsOrigin E Unit := do
  ensureOrigin T origin
  let _ ← doSchedule (.after after) maybePeriodic priority origin call

/-- `schedule_named_after`. -/
def scheduleNamedAfter (origin : PalletsOrigin) (id : TaskName) (after : ℕ)
    (maybePeriodic : Option Period) (priority : Priority) (call : RuntimeCall) :
    SchedulerCall RuntimeCall PalletsOrigin E Unit := do
  ensureOrigin T origin
  let _ ← doScheduleNamed id (.after after) maybePeriodic priority origin call

end Dispatchables

/-- `Anon::next_dispatch_time`: the block of an address with a slot, empty
or not. -/
def Anon.nextDispatchTime (st : State RuntimeCall PalletsOrigin E) (address : ℕ × ℕ) : Option ℕ :=
  (st.agenda address.1)[address.2]?.map fun _ => address.1

/-- `Named::next_dispatch_time`: the block `Lookup` names, if that block's
agenda has the slot. -/
def Named.nextDispatchTime (st : State RuntimeCall PalletsOrigin E) (id : TaskName) : Option ℕ :=
  (st.lookup id).bind fun address => Anon.nextDispatchTime st address

/-- What can happen to the scheduler: a dispatchable, a call of the `Anon`
or `Named` trait by another pallet, or the next block. -/
inductive Command (RuntimeCall PalletsOrigin : Type) where
  | schedule (origin : PalletsOrigin) (when : ℕ) (maybePeriodic : Option Period)
      (priority : Priority) (call : RuntimeCall)
  | cancel (origin : PalletsOrigin) (when index : ℕ)
  | scheduleNamed (origin : PalletsOrigin) (id : TaskName) (when : ℕ)
      (maybePeriodic : Option Period) (priority : Priority) (call : RuntimeCall)
  | cancelNamed (origin : PalletsOrigin) (id : TaskName)
  | scheduleAfter (origin : PalletsOrigin) (after : ℕ) (maybePeriodic : Option Period)
      (priority : Priority) (call : RuntimeCall)
  | scheduleNamedAfter (origin : PalletsOrigin) (id : TaskName) (after : ℕ)
      (maybePeriodic : Option Period) (priority : Priority) (call : RuntimeCall)
  | anonSchedule (when : DispatchTime) (maybePeriodic : Option Period) (priority : Priority)
      (origin : PalletsOrigin) (call : RuntimeCall)
  | anonCancel (address : ℕ × ℕ)
  | anonReschedule (address : ℕ × ℕ) (when : DispatchTime)
  | namedSchedule (id : TaskName) (when : DispatchTime) (maybePeriodic : Option Period)
      (priority : Priority) (origin : PalletsOrigin) (call : RuntimeCall)
  | namedCancel (id : TaskName)
  | namedReschedule (id : TaskName) (when : DispatchTime)
  | nextBlock
  deriving DecidableEq, Repr

/-- One command. The next block is numbered one more than the last, and
its `on_initialize` runs before any call in it. -/
def Command.apply [DecidableEq PalletsOrigin] (T : Config RuntimeCall PalletsOrigin E) :
    Command RuntimeCall PalletsOrigin → SchedulerCall RuntimeCall PalletsOrigin E Unit
  | .schedule origin when maybePeriodic priority call =>
    Scheduler.schedule T origin when maybePeriodic priority call
  | .cancel origin when index => Scheduler.cancel T origin when index
  | .scheduleNamed origin id when maybePeriodic priority call =>
    Scheduler.scheduleNamed T origin id when maybePeriodic priority call
  | .cancelNamed origin id => Scheduler.cancelNamed T origin id
  | .scheduleAfter origin after maybePeriodic priority call =>
    Scheduler.scheduleAfter T origin after maybePeriodic priority call
  | .scheduleNamedAfter origin id after maybePeriodic priority call =>
    Scheduler.scheduleNamedAfter T origin id after maybePeriodic priority call
  | .anonSchedule when maybePeriodic priority origin call => do
    let _ ← doSchedule when maybePeriodic priority origin call
  | .anonCancel address => doCancel none address
  | .anonReschedule address when => do
    let _ ← doReschedule address when
  | .namedSchedule id when maybePeriodic priority origin call => do
    let _ ← doScheduleNamed id when maybePeriodic priority origin call
  | .namedCancel id => doCancelNamed none id
  | .namedReschedule id when => do
    let _ ← doRescheduleNamed id when
  | .nextBlock => write fun st =>
    (onInitialize T (st.blockNumber + 1) { st with blockNumber := st.blockNumber + 1 }).2

end SocialNetwork.Scheduler
