import UbixOS.Sched.Queue

/-! What the scheduler does to tasks it finds by itself: timers, the scan of a channel, notices
to parents, aging and balancing. What a few changes keep, all of these keep. -/
namespace UbixOS.Sched

/-- The fields of a task that its place, its state and its family depend on. -/
def Task.core (k : Task) : Task :=
  { k with quantum := 0, stoppedSig := 0, waitChan := none, itimerInterval := 0, sigPending := 0 }

/-- Only other fields change, and the wait channel is kept or cleared. -/
structure Aside (k k' : Task) : Prop where
  core : k'.core = k.core
  waitChan : k'.waitChan = k.waitChan ∨ k'.waitChan = none

/-- A property of the kernel that these changes keep. -/
structure Routine (R : Kernel → Prop) : Prop where
  aside : ∀ {s t f}, R s → Aside (s.task t) (f (s.task t)) → R (s.upd t f)
  timers : ∀ {s} callouts agingLast lastBalance, R s → R { s with callouts, agingLast, lastBalance }
  wake : ∀ {s t}, R s → (s.state t).asleep = true → R (makeReady s t)
  boost : ∀ {s t}, R s → (s.state t).asleep = true → R (s.upd t Task.boost)
  age : ∀ {s t}, R s → s.state t = .ready → (s.task t).priority < min (u8 ((s.task t).basePriority + 8)) 23 →
    R (makeReady ((rqDequeueLocked s t).upd t fun k => { k with priority := u8 (k.priority + 1) }) t)
  migrate : ∀ {s now c t} recip, R s → victim s now c = some t → R (migrate s now recip t)

namespace Routine

variable {R : Kernel → Prop}

lemma foldl (keeps : ∀ s t, R s → R (f s t)) (kept : R s) (l : List Tid) : R (l.foldl f s) := by
  induction l generalizing s with
  | nil => exact kept
  | cons t l ih => exact ih (keeps s t kept)

variable (routine : Routine R)
include routine

section
variable (kept : R s)
include kept

lemma calloutStop (fn : CalloutFn) (t : Tid) : R (calloutStop s fn t) := routine.timers _ _ _ kept

lemma calloutReset (fn : CalloutFn) (t : Tid) (ticks : UInt32) : R (calloutReset s fn t ticks) :=
  routine.timers _ _ _ (routine.calloutStop kept fn t)

lemma postBit (t : Tid) (sig : Nat) : R (postBit s t sig) := routine.aside kept ⟨rfl,.inl rfl⟩

lemma unwait (t : Tid) : R (s.upd t fun k => { k with waitChan := none }) :=
  routine.aside kept ⟨rfl,.inr rfl⟩

lemma wakeAsleep (asleep : (s.state t).asleep = true) : R (Sched.wake s t) := by
  refine routine.wake (routine.unwait kept t) ?_
  rwa [state_upd_self]

lemma schedWakeTask (t : Tid) : R (schedWakeTask s t) := by
  unfold Sched.schedWakeTask
  split
  next waits =>
    refine routine.wakeAsleep kept ?_
    rcases waits with waits | waits <;> simp [waits,TState.asleep]
  · exact kept

lemma itimerFire (t : Tid) : R (itimerFire s t) := by
  unfold Sched.itimerFire
  split
  · exact kept
  have woken := routine.schedWakeTask (routine.postBit kept t SIGALRM) t
  dsimp only
  split
  · exact routine.calloutReset woken _ _ _
  · exact woken

lemma fire (c : Callout) : R (c.fire s) := by
  unfold Callout.fire
  split
  · unfold sleepWakeCb
    split
    next asleep => exact routine.wakeAsleep kept asleep
    · exact kept
  · exact routine.itimerFire kept c.arg

end

lemma runExpired (now : UInt32) (n : Nat) (kept : R s) : R (runExpired now n s) := by
  induction n generalizing s with
  | zero => exact kept
  | succ n ih =>
    unfold Sched.runExpired
    split
    · exact kept
    split
    · exact ih (routine.fire (routine.timers _ _ _ kept) _)
    · exact kept

lemma wakeChan (chan : Chan) (s : Kernel) (t : Tid) (kept : R s) : R (wakeChan chan s t) := by
  unfold Sched.wakeChan
  split
  · have cleared := routine.calloutStop (routine.unwait kept t) .sleepWake t
    dsimp only
    split
    next asleep =>
      refine routine.wake (routine.boost cleared asleep) ?_
      rwa [state_upd_self]
    · exact cleared
  · exact kept

lemma notifyStop (kept : R s) (parent : Tid) : R (notifyStop s parent) := by
  unfold Sched.notifyStop
  split
  · exact kept
  have posted := routine.postBit kept parent SIGCHLD
  dsimp only
  split
  next asleep =>
    refine routine.wake (routine.calloutStop (routine.unwait posted parent) .sleepWake parent) ?_
    have same := state_upd_self (Sched.postBit s parent SIGCHLD) parent fun k => { k with waitChan := none }
    exact (congrArg TState.asleep same).trans asleep
  · exact posted

lemma schedStop (stopped : R ((rqDequeueLocked s t).upd t fun k => { k with state := .stopped, stoppedSig := sig })) :
    R (schedStop s t sig) := by
  unfold Sched.schedStop
  dsimp only
  split
  · exact stopped
  · exact routine.notifyStop stopped _

lemma notifyExit (kept : R s) (parent : Tid) : R (notifyExit s parent) := by
  unfold Sched.notifyExit
  split
  · exact kept
  have posted := routine.postBit kept parent SIGCHLD
  dsimp only
  split
  next asleep => exact routine.wake posted asleep
  · exact posted

lemma ageTask (now : UInt32) (s : Kernel) (t : Tid) (kept : R s) : R (ageTask now s t) := by
  unfold Sched.ageTask
  split
  · exact kept
  rename_i eligible
  split
  · exact kept
  split
  next below =>
    refine routine.age kept ?_ below
    by_contra other
    exact eligible (.inl other)
  · exact kept

lemma ageAll (kept : R s) : R (Sched.age s) := by
  unfold Sched.age
  split
  · exact foldl (routine.ageTask _) (routine.timers _ _ _ kept) _
  · exact kept

lemma schedBalanceLocked (kept : R s) (c : Cpu) : R (schedBalanceLocked s c) := by
  unfold Sched.schedBalanceLocked
  dsimp only
  split
  · exact kept
  have timed : R { s with lastBalance := s.sysTicks } := routine.timers _ _ _ kept
  split
  · exact timed
  split
  · exact timed
  rename_i found
  obtain ⟨donor,-,found⟩ := Option.bind_eq_some_iff.mp found
  exact routine.migrate _ timed found

lemma beforeReap (kept : R s) (c : Cpu) : R (calloutRunExpired (Sched.schedBalanceLocked (Sched.age s) c)
    (Sched.schedBalanceLocked (Sched.age s) c).sysTicks) :=
  routine.runExpired _ _ (routine.schedBalanceLocked (routine.ageAll kept) c)

lemma adopt (moved : ∀ {s t} init, R s → R (s.upd t fun k => { k with parent := init })) (init : Option Tid)
    (dying : Tid) (s : Kernel) (t : Tid) (kept : R s) : R (adopt init dying s t) := by
  unfold Sched.adopt
  split
  · exact kept
  dsimp only
  split
  · split
    · exact routine.postBit (moved _ kept) _ _
    · exact moved _ kept
  · exact moved _ kept

end Routine

/-- The I/O wake-up is a boost, of a sleeping task with a wake-up. -/
lemma schedIoWakeup_eq (s : Kernel) (t : Tid) : schedIoWakeup s t =
    if s.state t ≠ .ready ∧ s.state t ≠ .running ∧ (s.state t).finished = false then makeReady (s.upd t Task.boost) t
    else requeue s t Task.boost := by
  unfold schedIoWakeup requeue
  split
  next ready => simp [ready]
  next other => simp [other]

lemma schedSetStatus_cases {R : Kernel → Prop} (same : R s) (dead : st = .dead → R (schedDead s pid))
    (ready : st = .ready → R (schedReady s pid)) (other : st ≠ .ready → R (schedSleep s pid st)) :
    R (schedSetStatus s pid st) := by
  unfold schedSetStatus schedFindTask
  by_cases listed : pid ∈ s.taskList
  · rw [if_pos listed]
    dsimp only
    split_ifs with isDead isReady
    · exact dead isDead
    · exact ready isReady
    · exact other isReady
  · rw [if_neg listed]
    exact same

lemma yieldReady_cases {R : Kernel → Prop} (same : R s)
    (ready : ∀ t, s.current c = some t → (s.task t).yielding = true →
    R (makeReady (s.upd t fun k => { k with yielding := false }) t)) : R (yieldReady s c) := by
  unfold yieldReady
  split
  · exact same
  split
  next yields => exact ready _ ‹_› yields
  · exact same

/-- Events that make routine changes only, but for the list of calls under way and the accounting. -/
def mild : Event → Bool
  | .wakeTask _ | .waitDone _ | .wakeupChan _ | .signalPost .. | .signalPostPgrp .. | .wakeUp .. | .setitimer ..
  | .itimerExit _ | .accountTick _ => true
  | _ => false

structure Routine.Calls (R : Kernel → Prop) : Prop extends Routine R where
  waking : ∀ {s t}, R s → s.state t ≠ .new → R { s with waking := t :: s.waking }
  account : ∀ {s} c runningIdle, R s → R (s.updRq c fun rq => { rq with runningIdle })

namespace Routine.Calls

variable (calls : Calls R)
include calls

lemma postSignal (kept : R s) (t : Tid) (sig : Nat) : R (postSignal s t sig) := by
  refine calls.postBit ?_ t sig
  split
  · have cleared : R (s.upd t fun k => { k with sigPending := k.sigPending &&& ~~~sigPendStop }) :=
      calls.aside kept ⟨rfl,.inl rfl⟩
    dsimp only
    split
    next stopped =>
      have resumed := calls.aside (t := t) (f := fun k => { k with stoppedSig := 0 }) cleared ⟨rfl,.inl rfl⟩
      refine calls.waking resumed ?_
      rw [state_upd_self]
      exact fun new => nomatch stopped.symm.trans new
    · exact cleared
  · exact kept

/-- A mild event keeps whatever routine changes keep. -/
lemma step (kept : R s) (small : mild e = true) : R (step s e) := by
  unfold Sched.step perform
  cases e with
  | wakeTask t => exact calls.schedWakeTask kept t
  | waitDone c =>
    dsimp only [waitDone]
    split
    · exact kept
    · exact calls.calloutStop kept _ _
  | wakeupChan chan => exact Routine.foldl (calls.wakeChan chan) kept _
  | signalPost pid sig =>
    dsimp only [signalPost]
    split
    · exact kept
    split
    · exact kept
    · exact calls.postSignal kept _ sig
  | signalPostPgrp pgrp sig t =>
    dsimp only [signalPostPgrp]
    split
    · exact kept
    · exact calls.postSignal kept t sig
  | wakeUp t interruptibleOnly =>
    dsimp only [wakeUp]
    split
    next waits =>
      refine calls.waking kept fun new => ?_
      simp [new] at waits
    · exact kept
  | setitimer t value interval =>
    dsimp only [setitimer]
    split
    · exact calls.aside (calls.calloutStop kept _ t) ⟨rfl,.inl rfl⟩
    · refine calls.calloutReset (calls.aside kept ⟨?_,.inl ?_⟩) _ _ _ <;> rfl
  | itimerExit t =>
    dsimp only [itimerTaskExit]
    exact calls.aside (calls.calloutStop kept _ t) ⟨rfl,.inl rfl⟩
  | accountTick c => exact calls.account _ _ kept
  | _ => cases small

end Routine.Calls

end UbixOS.Sched
