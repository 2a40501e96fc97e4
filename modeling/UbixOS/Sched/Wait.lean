import UbixOS.Sched.Routine

/-! Waiting for a condition (`sched_wait_event_timeout`) and waking whoever waits for it
(`sched_wakeup_chan`), each locked section one step, among everything else the kernel does. -/
namespace UbixOS.Sched.Wait

open Library Kernel UInt32 List Routine
open Function (update update_self update_of_ne)

/-- Nobody falls asleep, a sleeper keeps its channel or loses it and stays listed, and no
time passes. -/
structure Calm (s s' : Kernel) : Prop where
  asleep : ∀ t, s'.state t = .wait → s.state t = .wait ∧
    ((s'.task t).waitChan = (s.task t).waitChan ∨ (s'.task t).waitChan = none)
  listed : ∀ t, s'.state t = .wait → t ∈ s.taskList → t ∈ s'.taskList
  ticks : s'.sysTicks = s.sysTicks

namespace Calm

lemma refl (s : Kernel) : Calm s s := ⟨fun _ wait => ⟨wait,.inl rfl⟩,fun _ _ => id,rfl⟩

lemma trans (first : Calm s s') (second : Calm s' s'') : Calm s s'' where
  asleep t wait := by
    obtain ⟨wait',chan⟩ := second.asleep t wait
    obtain ⟨wait'',chan'⟩ := first.asleep t wait'
    refine ⟨wait'',?_⟩
    rcases chan with same | cleared
    · rwa [same]
    · exact .inr cleared
  listed t wait member := second.listed t wait (first.listed t (second.asleep t wait).1 member)
  ticks := second.ticks.trans first.ticks

section
variable (calm : Calm s s')
include calm

lemma other (task : s''.task = s'.task) (list : s''.taskList = s'.taskList)
    (ticks : s''.sysTicks = s'.sysTicks) : Calm s s'' := by
  refine ⟨fun t wait => ?_,fun t wait member => ?_,ticks.trans calm.ticks⟩
  · rw [state,task] at wait
    rw [task]
    exact calm.asleep t wait
  · rw [state,task] at wait
    rw [list]
    exact calm.listed t wait member

lemma frame (frame : Frame s' s'') : Calm s s'' := by
  have list : s''.taskList = s'.taskList := (congrArg taskList frame.other :)
  refine calm.trans ⟨fun t wait => ?_,fun t _ member => ?_,(congrArg sysTicks frame.other :)⟩
  · exact ⟨(frame.state t).symm.trans wait,.inl (congrArg Task.waitChan (frame.task t) :)⟩
  · rwa [list]

lemma enqueue (t : Tid) : Calm s (rqEnqueueLocked s' t) := calm.frame (enqueue_frame (.refl s') t)

lemma dequeue (t : Tid) : Calm s (rqDequeueLocked s' t) := calm.frame (dequeue_frame (.refl s') t)

lemma upd (keeps : (f (s'.task t)).state = .wait →
    (s'.task t).state = .wait ∧ ((f (s'.task t)).waitChan = (s'.task t).waitChan ∨ (f (s'.task t)).waitChan = none)) :
    Calm s (s'.upd t f) := by
  have awake (u : Tid) (wait : (s'.upd t f).state u = .wait) : s'.state u = .wait ∧
      (((s'.upd t f).task u).waitChan = (s'.task u).waitChan ∨ ((s'.upd t f).task u).waitChan = none) := by
    rw [state] at wait
    by_cases same : u = t
    · subst same
      rw [upd_self] at wait ⊢
      exact keeps wait
    · rw [upd_other s' f same] at wait ⊢
      exact ⟨wait,.inl rfl⟩
  exact calm.trans ⟨awake,fun _ _ => id,rfl⟩

lemma updRq (c : Cpu) (f : RunQueue → RunQueue) : Calm s (s'.updRq c f) := calm.other rfl rfl rfl

lemma setState (awake : st ≠ .wait) : Calm s (s'.setState t st) :=
  calm.upd fun wait => absurd wait awake

lemma makeReady (t : Tid) : Calm s (makeReady s' t) := (calm.setState (by decide)).enqueue t

lemma requeue (keeps : ∀ k, (f k).state = k.state ∧ (f k).waitChan = k.waitChan) : Calm s (requeue s' t f) := by
  have same (s : Kernel) : (f (s.task t)).state = .wait → (s.task t).state = .wait ∧
      ((f (s.task t)).waitChan = (s.task t).waitChan ∨ (f (s.task t)).waitChan = none) := fun wait =>
    ⟨(keeps _).1.symm.trans wait,.inl (keeps _).2⟩
  unfold Sched.requeue
  split
  · exact ((calm.dequeue t).upd (same _)).enqueue t
  · exact calm.upd (same _)

end

lemma calls (s : Kernel) : Routine.Calls (Calm s) where
  aside calm aside := calm.upd fun wait => ⟨(congrArg Task.state aside.core :).symm.trans wait,aside.waitChan⟩
  timers _ _ _ calm := calm.other rfl rfl rfl
  wake calm _ := calm.makeReady _
  boost calm _ := calm.upd fun wait => ⟨wait,.inl rfl⟩
  age {_ t} calm _ _ := ((calm.dequeue t).upd fun wait => ⟨wait,.inl rfl⟩).makeReady t
  migrate {_ _ _ t} _ calm _ := ((calm.dequeue t).upd fun wait => ⟨wait,.inl rfl⟩).enqueue t
  waking calm _ := calm.other rfl rfl rfl
  account c _ calm := calm.updRq c _

end Calm

section Events

lemma schedIoWakeup_calm (calm : Calm s s') (t : Tid) : Calm s (schedIoWakeup s' t) := by
  rw [schedIoWakeup_eq]
  split
  · exact (calm.upd fun wait => ⟨wait,.inl rfl⟩).makeReady t
  · exact calm.requeue fun _ => ⟨rfl,rfl⟩

lemma schedReady_calm (calm : Calm s s') (t : Tid) : Calm s (schedReady s' t) := by
  unfold schedReady
  split
  · exact calm
  · exact calm.makeReady t

lemma schedNewTask_calm (s : Kernel) : Calm s (schedNewTask s) where
  asleep t wait := by
    by_cases same : t = s.nextID
    · subst same
      simp [schedNewTask,state] at wait
    have task : (schedNewTask s).task t = s.task t := update_of_ne same ..
    rw [state,task] at wait
    rw [task]
    exact ⟨wait,.inl rfl⟩
  listed t _ member := mem_cons_of_mem _ member
  ticks := rfl

/-! The dispatcher. -/

lemma markOnCpu_calm (s : Kernel) (c : Cpu) : Calm s (markOnCpu s c) := by
  unfold markOnCpu
  split
  · exact (Calm.refl s).upd fun wait => ⟨wait,.inl rfl⟩
  · exact .refl s

/-- Only a finished task leaves the list. -/
lemma unlist_calm (exited : (s.state t).finished = true) (dels : List Tid) :
    Calm s { s with taskList := s.taskList.filter (· ≠ t), delList := dels } where
  asleep _ wait := ⟨wait,.inl rfl⟩
  listed u wait member := by
    refine mem_filter.mpr ⟨member,?_⟩
    have apart : u ≠ t := by
      rintro rfl
      change s.state u = .wait at wait
      rw [wait] at exited
      cases exited
    simpa using apart
  ticks := rfl

lemma reapTask_calm (s' : Kernel) (t : Tid) (calm : Calm s s') : Calm s (reapTask s' t) := by
  refine calm.trans ?_
  unfold reapTask
  split
  · exact .refl s'
  split
  · refine Calm.setState ?_ (by decide)
    split
    · exact .refl s'
    · exact (Calm.calls s').notifyExit (.refl s') _
  · split
    next dead => exact unlist_calm (by rw [dead.1]; rfl) _
    · exact .refl s'

lemma maintain_calm (s : Kernel) (c : Cpu) : Calm s (maintain s c) :=
  foldl reapTask_calm ((Calm.calls s).beforeReap (markOnCpu_calm s c) c) _

lemma decay_keeps (k : Task) : k.decay.state = k.state ∧ k.decay.waitChan = k.waitChan := by
  unfold Task.decay
  split <;> split <;> exact ⟨rfl,rfl⟩

lemma preempt_calm (calm : Calm s s') (c : Cpu) : Calm s (preempt s' c).2 := by
  unfold preempt
  split
  · exact calm
  rename_i t _
  split
  · split
    · exact calm
    have charged : Calm s (s'.upd t fun k => { k with quantum := k.quantum - 1 }) :=
      calm.upd fun wait => ⟨wait,.inl rfl⟩
    dsimp only
    split
    · exact charged
    · refine (charged.upd fun wait => ?_).makeReady t
      exact ⟨(decay_keeps _).1.symm.trans wait,.inl (decay_keeps _).2⟩
  · exact calm

lemma switchTo_calm (calm : Calm s s') (c : Cpu) (next : Tid) : Calm s (switchTo s' c next) := by
  unfold switchTo
  have current : Calm s { s' with current := update s'.current c (some next) } := calm.other rfl rfl rfl
  dsimp only
  split
  · refine Calm.upd current ?_
    exact nofun
  refine Calm.updRq ?_ _ _
  refine Calm.upd current ?_
  exact nofun

lemma pick_calm (calm : Calm s s') (c : Cpu) : Calm s (pick s' c).2 := by
  unfold pick
  split
  · split
    · exact calm
    split
    · exact calm
    · exact switchTo_calm calm _ _
  split
  · exact calm
  rename_i next _
  dsimp only
  split
  · exact calm.dequeue next
  split
  · exact (calm.dequeue next).makeReady next
  · exact switchTo_calm (calm.dequeue next) _ _

lemma schedCommon_calm (s : Kernel) (c : Cpu) : Calm s (schedCommon s c).2 := by
  have calm := preempt_calm (maintain_calm s c) c
  unfold schedCommon
  rcases run : preempt (maintain s c) c with ⟨_ | _,s'⟩ <;> rw [run] at calm
  · exact calm
  · exact pick_calm calm c

lemma waitFindChild_calm (s : Kernel) (c : Cpu) (want : Option Tid) (untraced : Bool) :
    Calm s (waitFindChild s c want untraced) := by
  unfold waitFindChild
  split
  · exact .refl s
  split
  · exact .refl s
  split
  next found =>
    simp only [collectable,decide_eq_true_eq] at found
    exact unlist_calm found.2.2.1 _
  · exact (Calm.refl s).upd fun wait => ⟨wait,.inl rfl⟩

/-- The event puts a task to sleep other than through a wait call. -/
def sleeps : Event → Bool
  | .waitEvent .. => true
  | .sleep _ st => st == .wait
  | .setStatus _ st => st == .wait
  | _ => false

lemma step_calm (s : Kernel) (e : Event) (awake : sleeps e = false) (untimed : e ≠ .tick) : Calm s (step s e) := by
  by_cases small : mild e = true
  · exact (Calm.calls s).step (.refl s) small
  cases e with
  | newTask => exact schedNewTask_calm s
  | fork c =>
    dsimp only [step,perform,procFork]
    split
    · exact .refl s
    · exact (schedNewTask_calm s).upd fun wait => ⟨wait,.inl rfl⟩
  | apEntry c =>
    dsimp only [step,perform,apEntry]
    split
    · exact .refl s
    have new : Calm s ((schedNewTask s).upd s.nextID fun k =>
        { k with priority := 0, basePriority := 0, state := .running }) := by
      refine Calm.upd (schedNewTask_calm s) ?_
      exact nofun
    exact new.other rfl rfl rfl
  | ready t => exact schedReady_calm (.refl s) t
  | dead t => exact ((Calm.refl s).dequeue t).setState (by decide)
  | sleep t st =>
    have other : st ≠ .wait := fun same => by simp [sleeps,same] at awake
    exact ((Calm.refl s).dequeue t).setState other
  | wakeup t => exact (Calm.refl s).setState (by decide)
  | zombie t => exact ((Calm.calls s).calloutStop ((Calm.refl s).dequeue t) _ _).setState (by decide)
  | stop t sig => exact (Calm.calls s).schedStop (((Calm.refl s).dequeue t).upd nofun)
  | piBoost t pri =>
    dsimp only [step,perform,schedPiBoost]
    split
    · exact (Calm.refl s).requeue fun _ => ⟨rfl,rfl⟩
    · exact .refl s
  | piRestore t =>
    dsimp only [step,perform,schedPiRestore]
    split
    · exact (Calm.refl s).requeue fun _ => ⟨rfl,rfl⟩
    · exact .refl s
  | ioWakeup t => exact schedIoWakeup_calm (.refl s) t
  | setPriority t pri => exact (Calm.refl s).requeue fun _ => ⟨rfl,rfl⟩
  | waitEvent => cases awake
  | yieldEnter c =>
    dsimp only [step,perform,yieldEnter]
    split
    · exact .refl s
    · exact (Calm.refl s).upd fun wait => ⟨wait,.inl rfl⟩
  | yieldReady c =>
    refine yieldReady_cases (.refl s) fun _ _ _ => ?_
    exact ((Calm.refl s).upd fun wait => ⟨wait,.inl rfl⟩).makeReady _
  | sched c => exact schedCommon_calm s c
  | resumeUnlock c =>
    dsimp only [step,perform,schedResumeUnlock]
    split
    · exact .refl s
    · exact ((Calm.refl s).updRq _ _).upd fun wait => ⟨wait,.inl rfl⟩
  | setStatus pid st =>
    have other : st ≠ .wait := fun same => by simp [sleeps,same] at awake
    refine schedSetStatus_cases (.refl s) (fun _ => ?_) (fun _ => schedReady_calm (.refl s) _) fun _ => ?_
    · exact ((Calm.refl s).dequeue _).setState (by decide)
    · exact ((Calm.refl s).dequeue _).setState other
  | runWaking i =>
    dsimp only [step,perform,runWaking]
    split
    · exact .refl s
    · refine schedReady_calm ?_ _
      exact (Calm.refl s).other rfl rfl rfl
  | reparent dying =>
    exact foldl ((Calm.calls s).adopt (fun _ calm => calm.upd fun wait => ⟨wait,.inl rfl⟩) _ dying) (.refl s) _
  | collect c want untraced => exact waitFindChild_calm s c want untraced
  | tick => exact absurd rfl untimed
  | _ => exact absurd rfl small

end Events

/-- A call of `sched_wait_event_timeout` under way. `entered` counts the ticks that had
passed when it computed its deadline. -/
structure Call where
  cond : Nat
  ticks : UInt32
  deadline : UInt32
  entered : Nat

/-- The kernel, the conditions, and who waits for and who announces them. `slept` is the
condition whose check sent a task to sleep last; `announcing` are the wakers that have made
a condition true and still have to call `sched_wakeup_chan`. -/
structure World where
  kernel : Kernel
  cond : Nat → Bool
  call : Tid → Option Call
  slept : Tid → Option Nat
  announcing : List Nat
  time : Nat

/-- The check of the condition and of the deadline, and the sleep, are one locked section. -/
inductive Act
  | enter (c : Cpu) (cond : Nat) (ticks : UInt32)
  | round (c : Cpu)
  | announce (cond : Nat)
  | wakeup (i : Nat)
  | consume (cond : Nat)
  | kernel (e : Event)

def boot (acctPerCpu : Bool) (cond : Nat → Bool) : World :=
    ⟨Sched.boot acctPerCpu,cond,fun _ => none,fun _ => none,[],0⟩

/-- `waitMark` on a channel that may be NULL. -/
def waitMarkOn (s : Kernel) (t : Tid) (chan : Option Chan) (ticks deadline : UInt32) : Kernel :=
  match chan with
  | some chan => waitMark s t chan ticks deadline
  | none => (waitMark s t 0 ticks deadline).upd t fun k => { k with waitChan := none }

def elapses : Event → Nat
  | .tick => 1
  | _ => 0

/-- `sched_wakeup_chan`, which ignores NULL. -/
def wakeupChanOn (s : Kernel) (chan : Option Chan) : Kernel := chan.elim s (schedWakeupChan s)

variable (chanOf : Nat → Option Chan)

/-- One locked section of the loop of the running task, and what the call returns if it ends. -/
def round (w : World) (c : Cpu) : World × Option Bool :=
  match w.kernel.current c with
  | none => (w,none)
  | some t =>
    match w.call t with
    | none => (w,none)
    | some call =>
      -- a task that has exited and been unlinked never gets back into the loop
      if t ∉ w.kernel.taskList then (w,none)
      else if w.cond call.cond then ({ w with call := update w.call t none },some false)
      else if call.ticks ≠ 0 ∧ reached w.kernel.sysTicks call.deadline then
        ({ w with call := update w.call t none },some true)
      else
        ({ w with
          kernel := (schedCommon (waitMarkOn w.kernel t (chanOf call.cond) call.ticks call.deadline) c).2
          slept := update w.slept t (some call.cond) },none)

def step (w : World) : Act → World
  | .enter c cond ticks =>
    match w.kernel.current c with
    | none => w
    | some t => { w with call := update w.call t (some ⟨cond,ticks,w.kernel.sysTicks + ticks,w.time⟩) }
  | .round c => (round chanOf w c).1
  | .announce cond => { w with cond := update w.cond cond true, announcing := cond :: w.announcing }
  | .wakeup i =>
    match w.announcing[i]? with
    | none => w
    | some cond => { w with kernel := wakeupChanOn w.kernel (chanOf cond), announcing := w.announcing.eraseIdx i }
  | .consume cond => { w with cond := update w.cond cond false }
  | .kernel e =>
    if sleeps e then w else { w with kernel := Sched.step w.kernel e, time := w.time + elapses e }

/-- The task sleeps on the channel, for the condition. -/
structure Asleep (w : World) (t : Tid) (chan : Chan) (cond : Nat) : Prop where
  wait : w.kernel.state t = .wait
  chan : (w.kernel.task t).waitChan = some chan
  slept : w.slept t = some cond

/-- Whoever sleeps on a channel for a condition that holds will still be announced to, and
is where the scan finds it; and the clock is the number of ticks. -/
structure Good (w : World) : Prop where
  heard : ∀ t chan cond, chanOf cond = some chan → Asleep w t chan cond → w.cond cond = true →
    ∃ other ∈ w.announcing, chanOf other = some chan
  listed : ∀ t cond, w.kernel.state t = .wait → w.slept t = some cond → t ∈ w.kernel.taskList
  clock : w.kernel.sysTicks = ofNat w.time
  calls : ∀ t call, w.call t = some call →
    call.entered ≤ w.time ∧ call.deadline = ofNat call.entered + call.ticks

section

variable {chanOf} (good : Good chanOf w)
include good

lemma Good.calm (calm : Calm w.kernel s) : Good chanOf { w with kernel := s } where
  heard t chan cond owner asleep holds := by
    obtain ⟨wait,same | cleared⟩ := calm.asleep t asleep.wait
    · exact good.heard t chan cond owner ⟨wait,same.symm.trans asleep.chan,asleep.slept⟩ holds
    · cases cleared.symm.trans asleep.chan
  listed t cond wait slept := calm.listed t wait (good.listed t cond (calm.asleep t wait).1 slept)
  clock := calm.ticks.trans good.clock
  calls := good.calls

lemma Good.tick : Good chanOf { w with kernel := Sched.step w.kernel .tick, time := w.time + 1 } where
  heard t chan cond owner asleep := good.heard t chan cond owner ⟨asleep.wait,asleep.chan,asleep.slept⟩
  listed := good.listed
  clock := by
    change w.kernel.sysTicks + 1 = _
    rw [good.clock,ofNat_add]
    rfl
  calls t call here := ⟨Nat.le_succ_of_le (good.calls t call here).1,(good.calls t call here).2⟩

lemma Good.kernel (e : Event) : Good chanOf (step chanOf w (.kernel e)) := by
  rw [step]
  split
  · exact good
  rename_i awake
  by_cases tick : e = .tick
  · subst tick
    exact good.tick
  have still : elapses e = 0 := by cases e <;> first | rfl | exact absurd rfl tick
  rw [still]
  exact good.calm (step_calm w.kernel e (Bool.eq_false_iff.mpr awake) tick)

lemma Good.announce (cond : Nat) : Good chanOf (step chanOf w (.announce cond)) where
  heard t chan other owner asleep holds := by
    by_cases same : other = cond
    · subst same
      exact ⟨other,mem_cons_self,owner⟩
    have before : w.cond other = true := by
      change update w.cond cond true other = true at holds
      rwa [update_of_ne same] at holds
    obtain ⟨waker,pending,here⟩ := good.heard t chan other owner ⟨asleep.wait,asleep.chan,asleep.slept⟩ before
    exact ⟨waker,.tail cond pending,here⟩
  listed := good.listed
  clock := good.clock
  calls := good.calls

lemma Good.consume (cond : Nat) : Good chanOf (step chanOf w (.consume cond)) where
  heard t chan other owner asleep holds := by
    change update w.cond cond false other = true at holds
    have apart : other ≠ cond := by
      rintro rfl
      rw [update_self] at holds
      cases holds
    rw [update_of_ne apart] at holds
    exact good.heard t chan other owner ⟨asleep.wait,asleep.chan,asleep.slept⟩ holds
  listed := good.listed
  clock := good.clock
  calls := good.calls

lemma Good.enter (c : Cpu) (cond : Nat) (ticks : UInt32) : Good chanOf (step chanOf w (.enter c cond ticks)) := by
  rw [step]
  split
  · exact good
  rename_i t _
  refine ⟨fun u chan other owner asleep => ?_,good.listed,good.clock,fun u call here => ?_⟩
  · exact good.heard u chan other owner ⟨asleep.wait,asleep.chan,asleep.slept⟩
  by_cases same : u = t
  · subst same
    change update w.call u _ u = _ at here
    rw [update_self] at here
    cases here
    exact ⟨le_rfl,by rw [good.clock]⟩
  · change update w.call t _ u = _ at here
    rw [update_of_ne same] at here
    exact good.calls u call here

lemma Good.leave (t : Tid) : Good chanOf { w with call := update w.call t none } where
  heard u chan other owner asleep := good.heard u chan other owner ⟨asleep.wait,asleep.chan,asleep.slept⟩
  listed := good.listed
  clock := good.clock
  calls u call here := by
    by_cases same : u = t
    · subst same
      change update w.call u none u = _ at here
      rw [update_self] at here
      cases here
    · change update w.call t none u = _ at here
      rw [update_of_ne same] at here
      exact good.calls u call here

omit good in
lemma waitMarkOn_other (s : Kernel) (t : Tid) (chan : Option Chan) (ticks deadline : UInt32) :
    (∀ u, u ≠ t → (waitMarkOn s t chan ticks deadline).state u = s.state u ∧
      ((waitMarkOn s t chan ticks deadline).task u).waitChan = (s.task u).waitChan) ∧
    (waitMarkOn s t chan ticks deadline).taskList = s.taskList ∧
    (waitMarkOn s t chan ticks deadline).sysTicks = s.sysTicks := by
  have frame := dequeue_frame (.refl s) t
  have marked (chan : Chan) : (∀ u, u ≠ t → (waitMark s t chan ticks deadline).state u = s.state u ∧
      ((waitMark s t chan ticks deadline).task u).waitChan = (s.task u).waitChan) ∧
      (waitMark s t chan ticks deadline).taskList = s.taskList ∧
      (waitMark s t chan ticks deadline).sysTicks = s.sysTicks := by
    have list : (rqDequeueLocked s t).taskList = s.taskList := (congrArg taskList frame.other :)
    have clock : (rqDequeueLocked s t).sysTicks = s.sysTicks := (congrArg sysTicks frame.other :)
    have task (u : Tid) (apart : u ≠ t) :
        (waitMark s t chan ticks deadline).task u = (rqDequeueLocked s t).task u := by
      unfold waitMark
      rw [setState,upd_other _ _ apart]
      have awake : ((rqDequeueLocked s t).upd t fun k => { k with waitChan := some chan }).task u =
          (rqDequeueLocked s t).task u := upd_other _ _ apart
      split <;> exact awake
    refine ⟨fun u apart => ?_,?_,?_⟩
    · rw [state,task u apart]
      exact ⟨frame.state u,(congrArg Task.waitChan (frame.task u) :)⟩
    · rw [← list]
      unfold waitMark
      split <;> rfl
    · rw [← clock]
      unfold waitMark
      split <;> rfl
  cases chan with
  | some chan => exact marked chan
  | none =>
    refine ⟨fun u apart => ?_,(marked 0).2⟩
    rw [state,waitMarkOn,upd_other _ _ apart]
    exact (marked 0).1 u apart

lemma Good.sleep {t : Tid} {call : Call} (c : Cpu) (listed : t ∈ w.kernel.taskList) (fails : w.cond call.cond = false) :
    Good chanOf { w with
      kernel := (schedCommon (waitMarkOn w.kernel t (chanOf call.cond) call.ticks call.deadline) c).2
      slept := update w.slept t (some call.cond) } := by
  obtain ⟨others,list,clock⟩ := waitMarkOn_other w.kernel t (chanOf call.cond) call.ticks call.deadline
  have marked : Good chanOf { w with
      kernel := waitMarkOn w.kernel t (chanOf call.cond) call.ticks call.deadline
      slept := update w.slept t (some call.cond) } := by
    refine ⟨fun u chan cond owner asleep holds => ?_,fun u cond wait slept => ?_,clock.trans good.clock,good.calls⟩
    · by_cases same : u = t
      · have slept := asleep.slept
        rw [same] at slept
        change update w.slept t (some call.cond) t = some cond at slept
        rw [update_self] at slept
        cases slept
        cases fails.symm.trans holds
      · have slept := asleep.slept
        change update w.slept t (some call.cond) u = some cond at slept
        rw [update_of_ne same] at slept
        obtain ⟨state,waitChan⟩ := others u same
        exact good.heard u chan cond owner ⟨state.symm.trans asleep.wait,waitChan.symm.trans asleep.chan,slept⟩ holds
    · rw [list]
      by_cases same : u = t
      · rwa [same]
      change update w.slept t (some call.cond) u = some cond at slept
      rw [update_of_ne same] at slept
      exact good.listed u cond ((others u same).1.symm.trans wait) slept
  exact marked.calm (schedCommon_calm _ c)

lemma Good.round (c : Cpu) : Good chanOf (step chanOf w (.round c)) := by
  rw [step,Wait.round]
  split
  · exact good
  split
  · exact good
  rename_i t _ _ call _
  split
  · exact good
  rename_i listed
  split
  · exact good.leave t
  rename_i fails
  split
  · exact good.leave t
  · exact good.sleep c (Decidable.not_not.mp listed) (Bool.eq_false_iff.mpr fails)

def Deaf (s : Kernel) (chan : Chan) (t : Tid) : Prop := s.state t = .wait → (s.task t).waitChan ≠ some chan

omit good in
lemma Deaf.calm (deaf : Deaf s chan t) (calm : Calm s s') : Deaf s' chan t := by
  intro wait here
  obtain ⟨before,same | cleared⟩ := calm.asleep t wait
  · exact deaf before (same.symm.trans here)
  · cases cleared.symm.trans here

omit good in
lemma wakeChan_deaf (s : Kernel) (chan : Chan) (t : Tid) : Deaf (wakeChan chan s t) chan t := by
  intro wait
  unfold wakeChan at wait ⊢
  split at wait
  next here =>
    rw [if_pos here]
    dsimp only at wait ⊢
    split at wait
    · simp at wait
    rename_i awake
    rw [if_neg awake]
    simp [calloutStop]
  next other => rwa [if_neg other]

omit good in
lemma scan_deaf (chan : Chan) (l : List Tid) (s : Kernel) (member : t ∈ l) :
    Deaf (l.foldl (wakeChan chan) s) chan t := by
  induction l generalizing s with
  | nil => cases member
  | cons u l ih =>
    rcases mem_cons.mp member with rfl | member
    · exact (wakeChan_deaf s chan t).calm (foldl ((Calm.calls _).wakeChan chan) (.refl _) l)
    · exact ih _ member

lemma Good.wakeup (i : Nat) : Good chanOf (step chanOf w (.wakeup i)) := by
  rw [step]
  split
  · exact good
  rename_i waker here
  have calm : Calm w.kernel (wakeupChanOn w.kernel (chanOf waker)) := by
    cases chanOf waker with
    | none => exact .refl w.kernel
    | some chan => exact foldl ((Calm.calls _).wakeChan chan) (.refl w.kernel) _
  have after := good.calm calm
  refine ⟨fun t chan cond owner asleep holds => ?_,after.listed,after.clock,after.calls⟩
  obtain ⟨other,pending,announces⟩ := after.heard t chan cond owner ⟨asleep.wait,asleep.chan,asleep.slept⟩ holds
  have apart : other ≠ waker := by
    rintro rfl
    have listed := good.listed t cond (calm.asleep t asleep.wait).1 asleep.slept
    have deaf := scan_deaf chan w.kernel.taskList w.kernel listed
    have wait := asleep.wait
    have on := asleep.chan
    simp only [announces,wakeupChanOn,Option.elim_some] at wait on
    exact deaf wait on
  obtain ⟨j,at_j⟩ := mem_iff_getElem?.mp pending
  refine ⟨other,mem_eraseIdx_iff_getElem?.mpr ⟨j,?_,at_j⟩,announces⟩
  rintro rfl
  cases at_j.symm.trans here
  exact apart rfl

lemma Good.step (a : Act) : Good chanOf (step chanOf w a) := by
  cases a with
  | enter c cond ticks => exact good.enter c cond ticks
  | round c => exact good.round c
  | announce cond => exact good.announce cond
  | wakeup i => exact good.wakeup i
  | consume cond => exact good.consume cond
  | kernel e => exact good.kernel e

/-- A call that times out found its condition false, and all of its ticks have passed. -/
lemma Good.timeout (current : w.kernel.current c = some t) (here : w.call t = some call)
    (short : call.ticks.toNat < 2^31) (result : (Wait.round chanOf w c).2 = some true) :
    w.cond call.cond = false ∧ call.entered + call.ticks.toNat ≤ w.time := by
  obtain ⟨before,deadline⟩ := good.calls t call here
  rw [Wait.round] at result
  simp only [current,here] at result
  split at result
  · cases result
  split at result
  · cases result
  rename_i fails
  split at result
  next due =>
    refine ⟨Bool.eq_false_iff.mpr fails,?_⟩
    have late := due.2
    rw [reached,good.clock,deadline,decide_eq_true_eq] at late
    have left : UInt32.ofNat w.time - (UInt32.ofNat call.entered + call.ticks) =
        UInt32.ofNat (w.time - call.entered) - call.ticks := by
      have elapsed : UInt32.ofNat w.time = UInt32.ofNat (w.time - call.entered) + UInt32.ofNat call.entered := by
        rw [← UInt32.ofNat_add,Nat.sub_add_cancel before]
      grind
    rw [left,UInt32.toNat_sub,UInt32.toNat_ofNat'] at late
    omega
  · cases result

end

lemma boot_good (acctPerCpu : Bool) (cond : Nat → Bool) : Good chanOf (boot acctPerCpu cond) where
  heard _ _ _ _ asleep := nomatch asleep.slept
  listed _ _ _ slept := nomatch slept
  clock := rfl
  calls _ _ here := nomatch here

/-- In every interleaving, once all wakers are done nobody sleeps on a channel while the
condition it sleeps for holds; and a call of up to 2^31 - 1 ticks that returns 1 found its
condition false with all of its ticks passed. -/
theorem no_wakeup_lost (acctPerCpu : Bool) (cond : Nat → Bool) (acts : List Act) :
    let w := Run.after (step chanOf) (boot acctPerCpu cond) acts
    (w.announcing = [] → ∀ t chan k, chanOf k = some chan → Asleep w t chan k → w.cond k = false) ∧
    ∀ c t call, w.kernel.current c = some t → w.call t = some call → call.ticks ≠ 0 → call.ticks.toNat < 2^31 →
      (round chanOf w c).2 = some true → w.cond call.cond = false ∧ call.entered + call.ticks.toNat ≤ w.time := by
  intro w
  have good : Good chanOf w :=
    Run.after_invariant (I := Good chanOf) (fun _ a good => good.step a) (boot_good chanOf acctPerCpu cond) acts
  refine ⟨fun done t chan k owner asleep => ?_,fun c t call current here _ short result => ?_⟩
  · rw [Bool.eq_false_iff]
    intro holds
    obtain ⟨_,pending,_⟩ := good.heard t chan k owner asleep holds
    rw [done] at pending
    cases pending
  · exact good.timeout current here short result

/-- The boot task waits on channel 7 for at most two ticks. -/
def shortWait : List Act := [.enter 0 7 2,.round 0]

theorem no_wakeup_lost_short : (Run.after (step some) (boot true fun _ => false) shortWait).cond 7 = false ∧
    (round some (Run.after (step some) (boot true fun _ => false) (shortWait ++ [.kernel .tick,.kernel .tick])) 0).2 =
      some true ∧
    2 ≤ (Run.after (step some) (boot true fun _ => false) (shortWait ++ [.kernel .tick,.kernel .tick])).time := by
  have asleep : Asleep (Run.after (step some) (boot true fun _ => false) shortWait) 1 7 7 :=
    ⟨by decide +kernel,by decide +kernel,by decide +kernel⟩
  have slept := (no_wakeup_lost some true (fun _ => false) shortWait).1 (by decide +kernel) 1 7 7 rfl asleep
  have late := (no_wakeup_lost some true (fun _ => false) (shortWait ++ [.kernel .tick,.kernel .tick])).2
    0 1 ⟨7,2,2,0⟩ (by decide +kernel) rfl (by decide) (by decide) (by decide +kernel)
  exact ⟨slept,by decide +kernel,late.2⟩

end UbixOS.Sched.Wait
