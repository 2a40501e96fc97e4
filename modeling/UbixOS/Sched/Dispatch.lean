import UbixOS.Sched.Core

/-! The dispatcher (aging, balancing, callouts, reaping, quantum and pick), the
calls around it, and the events of a running system. -/
namespace UbixOS.Sched

def agingInterval : UInt32 := 10
def agingStarve : UInt32 := 40

def quantumForPriority (pri : Nat) : Nat :=
  if pri ≥ 31 then 0 else if pri ≥ 24 then 20 else if pri ≥ 16 then 10
  else if pri ≥ 8 then 6 else if pri ≥ 1 then 2 else 1

def markOnCpu (s : Kernel) (c : Cpu) : Kernel :=
  match s.current c with
  | some t => s.upd t fun k => { k with onCpu := true }
  | none => s

/-- One task of the starvation scan. -/
def ageTask (now : UInt32) (s : Kernel) (t : Tid) : Kernel :=
  if s.state t ≠ .ready ∨ (s.task t).onRq = false ∨ (s.task t).lastRunTick = 0 then s
  else if now - (s.task t).lastRunTick < agingStarve then s
  else if (s.task t).priority < min (u8 ((s.task t).basePriority + 8)) 23 then
    makeReady ((rqDequeueLocked s t).upd t fun k => { k with priority := u8 (k.priority + 1) }) t
  else s

def age (s : Kernel) : Kernel :=
  if s.sysTicks - s.agingLast ≥ agingInterval then
    s.taskList.foldl (ageTask s.sysTicks) { s with agingLast := s.sysTicks }
  else s

def acctCpu (s : Kernel) (c : Cpu) : Cpu := if s.acctPerCpu then c else 0

def recipient (s : Kernel) : Option Cpu :=
  (List.finRange 8).find? fun c => (c = 0 ∨ (s.rq c).online) ∧ (s.rq c).runningIdle ∧ (s.rq c).nrRunning = 0

/-- The other online CPU with the most queued tasks, and how many it has. -/
def donor (s : Kernel) (recip : Cpu) : Option Cpu × Nat :=
  (List.finRange 8).foldl (fun best c =>
    if c ≠ recip ∧ (c = 0 ∨ (s.rq c).online) ∧ (s.rq c).nrRunning > best.2 then (some c,(s.rq c).nrRunning)
    else best) (none,0)

/-- Walks a bucket from its head until a task fits or the head comes round again. -/
def walkRing (s : Kernel) (fits : Tid → Bool) (head : Tid) : Nat → Tid → Option Tid
  | 0, _ => none
  | n+1, it =>
    if fits it then some it
    else match (s.task it).rqNext with
      | some next => if next = head then none else walkRing s fits head n next
      | none => none

def migratable (s : Kernel) (now : UInt32) (t : Tid) : Bool :=
  !(s.task t).onCpu && now - (s.task t).lastMigrateTick ≥ migrateCooldown

/-- The first task that may move, over the bands below 24 from the least urgent up. -/
def victim (s : Kernel) (now : UInt32) (c : Cpu) : Option Tid :=
  (List.range 24).findSome? fun b =>
    if (s.rq c).readyMask.getLsbD b then
      ((s.rq c).bucket b).bind fun head => walkRing s (migratable s now) head s.nextID head
    else none

def migrate (s : Kernel) (now : UInt32) (recip : Cpu) (t : Tid) : Kernel :=
  rqEnqueueLocked ((rqDequeueLocked s t).upd t fun k => { k with rqCpu := some recip, lastMigrateTick := now }) t

def schedBalanceLocked (s : Kernel) (c : Cpu) : Kernel :=
  let now := s.sysTicks
  if acctCpu s c ≠ 0 ∨ now < balanceWarmup ∨ now - s.lastBalance < balanceInterval then s
  else
    let s := { s with lastBalance := now }
    match recipient s with
    | none => s
    | some recip => match (donor s recip).1.bind (victim s now) with
      | none => s
      | some t => migrate s now recip t

/-- Tells the parent of an exited task, which is woken if it sleeps. -/
def notifyExit (s : Kernel) (parent : Tid) : Kernel :=
  if (s.state parent).finished then s
  else
    let s := postBit s parent SIGCHLD
    if (s.state parent).asleep then makeReady s parent else s

/-- One task of the reaper's pass. -/
def reapTask (s : Kernel) (t : Tid) : Kernel :=
  if (s.task t).onCpu then s
  else if s.state t = .zombie then
    (match (s.task t).parent with
      | none => s
      | some parent => notifyExit s parent).setState t .dead
  else if s.state t = .dead ∧ ((s.task t).parent.all fun p => (s.state p).finished) then
    { s with taskList := s.taskList.filter (· ≠ t), delList := t :: s.delList }
  else s

def reap (s : Kernel) : Kernel := s.taskList.foldl reapTask s

/-- Boost countdown or decay of a task whose time slice has run out. -/
def Task.decay (k : Task) : Task :=
  if k.boostQuanta > 0 then
    if k.boostQuanta - 1 = 0 then { k with boostQuanta := 0, priority := k.basePriority }
    else { k with boostQuanta := k.boostQuanta - 1 }
  else if k.priority > k.basePriority then
    -- `(u_int8_t)(priority - 2)`, which wraps below 2
    let decayed := u8 (k.priority + 254)
    { k with priority := if decayed > k.basePriority then decayed else k.basePriority }
  else k

def Task.expire (k : Task) : Task := { k.decay with quantum := quantumForPriority k.decay.priority }

/-- Whether the CPU goes on to pick a task, after the running one was charged for its tick. -/
def preempt (s : Kernel) (c : Cpu) : Bool × Kernel :=
  match s.current c with
  | none => (true,s)
  | some t =>
    if s.state t = .running ∧ s.idle c ≠ some t then
      if (s.task t).priority ≥ 31 then (false,s)
      else
        let s := s.upd t fun k => { k with quantum := k.quantum - 1 }
        if (s.task t).quantum > 0 then (false,s) else (true,makeReady (s.upd t Task.expire) t)
    else (true,s)

/-- `31 - __builtin_clz(mask)` -/
def highestBit (mask : BitVec 32) : Nat := mask.toNat.log2

def switchTo (s : Kernel) (c : Cpu) (next : Tid) : Kernel :=
  let prev := s.current c
  let s := { s with current := Function.update s.current c (some next) }
  let s := s.upd next fun k =>
    { k with
      onCpu := true
      lastRunTick := s.sysTicks
      quantum := if k.quantum = 0 then quantumForPriority k.priority else k.quantum
      state := .running }
  if prev = some next then s else s.updRq c fun rq => { rq with switchingFrom := prev }

/-- The task the CPU switches to, if any. -/
def pick (s : Kernel) (c : Cpu) : Option Tid × Kernel :=
  if (s.rq c).readyMask = 0 then
    match s.idle c with
    | none => (none,s)
    | some i => if s.current c = some i then (none,s) else (some i,switchTo s c i)
  else match (s.rq c).bucket (highestBit (s.rq c).readyMask) with
    | none => (none,s)
    | some next =>
      let s := rqDequeueLocked s next
      if (s.state next).finished then (none,s)
      else if s.current c ≠ some next ∧ (s.task next).onCpu then (none,makeReady s next)
      else (some next,switchTo s c next)

/-- What the dispatcher does before it looks at the running task. -/
def maintain (s : Kernel) (c : Cpu) : Kernel :=
  let s := schedBalanceLocked (age (markOnCpu s c)) c
  reap (calloutRunExpired s s.sysTicks)

def schedCommon (s : Kernel) (c : Cpu) : Option Tid × Kernel :=
  match preempt (maintain s c) c with
  | (false,s) => (none,s)
  | (true,s) => pick s c

/-- First thing after a switch on this CPU: the task left behind is saved. -/
def schedResumeUnlock (s : Kernel) (c : Cpu) : Kernel :=
  match (s.rq c).switchingFrom with
  | none => s
  | some prev => (s.updRq c fun rq => { rq with switchingFrom := none }).upd prev fun k => { k with onCpu := false }

/-- One round of the loop of `sched_wait_event_timeout`, up to the switch away. -/
def waitMark (s : Kernel) (t : Tid) (chan : Chan) (ticks deadline : UInt32) : Kernel :=
  let s := (rqDequeueLocked s t).upd t fun k => { k with waitChan := some chan }
  (if ticks ≠ 0 then calloutReset s .sleepWake t (deadline - s.sysTicks) else s).setState t .wait

def schedWaitEventTimeout (s : Kernel) (c : Cpu) (chan : Chan) (cond : Bool) (ticks deadline : UInt32) :
    Option Tid × Kernel :=
  match s.current c with
  | none => (none,s)
  | some t =>
    if cond ∨ (ticks ≠ 0 ∧ reached s.sysTicks deadline) then (none,s)
    else schedCommon (waitMark s t chan ticks deadline) c

/-- The last locked section of `sched_wait_event_timeout`. -/
def waitDone (s : Kernel) (c : Cpu) : Kernel :=
  match s.current c with
  | none => s
  | some t => calloutStop s .sleepWake t

/-- `sched_yield` up to its test of the priority, which takes no lock. -/
def yieldEnter (s : Kernel) (c : Cpu) : Kernel :=
  match s.current c with
  | none => s
  | some t => s.upd t fun k => { k with quantum := 0, yielding := k.priority ≥ 31 }

/-- The locked section of `sched_yield` for a realtime task. -/
def yieldReady (s : Kernel) (c : Cpu) : Kernel :=
  match s.current c with
  | none => s
  | some t => if (s.task t).yielding then makeReady (s.upd t fun k => { k with yielding := false }) t else s

def schedAccountTick (s : Kernel) (c : Cpu) : Kernel :=
  s.updRq (acctCpu s c) fun rq => { rq with
    runningIdle := (s.current c).all (fun t => s.idleTask = some t ∨ (s.acctPerCpu ∧ s.idle c = some t)) }

/-- An application processor makes itself an idle task and enters the scheduler. -/
def apEntry (s : Kernel) (c : Cpu) : Kernel :=
  if s.current c ≠ none ∨ s.idle c ≠ none then s
  else
    let i := s.nextID
    let s := (schedNewTask s).upd i fun k => { k with priority := 0, basePriority := 0, state := .running }
    { (s.updRq c fun rq => { rq with online := true }) with
      current := Function.update s.current c (some i)
      idle := Function.update s.idle c (some i) }

/-- Posts a signal. A continued task is tested here, before `sched_ready` takes the lock. -/
def postSignal (s : Kernel) (t : Tid) (sig : Nat) : Kernel :=
  let s := if sig = SIGCONT then
      let s := s.upd t fun k => { k with sigPending := k.sigPending &&& ~~~sigPendStop }
      if s.state t = .stopped then { (s.upd t fun k => { k with stoppedSig := 0 }) with waking := t :: s.waking } else s
    else s
  postBit s t sig

def signalPost (s : Kernel) (pid sig : Nat) : Kernel :=
  if sig < 1 ∨ sig > 31 then s
  else match schedFindTask s pid with
    | none => s
    | some t => postSignal s t sig

/-- One task of the scan of `signal_post_pgrp`. -/
def signalPostPgrp (s : Kernel) (pgrp sig : Nat) (t : Tid) : Kernel :=
  if sig < 1 ∨ sig > 31 ∨ pgrp = 0 ∨ t ∉ s.taskList ∨ s.state t = .dead ∨ (s.task t).pgrp ≠ pgrp then s
  else postSignal s t sig

/-- One entry of a wait queue in `wake_up` (or `wake_up_interruptible`). -/
def wakeUp (s : Kernel) (t : Tid) (interruptibleOnly : Bool) : Kernel :=
  if s.state t = .interruptible ∨ (interruptibleOnly = false ∧ s.state t = .uninterruptible) then
    { s with waking := t :: s.waking }
  else s

/-- One of the `sched_ready` calls under way gets the lock. -/
def runWaking (s : Kernel) (i : Nat) : Kernel :=
  match s.waking[i]? with
  | none => s
  | some t => schedReady { s with waking := s.waking.eraseIdx i } t

def schedSetStatus (s : Kernel) (pid : Tid) (st : TState) : Kernel :=
  match schedFindTask s pid with
  | none => s
  | some t => if st = .dead then schedDead s t else if st = .ready then schedReady s t else schedSleep s t st

def collectable (s : Kernel) (parent t : Tid) (want : Option Tid) : Bool :=
  (s.task t).parent = some parent ∧ want.all (· = t) ∧ (s.state t).finished ∧ (s.task t).onCpu = false

def stopReport (s : Kernel) (parent t : Tid) (want : Option Tid) (untraced : Bool) : Bool :=
  (s.task t).parent = some parent ∧ want.all (· = t) ∧ untraced ∧ s.state t = .stopped ∧ (s.task t).stoppedSig ≠ 0

def waitFindChild (s : Kernel) (c : Cpu) (want : Option Tid) (untraced : Bool) : Kernel :=
  match s.current c with
  | none => s
  | some p => match s.taskList.find? fun t => collectable s p t want || stopReport s p t want untraced with
    | none => s
    | some t =>
      if collectable s p t want then { s with taskList := s.taskList.filter (· ≠ t) }
      else s.upd t fun k => { k with stoppedSig := 0 }

inductive Event
  | newTask
  | fork (c : Cpu)
  | apEntry (c : Cpu)
  | ready (t : Tid)
  | wakeTask (t : Tid)
  | dead (t : Tid)
  | sleep (t : Tid) (st : TState)
  | wakeup (t : Tid)
  | zombie (t : Tid)
  | stop (t : Tid) (sig : Nat)
  | piBoost (t : Tid) (pri : Nat)
  | piRestore (t : Tid)
  | ioWakeup (t : Tid)
  | setPriority (t : Tid) (pri : Nat)
  | waitEvent (c : Cpu) (chan : Chan) (cond : Bool) (ticks deadline : UInt32)
  | waitDone (c : Cpu)
  | wakeupChan (chan : Chan)
  | yieldEnter (c : Cpu)
  | yieldReady (c : Cpu)
  | sched (c : Cpu)
  | resumeUnlock (c : Cpu)
  | setStatus (pid : Tid) (st : TState)
  | signalPost (pid sig : Nat)
  | signalPostPgrp (pgrp sig : Nat) (t : Tid)
  | wakeUp (t : Tid) (interruptibleOnly : Bool)
  | runWaking (i : Nat)
  | reparent (dying : Tid)
  | collect (c : Cpu) (want : Option Tid) (untraced : Bool)
  | setitimer (t : Tid) (value interval : UInt32)
  | itimerExit (t : Tid)
  | accountTick (c : Cpu)
  | tick

/-- The task an event switches a CPU to, if any, and the state after it. -/
def perform (s : Kernel) : Event → Option Tid × Kernel
  | .newTask => (none,schedNewTask s)
  | .fork c => (none,procFork s c)
  | .apEntry c => (none,apEntry s c)
  | .ready t => (none,schedReady s t)
  | .wakeTask t => (none,schedWakeTask s t)
  | .dead t => (none,schedDead s t)
  | .sleep t st => (none,schedSleep s t st)
  | .wakeup t => (none,schedWakeup s t)
  | .zombie t => (none,schedZombie s t)
  | .stop t sig => (none,schedStop s t sig)
  | .piBoost t pri => (none,schedPiBoost s t pri)
  | .piRestore t => (none,schedPiRestore s t)
  | .ioWakeup t => (none,schedIoWakeup s t)
  | .setPriority t pri => (none,schedSetPriority s t pri)
  | .waitEvent c chan cond ticks deadline => schedWaitEventTimeout s c chan cond ticks deadline
  | .waitDone c => (none,waitDone s c)
  | .wakeupChan chan => (none,schedWakeupChan s chan)
  | .yieldEnter c => (none,yieldEnter s c)
  | .yieldReady c => (none,yieldReady s c)
  | .sched c => schedCommon s c
  | .resumeUnlock c => (none,schedResumeUnlock s c)
  | .setStatus pid st => (none,schedSetStatus s pid st)
  | .signalPost pid sig => (none,signalPost s pid sig)
  | .signalPostPgrp pgrp sig t => (none,signalPostPgrp s pgrp sig t)
  | .wakeUp t interruptibleOnly => (none,wakeUp s t interruptibleOnly)
  | .runWaking i => (none,runWaking s i)
  | .reparent dying => (none,schedReparentChildren s dying)
  | .collect c want untraced => (none,waitFindChild s c want untraced)
  | .setitimer t value interval => (none,setitimer s t value interval)
  | .itimerExit t => (none,itimerTaskExit s t)
  | .accountTick c => (none,schedAccountTick s c)
  | .tick => (none,{ s with sysTicks := s.sysTicks + 1 })

def step (s : Kernel) (e : Event) : Kernel := (perform s e).2

/-- The boot task runs on CPU 0; every other CPU waits for its `apEntry`. -/
def boot (acctPerCpu : Bool) : Kernel where
  task t := if t = 1 then { state := .running, rqCpu := some 0 } else {}
  taskList := [1]
  delList := []
  nextID := 2
  rq _ := {}
  current c := if c = 0 then some 1 else none
  idle _ := none
  idleTask := none
  acctPerCpu := acctPerCpu
  callouts := []
  sysTicks := 0
  agingLast := 0
  lastBalance := 0
  waking := []

end UbixOS.Sched
