import UbixOS.Library.Ring

/-! Tasks, per-CPU run queues, callouts and the scheduler's entry points, each as
the one critical section it runs under the scheduler lock. Task structures are
named by their id; a null pointer is `none`. -/
namespace UbixOS.Sched

open Function

abbrev Tid := Nat
abbrev Chan := Nat

/-- `MAXCPU` run queues. -/
abbrev Cpu := Fin 8

instance Cpu.neZero : NeZero 8 := ⟨by decide⟩

def spillThresh : Nat := 1
def balanceInterval : UInt32 := 10
def balanceWarmup : UInt32 := 0x7FFFFFFF
def migrateCooldown : UInt32 := 100

inductive TState
  | placeholder | dead | new | ready | running | idle | wait | uninterruptible | interruptible | stopped | zombie
  deriving DecidableEq, Repr

def TState.finished (st : TState) : Bool := st == .zombie || st == .dead

def TState.asleep (st : TState) : Bool := st == .wait || st == .uninterruptible || st == .interruptible

/-- The `u_int8_t` a value is stored as. -/
def u8 (n : Nat) : Nat := n % 256

structure Task where
  state : TState := .new
  quantum : Nat := 6
  priority : Nat := 12
  basePriority : Nat := 12
  boostQuanta : Nat := 0
  onRq : Bool := false
  onCpu : Bool := false
  rqCpu : Option Cpu := none
  lastMigrateTick : UInt32 := 0
  lastRunTick : UInt32 := 0
  rqNext : Option Tid := none
  rqPrev : Option Tid := none
  stoppedSig : Nat := 0
  waitChan : Option Chan := none
  itimerInterval : UInt32 := 0
  parent : Option Tid := none
  pgrp : Nat := 0
  tgid : Nat := 0
  sigPending : BitVec 32 := 0
  -- between the priority test of `sched_yield` and the lock it then takes
  yielding : Bool := false

structure RunQueue where
  bucket : Nat → Option Tid := fun _ => none
  readyMask : BitVec 32 := 0
  nrRunning : Nat := 0
  online : Bool := false
  runningIdle : Bool := false
  switchingFrom : Option Tid := none

inductive CalloutFn
  | sleepWake | itimerFire
  deriving DecidableEq, Repr

/-- An armed callout; a disarmed one is not in the list. -/
structure Callout where
  fn : CalloutFn
  arg : Tid
  expiry : UInt32
  deriving DecidableEq, Repr

structure Kernel where
  task : Tid → Task
  taskList : List Tid
  delList : List Tid
  nextID : Nat
  rq : Cpu → RunQueue
  current : Cpu → Option Tid
  idle : Cpu → Option Tid
  idleTask : Option Tid
  -- `acct_cpu()` is the CPU's own number on aarch64 and always 0 on x86_64
  acctPerCpu : Bool
  callouts : List Callout
  sysTicks : UInt32
  agingLast : UInt32
  lastBalance : UInt32
  -- calls of `sched_ready` whose caller has tested the state but that do not hold the lock yet
  waking : List Tid

namespace Kernel

def upd (s : Kernel) (t : Tid) (f : Task → Task) : Kernel :=
  { s with task := update s.task t (f (s.task t)) }

def updRq (s : Kernel) (c : Cpu) (f : RunQueue → RunQueue) : Kernel :=
  { s with rq := update s.rq c (f (s.rq c)) }

def links (s : Kernel) : Library.Links Tid := ⟨fun t => (s.task t).rqNext,fun t => (s.task t).rqPrev⟩

def state (s : Kernel) (t : Tid) : TState := (s.task t).state

def setState (s : Kernel) (t : Tid) (st : TState) : Kernel := s.upd t fun k => { k with state := st }

section
variable (s : Kernel)

@[simp] lemma upd_rq (t : Tid) (f : Task → Task) : (s.upd t f).rq = s.rq := rfl
@[simp] lemma upd_current (t : Tid) (f : Task → Task) : (s.upd t f).current = s.current := rfl
@[simp] lemma upd_idle (t : Tid) (f : Task → Task) : (s.upd t f).idle = s.idle := rfl
@[simp] lemma updRq_task (c : Cpu) (f : RunQueue → RunQueue) : (s.updRq c f).task = s.task := rfl
@[simp] lemma updRq_current (c : Cpu) (f : RunQueue → RunQueue) : (s.updRq c f).current = s.current := rfl
@[simp] lemma updRq_idle (c : Cpu) (f : RunQueue → RunQueue) : (s.updRq c f).idle = s.idle := rfl

@[simp] lemma upd_self (t : Tid) (f : Task → Task) : (s.upd t f).task t = f (s.task t) := by
  simp [upd]

lemma upd_other (f : Task → Task) (apart : u ≠ t) : (s.upd t f).task u = s.task u := by
  simp [upd,apart]

lemma upd_task (t u : Tid) (f : Task → Task) : (s.upd t f).task u = if u = t then f (s.task u) else s.task u := by
  by_cases same : u = t
  · subst same
    simp
  · simp [same,upd_other]

lemma updRq_rq (c d : Cpu) (f : RunQueue → RunQueue) : (s.updRq c f).rq d = if d = c then f (s.rq d) else s.rq d := by
  by_cases same : d = c
  · subst same
    simp [updRq]
  · simp [updRq,same]

end

end Kernel

def schedSelectCpu (s : Kernel) : Cpu :=
  if (s.rq 0).nrRunning < spillThresh then 0
  else ([1,2,3,4,5,6,7] : List Cpu).foldl
    (fun best c => if (s.rq c).online && (s.rq c).nrRunning < (s.rq best).nrRunning then c else best) 0

/-- Links `t` in at the tail of bucket `pri`; a null tail stands for the fault it is. -/
def bucketAppend (s : Kernel) (c : Cpu) (pri : Nat) (t : Tid) : Kernel :=
  match (s.rq c).bucket pri with
  | none => (s.upd t fun k => { k with rqNext := some t, rqPrev := some t }).updRq c fun rq =>
      { rq with bucket := update rq.bucket pri (some t), readyMask := rq.readyMask ||| (1#32 <<< pri) }
  | some head => match (s.task head).rqPrev with
    | none => s
    | some tail => ((s.upd t fun k => { k with rqNext := some head, rqPrev := some tail }).upd tail fun k =>
        { k with rqNext := some t }).upd head fun k => { k with rqPrev := some t }

def rqEnqueueLocked (s : Kernel) (t : Tid) : Kernel :=
  if (s.task t).onRq then s
  else if (s.state t).finished then s
  else
    let c := (s.task t).rqCpu.getD (schedSelectCpu s)
    ((bucketAppend (s.upd t fun k => { k with rqCpu := some c }) c (s.task t).priority t).upd t fun k =>
      { k with onRq := true }).updRq c fun rq => { rq with nrRunning := rq.nrRunning + 1 }

def bucketRemove (s : Kernel) (c : Cpu) (pri : Nat) (t : Tid) : Kernel :=
  if (s.task t).rqNext = some t then
    s.updRq c fun rq =>
      { rq with bucket := update rq.bucket pri none, readyMask := rq.readyMask &&& ~~~(1#32 <<< pri) }
  else match (s.task t).rqPrev, (s.task t).rqNext with
    | some prev, some next => ((s.upd prev fun k => { k with rqNext := some next }).upd next fun k =>
        { k with rqPrev := some prev }).updRq c fun rq =>
        if rq.bucket pri = some t then { rq with bucket := update rq.bucket pri (some next) } else rq
    | _, _ => s

def rqDequeueLocked (s : Kernel) (t : Tid) : Kernel :=
  if !(s.task t).onRq then s
  else
    let c := (s.task t).rqCpu.getD 0
    ((bucketRemove s c (s.task t).priority t).upd t fun k =>
      { k with rqNext := none, rqPrev := none, onRq := false }).updRq c fun rq =>
      { rq with nrRunning := rq.nrRunning - 1 }

def makeReady (s : Kernel) (t : Tid) : Kernel := rqEnqueueLocked (s.setState t .ready) t

def SIGALRM : Nat := 14
def SIGCHLD : Nat := 17
def SIGCONT : Nat := 18
def SIGSTOP : Nat := 19
def SIGTSTP : Nat := 20
def SIGTTIN : Nat := 21
def SIGTTOU : Nat := 22

def sigBit (sig : Nat) : BitVec 32 := 1#32 <<< (sig - 1)

def sigPendStop : BitVec 32 := sigBit SIGTSTP ||| sigBit SIGSTOP ||| sigBit SIGTTIN ||| sigBit SIGTTOU

def postBit (s : Kernel) (t : Tid) (sig : Nat) : Kernel :=
  s.upd t fun k => { k with sigPending := k.sigPending ||| sigBit sig }

/-- `(int32_t)(now - expiry) >= 0` -/
def reached (now expiry : UInt32) : Bool := (now - expiry).toNat < 2^31

/-- `(int32_t)(a - b) <= 0` -/
def notAfter (a b : UInt32) : Bool := a = b || 2^31 ≤ (a - b).toNat

def calloutInsert (c : Callout) : List Callout → List Callout
  | [] => [c]
  | d :: rest => if notAfter d.expiry c.expiry then d :: calloutInsert c rest else c :: d :: rest

def calloutStop (s : Kernel) (fn : CalloutFn) (t : Tid) : Kernel :=
  { s with callouts := s.callouts.filter fun c => !(c.fn = fn ∧ c.arg = t) }

def calloutReset (s : Kernel) (fn : CalloutFn) (t : Tid) (ticks : UInt32) : Kernel :=
  let s := calloutStop s fn t
  { s with callouts := calloutInsert ⟨fn,t,s.sysTicks + ticks⟩ s.callouts }

def schedNewTask (s : Kernel) : Kernel :=
  { s with
    task := update s.task s.nextID { tgid := s.nextID, lastRunTick := s.sysTicks }
    taskList := s.nextID :: s.taskList
    nextID := s.nextID + 1 }

/-- What `fork` and `proc_fork_inherit_context` take over from the running task. -/
def Task.inherit (p : Tid) (parent child : Task) : Task :=
  { child with
    parent := some p
    basePriority := parent.basePriority
    priority := parent.basePriority
    pgrp := parent.pgrp }

def procFork (s : Kernel) (c : Cpu) : Kernel :=
  match s.current c with
  | none => s
  | some p => (schedNewTask s).upd s.nextID ((s.task p).inherit p)

def schedFindTask (s : Kernel) (id : Tid) : Option Tid := if id ∈ s.taskList then some id else none

def schedReady (s : Kernel) (t : Tid) : Kernel := if s.state t = .ready then s else makeReady s t

def wake (s : Kernel) (t : Tid) : Kernel := makeReady (s.upd t fun k => { k with waitChan := none }) t

def schedWakeTask (s : Kernel) (t : Tid) : Kernel :=
  if s.state t = .wait ∨ s.state t = .interruptible then wake s t else s

def schedDead (s : Kernel) (t : Tid) : Kernel := (rqDequeueLocked s t).setState t .dead

def schedSleep (s : Kernel) (t : Tid) (st : TState) : Kernel := (rqDequeueLocked s t).setState t st

/-- The one entry point that takes no lock and leaves the run queue alone. -/
def schedWakeup (s : Kernel) (t : Tid) : Kernel := s.setState t .running

def schedZombie (s : Kernel) (t : Tid) : Kernel :=
  (calloutStop (rqDequeueLocked s t) .sleepWake t).setState t .zombie

/-- `SIGCHLD` to a parent that has not exited, which it wakes if it sleeps. -/
def notifyStop (s : Kernel) (parent : Tid) : Kernel :=
  if (s.state parent).finished then s
  else
    let s := postBit s parent SIGCHLD
    if (s.state parent).asleep then
      makeReady (calloutStop (s.upd parent fun k => { k with waitChan := none }) .sleepWake parent) parent
    else s

def schedStop (s : Kernel) (t : Tid) (sig : Nat) : Kernel :=
  let s := (rqDequeueLocked s t).upd t fun k => { k with state := .stopped, stoppedSig := sig }
  match (s.task t).parent with
  | none => s
  | some parent => notifyStop s parent

/-- Changes scheduling fields of `t`, off the run queue and back on it when it is `READY`. -/
def requeue (s : Kernel) (t : Tid) (f : Task → Task) : Kernel :=
  if s.state t = .ready then rqEnqueueLocked ((rqDequeueLocked s t).upd t f) t else s.upd t f

def schedPiBoost (s : Kernel) (t : Tid) (pri : Nat) : Kernel :=
  if pri > (s.task t).priority then requeue s t fun k => { k with priority := pri } else s

def schedPiRestore (s : Kernel) (t : Tid) : Kernel :=
  if (s.task t).priority > (s.task t).basePriority then
    requeue s t fun k => { k with priority := k.basePriority }
  else s

/-- The I/O boost: base priority plus 4, at most 23, for two quanta. -/
def Task.boost (k : Task) : Task :=
  { k with priority := max k.priority (min (u8 (k.basePriority + 4)) 23), boostQuanta := 2 }

def schedIoWakeup (s : Kernel) (t : Tid) : Kernel :=
  if s.state t = .ready then requeue s t Task.boost
  else if s.state t ≠ .running ∧ (s.state t).finished = false then makeReady (s.upd t Task.boost) t
  else s.upd t Task.boost

def schedSetPriority (s : Kernel) (t : Tid) (pri : Nat) : Kernel :=
  requeue s t fun k => { k with basePriority := pri, priority := pri, boostQuanta := 0 }

/-- One task of the scan of `sched_wakeup_chan`. -/
def wakeChan (chan : Chan) (s : Kernel) (t : Tid) : Kernel :=
  if (s.task t).waitChan = some chan then
    let s := calloutStop (s.upd t fun k => { k with waitChan := none }) .sleepWake t
    if (s.state t).asleep then makeReady (s.upd t Task.boost) t else s
  else s

def schedWakeupChan (s : Kernel) (chan : Chan) : Kernel := s.taskList.foldl (wakeChan chan) s

/-- One task of the scan of `sched_reparent_children`. -/
def adopt (init : Option Tid) (dying : Tid) (s : Kernel) (t : Tid) : Kernel :=
  if t = dying ∨ (s.task t).parent ≠ some dying ∨ (s.task t).tgid = (s.task dying).tgid then s
  else
    let s := s.upd t fun k => { k with parent := init }
    match init with
    | some i => if (s.state t).finished then postBit s i SIGCHLD else s
    | none => s

def schedReparentChildren (s : Kernel) (dying : Tid) : Kernel :=
  let init := if 1 ∈ s.taskList ∧ dying ≠ 1 then some 1 else none
  s.taskList.foldl (adopt init dying) s

def sleepWakeCb (s : Kernel) (t : Tid) : Kernel := if (s.state t).asleep then wake s t else s

def itimerFire (s : Kernel) (t : Tid) : Kernel :=
  if (s.state t).finished then s
  else
    let s := schedWakeTask (postBit s t SIGALRM) t
    if (s.task t).itimerInterval ≠ 0 then calloutReset s .itimerFire t (s.task t).itimerInterval else s

def Callout.fire (c : Callout) (s : Kernel) : Kernel :=
  match c.fn with
  | .sleepWake => sleepWakeCb s c.arg
  | .itimerFire => itimerFire s c.arg

/-- A callout that re-arms itself is due again only later, so the list's length bounds the loop. -/
def runExpired (now : UInt32) : Nat → Kernel → Kernel
  | 0, s => s
  | n+1, s => match s.callouts with
    | [] => s
    | c :: rest => if reached now c.expiry then runExpired now n (c.fire { s with callouts := rest }) else s

def calloutRunExpired (s : Kernel) (now : UInt32) : Kernel := runExpired now s.callouts.length s

/-- `ITIMER_REAL` of `sys_setitimer`, with both times already in ticks. -/
def setitimer (s : Kernel) (t : Tid) (value interval : UInt32) : Kernel :=
  if value = 0 then (calloutStop s .itimerFire t).upd t fun k => { k with itimerInterval := 0 }
  else calloutReset (s.upd t fun k => { k with itimerInterval := min interval 0x7fffffff }) .itimerFire t
    (min value 0x7fffffff)

def itimerTaskExit (s : Kernel) (t : Tid) : Kernel :=
  (calloutStop s .itimerFire t).upd t fun k => { k with itimerInterval := 0 }

end UbixOS.Sched
