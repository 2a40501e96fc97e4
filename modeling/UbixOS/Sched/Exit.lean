import UbixOS.Sched.Kin

/-! Creation, exit and collection of tasks: `fork` and thread creation, `endTask`,
`sys_wait4`, the reaper of the dispatcher and the freeing of task structures, each
as the locked sections and lone writes it is made of. -/
namespace UbixOS.Sched.Exit

open Library Function

/-- Where a task is in one of these calls. -/
inductive Call
  | user
  -- `schedNewTask` has returned the child; its parent link is written next, then `sched_ready`
  | fork (child : Tid) (linked : Bool)
  -- before and after `sched_reparent_children`
  | endTask (reparented : Bool)
  -- after `sched_zombie`
  | exited
  -- at the head of the loop of `sys_wait4`
  | wait4 (pid : Int) (nohang untraced : Bool)
  -- in `sched_free_task`, before and after the links to `t` are cleared
  | freeTask (t : Tid) (unlinked : Bool)
  -- at the head of the loop of `sched_free_deleted`
  | freeDeleted
  deriving DecidableEq, Repr

/-- A child that a `wait4` of its parent collected, and the status it reported. -/
structure Return where
  parent : Tid
  child : Tid
  status : Nat
  deriving DecidableEq, Repr

/-- The scheduler, the exit fields of the tasks and the calls under way. What tasks exited with, what `wait4`
returned and what was freed is kept as history. -/
structure World where
  kernel : Kernel
  exitCode : Tid → Nat
  exitSignal : Tid → Nat
  groupExit : Tid → Bool
  call : Tid → Call
  exits : Tid → Option Nat
  returned : List Return
  freed : List Tid

def boot (acctPerCpu : Bool) : World where
  kernel := Sched.boot acctPerCpu
  exitCode _ := 0
  exitSignal _ := 0
  groupExit _ := false
  call _ := .user
  exits _ := none
  returned := []
  freed := []

def wExited (code : Nat) : Nat := code <<< 8

def wStopped (sig : Nat) : Nat := (sig <<< 8) ||| 0x7f

namespace World

def parent (w : World) (t : Tid) : Option Tid := (w.kernel.task t).parent

def finished (w : World) (t : Tid) : Bool := (w.kernel.state t).finished

def onCpu (w : World) (t : Tid) : Bool := (w.kernel.task t).onCpu

/-- The wait status of an exited task. -/
def status (w : World) (t : Tid) : Nat :=
  if w.exitSignal t ≠ 0 then w.exitSignal t &&& 0x7f else wExited (w.exitCode t &&& 0xff)

def enter (w : World) (p : Tid) (call : Call) : World := { w with call := update w.call p call }

end World

def wanted (pid : Int) (t : Tid) : Bool := pid = -1 ∨ (t : Int) = pid

/-- What `wait_find_child` reports. -/
structure Found where
  child : Option Tid := none
  wstatus : Nat := 0
  haveChild : Bool := false
  reaped : Bool := false
  deriving DecidableEq, Repr

def waitFindChild (w : World) (p : Tid) (pid : Int) (untraced : Bool) : List Tid → Bool → Found
  | [], haveChild => { haveChild }
  | t :: rest, haveChild =>
    if w.parent t ≠ some p ∨ wanted pid t = false then waitFindChild w p pid untraced rest haveChild
    else if w.finished t ∧ w.onCpu t = false then ⟨some t,w.status t,true,true⟩
    else if untraced ∧ w.kernel.state t = .stopped ∧ (w.kernel.task t).stoppedSig ≠ 0 then
      ⟨some t,wStopped (w.kernel.task t).stoppedSig,true,false⟩
    else waitFindChild w p pid untraced rest true

inductive Outcome
  | child (t : Tid) (status : Nat)
  | echild
  | nothing
  | eintr
  -- sleep in `sched_wait_child` and look again
  | sleep
  deriving DecidableEq, Repr

/-- One round of the loop of `sys_wait4`: the scan under the scheduler lock and what follows from it. The child
found is then freed, and the delete list with it. -/
def sysWait4 (w : World) (p : Tid) (pid : Int) (nohang untraced interrupted : Bool) : Outcome × World :=
  let found := waitFindChild w p pid untraced w.kernel.taskList false
  match found.child with
  | some t =>
    if found.reaped then
      (.child t found.wstatus,{ (w.enter p (.freeTask t false)) with
        kernel := { w.kernel with taskList := w.kernel.taskList.filter (· ≠ t) }
        returned := ⟨p,t,found.wstatus⟩ :: w.returned })
    else
      (.child t found.wstatus,{ (w.enter p .freeDeleted) with
        kernel := w.kernel.upd t fun k => { k with stoppedSig := 0 } })
  | none =>
    if !found.haveChild then (.echild,w.enter p .user)
    else if nohang then (.nothing,w.enter p .user)
    else if interrupted then (.eintr,w.enter p .user)
    else (.sleep,w)

/-- The thread group of a task; the boot task has none but itself. -/
def group (s : Kernel) (t : Tid) : Nat := if (s.task t).tgid ≠ 0 then (s.task t).tgid else t

/-- One round of `signal_kill_group`: the status every other live thread of the group is to exit with, for at most
64 of them. -/
def signalKillGroup (w : World) (p : Tid) (code sig : Nat) : World :=
  let batch := (w.kernel.taskList.filter fun t =>
    t ≠ p ∧ w.finished t = false ∧ w.groupExit t = false ∧ group w.kernel t = group w.kernel p).take 64
  { w with
    groupExit := fun t => if t ∈ batch then true else w.groupExit t
    exitCode := fun t => if t ∈ batch then code &&& 0xff else w.exitCode t
    exitSignal := fun t => if t ∈ batch then sig &&& 0x7f else w.exitSignal t }

/-- One task of the loop of `sched_free_task`. -/
def clearParent (t : Tid) (s : Kernel) (u : Tid) : Kernel :=
  if (s.task u).parent = some t then s.upd u fun k => { k with parent := none } else s

def clearParents (s : Kernel) (t : Tid) : Kernel := s.taskList.foldl (clearParent t) s

/-- What `fork` and `rfork` write into the child; a thread joins the group of its creator. -/
def linkChild (s : Kernel) (p child : Tid) (thread : Bool) : Kernel :=
  s.upd child fun k =>
    { (s.task p).inherit p k with tgid := if thread then (s.task p).tgid else k.tgid }

inductive Act
  -- any other event of the scheduler
  | kernel (e : Event)
  | newTask (c : Cpu)
  | linkChild (c : Cpu) (thread : Bool)
  | readyChild (c : Cpu)
  -- writes of `sys_exit`, `sys_exit_group` and of a fatal signal to the task's own fields
  | exitCode (c : Cpu) (status : Nat)
  | exitSignal (c : Cpu) (sig : Nat)
  | killGroup (c : Cpu) (code sig : Nat)
  | endTask (c : Cpu)
  | reparent (c : Cpu)
  | zombie (c : Cpu)
  | wait4 (c : Cpu) (pid : Int) (nohang untraced : Bool)
  | waitRound (c : Cpu) (interrupted : Bool)
  | clearParents (c : Cpu)
  | kfree (c : Cpu)
  | getDelTask (c : Cpu)

/-- The task that runs on a CPU, and the call it is in. -/
def World.caller (w : World) (c : Cpu) : Option (Tid × Call) := (w.kernel.current c).map fun p => (p,w.call p)

def step (w : World) : Act → World
  | .kernel e => { w with kernel := Sched.step w.kernel e }
  | .newTask c => match w.caller c with
    | some (p,.user) => { (w.enter p (.fork w.kernel.nextID false)) with kernel := schedNewTask w.kernel }
    | _ => w
  | .linkChild c thread => match w.caller c with
    | some (p,.fork child false) =>
      { (w.enter p (.fork child true)) with kernel := Exit.linkChild w.kernel p child thread }
    | _ => w
  | .readyChild c => match w.caller c with
    | some (p,.fork child true) => { (w.enter p .user) with kernel := schedReady w.kernel child }
    | _ => w
  | .exitCode c status => match w.caller c with
    | some (p,.user) => { w with exitCode := update w.exitCode p (status &&& 0xff) }
    | _ => w
  | .exitSignal c sig => match w.caller c with
    | some (p,.user) => { w with exitSignal := update w.exitSignal p (sig &&& 0x7f) }
    | _ => w
  | .killGroup c code sig => match w.caller c with
    | some (p,.user) => signalKillGroup w p code sig
    | _ => w
  | .endTask c => match w.caller c with
    | some (p,.user) => w.enter p (.endTask false)
    | _ => w
  | .reparent c => match w.caller c with
    | some (p,.endTask false) =>
      { (w.enter p (.endTask true)) with kernel := schedReparentChildren w.kernel p }
    | _ => w
  | .zombie c => match w.caller c with
    | some (p,.endTask true) =>
      { (w.enter p .exited) with
        kernel := schedZombie w.kernel p
        exits := update w.exits p (some (w.status p)) }
    | _ => w
  | .wait4 c pid nohang untraced => match w.caller c with
    | some (p,.user) => w.enter p (.wait4 pid nohang untraced)
    | _ => w
  | .waitRound c interrupted => match w.caller c with
    | some (p,.wait4 pid nohang untraced) => (sysWait4 w p pid nohang untraced interrupted).2
    | _ => w
  | .clearParents c => match w.caller c with
    | some (p,.freeTask t false) => { (w.enter p (.freeTask t true)) with kernel := Exit.clearParents w.kernel t }
    | _ => w
  | .kfree c => match w.caller c with
    | some (p,.freeTask t true) => { (w.enter p .freeDeleted) with freed := t :: w.freed }
    | _ => w
  | .getDelTask c => match w.caller c with
    | some (p,.freeDeleted) => match w.kernel.delList with
      | [] => w.enter p .user
      | t :: rest => { (w.enter p (.freeTask t false)) with kernel := { w.kernel with delList := rest } }
    | _ => w

end UbixOS.Sched.Exit
