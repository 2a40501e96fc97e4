import UbixOS.Library.Deque
import UbixOS.Library.Buffer
import UbixOS.Library.Run

/-! Mailboxes (mpi/system.c). Every function works under `mpiSpinLock`; `mpi_postMessage` and
`mpi_waitMessage` drop it, so a call of theirs is several steps of a task. -/
namespace UbixOS.Mpi

open Library Function

abbrev Tid := Nat
abbrev Addr := Nat
abbrev Name := List UInt8

def MESSAGE_LENGTH : Nat := 248
def nameSize : Nat := 64

/-- `mpi_message_t`; its `next` is in `State.messageNext`. -/
structure Message where
  data : Bytes MESSAGE_LENGTH
  header : UInt32
  pid : Tid
  msgId : UInt32
  inReplyTo : UInt32

/-- `mpi_mbox_t`; its links are in `State.next` and `State.prev`. -/
structure Mbox where
  msg : Option Addr
  msgLast : Option Addr
  name : Name
  pid : Tid

structure State where
  mboxList : Option Addr
  next : Addr → Option Addr
  prev : Addr → Option Addr
  mbox : Addr → Mbox
  message : Addr → Message
  messageNext : Addr → Option Addr
  seq : UInt32
  /-- the blocks that `kmalloc` gave out and `kfree` did not take back -/
  heap : Finset Addr
  /-- a block was freed twice, a null pointer was followed or a list had no end -/
  fault : Bool
  -- History, which no function reads. An address is used again, a serial number is not.
  serial : Addr → Nat
  created : Nat
  owner : Nat → Tid
  posted : Nat → List Message
  /-- who fetched, and what was copied to them -/
  fetched : Nat → List (Tid × Message)
  /-- what was freed with the mailbox -/
  released : Nat → List Message

/-- What `kmalloc` answers while these blocks are in use. -/
structure Allocator where
  pick : Finset Addr → Option Addr
  fresh : ∀ heap a, pick heap = some a → a ∉ heap

namespace State

def fail (s : State) : State := { s with fault := true }

def kfree (s : State) (a : Addr) : State :=
  if a ∈ s.heap then { s with heap := s.heap.erase a } else s.fail

def nextId (s : State) : UInt32 := if s.seq + 1 = 0 then 1 else s.seq + 1

def findMbox (s : State) (name : Name) : Option Addr :=
  (⟨fun _ => s.mboxList,s.next⟩ : Chains Unit Addr).search (fun a => (s.mbox a).name = name) s.heap.card s.mboxList

def link (s : State) (a : Addr) (name : Name) (pid : Tid) : State := { s with
  heap := insert a s.heap
  mbox := update s.mbox a ⟨none,none,name.take (nameSize - 1),pid⟩
  next := update s.next a s.mboxList
  prev := relink (update s.prev a none) s.mboxList (some a)
  mboxList := some a
  serial := update s.serial a s.created
  created := s.created + 1
  owner := update s.owner s.created pid }

def createMbox (s : State) (current : Tid) (name : Name) (alloc : Allocator) : Int32 × State :=
  match s.findMbox name with
  | some _ => (-1,s)
  | none =>
    match alloc.pick s.heap with
    | none => (-1,s)
    | some a => (0,s.link a name current)

def append (s : State) (mbox m : Addr) (message : Message) : State :=
  let b := s.mbox mbox
  let s := { s with
    heap := insert m s.heap
    seq := s.nextId
    message := update s.message m message
    messageNext := update s.messageNext m none
    posted := update s.posted (s.serial mbox) (s.posted (s.serial mbox) ++ [message]) }
  match b.msg,b.msgLast with
  | none,_ => { s with mbox := update s.mbox mbox { b with msg := some m, msgLast := some m } }
  | some _,some last => { s with
    messageNext := update s.messageNext last (some m)
    mbox := update s.mbox mbox { b with msgLast := some m } }
  | some _,none => s.fail

/-- One round of the loop of `mpi_spam`. -/
def spamOne (s : State) (current : Tid) (type : UInt32) (data : Bytes MESSAGE_LENGTH) (alloc : Allocator)
    (mbox : Addr) :
    State :=
  match alloc.pick s.heap with
  | none => s
  | some m => s.append mbox m ⟨data,type,current,s.nextId,0⟩

def spamFrom (current : Tid) (type : UInt32) (data : Bytes MESSAGE_LENGTH) (alloc : Allocator) :
    Nat → Option Addr → State → State
  | _,none,s => s
  | 0,some _,s => s.fail
  | n+1,some mbox,s =>
    let s := s.spamOne current type data alloc mbox
    spamFrom current type data alloc n (s.next mbox) s

def spam (s : State) (current : Tid) (type : UInt32) (data : Bytes MESSAGE_LENGTH) (alloc : Allocator) : State :=
  spamFrom current type data alloc s.heap.card s.mboxList s

/-- The first locked section of `mpi_postMessage`: the mailbox that got the message. Of the
caller's buffer `msg` only the text, the header and the reply tag are read. -/
def postMessage (s : State) (current : Tid) (name : Name) (msg : Message) (alloc : Allocator) : Option Addr × State :=
  match s.findMbox name with
  | none => (none,s)
  | some mbox =>
    match alloc.pick s.heap with
    | none => (none,s)
    | some m => (some mbox,s.append mbox m ⟨msg.data,msg.header,current,s.nextId,msg.inReplyTo⟩)

/-- The test of a synchronous post. -/
def drained (s : State) (name : Name) : Bool :=
  match s.findMbox name with
  | none => true
  | some mbox => (s.mbox mbox).msg.isNone

def takeFirst (s : State) (mbox m : Addr) (current : Tid) : State :=
  let rest := s.messageNext m
  { s with
    mbox := update s.mbox mbox { s.mbox mbox with
      msg := rest, msgLast := if rest = none then none else (s.mbox mbox).msgLast }
    fetched := update s.fetched (s.serial mbox)
      (s.fetched (s.serial mbox) ++ [(current,s.message m)]) }.kfree m

def fetchMessage (s : State) (current : Tid) (name : Name) : Option Message × State :=
  match s.findMbox name with
  | none => (none,s)
  | some mbox =>
    match (s.mbox mbox).msg with
    | none => (none,s)
    | some m =>
      if (s.mbox mbox).pid ≠ current then (none,s) else (some (s.message m),s.takeFirst mbox m current)

def unlink (s : State) (mbox : Addr) : State := { s with
  mboxList := match s.prev mbox with
    | some _ => s.mboxList
    | none => s.next mbox
  next := relink s.next (s.prev mbox) (s.next mbox)
  prev := relink s.prev (s.next mbox) (s.prev mbox) }

/-- Frees the messages from `msg` on, which are queued in mailbox number `n`. -/
def freeMessages (n : Nat) : Nat → Option Addr → State → State
  | _,none,s => s
  | 0,some _,s => s.fail
  | fuel+1,some m,s =>
    freeMessages n fuel (s.messageNext m)
      ({ s with released := update s.released n (s.released n ++ [s.message m]) }.kfree m)

/-- What `mpi_destroyMbox` and `mpi_destroyProcessMboxes` do to a mailbox. -/
def destroy (s : State) (mbox : Addr) : State :=
  (freeMessages (s.serial mbox) s.heap.card (s.mbox mbox).msg (s.unlink mbox)).kfree mbox

def destroyMbox (s : State) (current : Tid) (name : Name) : Int32 × State :=
  match s.findMbox name with
  | none => (-1,s)
  | some mbox => if (s.mbox mbox).pid ≠ current then (-1,s) else (0,s.destroy mbox)

def destroyFrom (pid : Tid) : Nat → Option Addr → State → State
  | _,none,s => s
  | 0,some _,s => s.fail
  | n+1,some mbox,s => destroyFrom pid n (s.next mbox) (if (s.mbox mbox).pid ≠ pid then s else s.destroy mbox)

def destroyProcessMboxes (s : State) (pid : Tid) : State := destroyFrom pid s.heap.card s.mboxList s

end State

/-- How far a task's call has come. -/
inductive Call where
  | idle
  /-- the message is queued; about to call `sched_wakeup_chan` -/
  | waking (mbox : Addr) (type : UInt32) (name : Name)
  /-- in the loop of a synchronous post -/
  | polling (name : Name)
  /-- in `sched_wait_event`, about to test the mailbox -/
  | waiting (name : Name) (mbox : Addr) (timeout : UInt32)
  /-- found it empty; still has the scheduler lock -/
  | checked (name : Name) (mbox : Addr) (timeout : UInt32)
  | asleep (name : Name) (mbox : Addr) (timeout : UInt32)
  /-- the wait is over -/
  | fetching (name : Name)
  deriving DecidableEq

structure World where
  mpi : State
  call : Tid → Call
  schedLock : Option Tid

inductive Request where
  | createMbox (name : Name) (alloc : Allocator)
  | spam (type : UInt32) (data : Bytes MESSAGE_LENGTH) (alloc : Allocator)
  | postMessage (name : Name) (type : UInt32) (msg : Message) (alloc : Allocator)
  | fetchMessage (name : Name)
  | waitMessage (name : Name) (timeout : UInt32)
  | destroyMbox (name : Name)
  | destroyProcessMboxes (pid : Tid)

inductive Event where
  | enter (t : Tid) (r : Request)
  /-- the next step of the call a task is in -/
  | resume (t : Tid)
  /-- a task is woken by something else -/
  | wake (t : Tid)
  | timeout (t : Tid)

def Call.wakeChan (mbox : Addr) : Call → Call
  | .asleep name chan timeout => if chan = mbox then .waiting name chan timeout else .asleep name chan timeout
  | c => c

namespace World

def goto (w : World) (t : Tid) (c : Call) : World := { w with call := update w.call t c }

@[simp] lemma goto_self (w : World) (t : Tid) (c : Call) : (w.goto t c).call t = c := update_self ..

lemma goto_other (w : World) (c : Call) (ne : u ≠ t) : (w.goto t c).call u = w.call u :=
  update_of_ne ne ..

def enter (w : World) (t : Tid) : Request → World
  | .createMbox name alloc => { w with mpi := (w.mpi.createMbox t name alloc).2 }
  | .spam type data alloc => { w with mpi := w.mpi.spam t type data alloc }
  | .postMessage name type msg alloc =>
    let w' := { w with mpi := (w.mpi.postMessage t name msg alloc).2 }
    match (w.mpi.postMessage t name msg alloc).1 with
    | none => w'
    | some mbox => w'.goto t (.waking mbox type name)
  | .fetchMessage name => { w with mpi := (w.mpi.fetchMessage t name).2 }
  | .waitMessage name timeout =>
    match w.mpi.findMbox name with
    | none => w
    | some mbox => w.goto t (.waiting name mbox timeout)
  | .destroyMbox name => { w with mpi := (w.mpi.destroyMbox t name).2 }
  | .destroyProcessMboxes pid => { w with mpi := w.mpi.destroyProcessMboxes pid }

def resume (w : World) (t : Tid) : World :=
  match w.call t with
  | .idle | .asleep .. => w
  | .waking mbox type name =>
    if w.schedLock ≠ none then w
    else { w with call := fun u => (w.call u).wakeChan mbox }.goto t (if type = 2 then .polling name else .idle)
  | .polling name => if w.mpi.drained name then w.goto t .idle else w
  | .waiting name mbox timeout =>
    -- The mailbox is read without `mpiSpinLock`, and even if it is gone by now.
    if w.schedLock ≠ none then w
    else if (w.mpi.mbox mbox).msg.isSome then w.goto t (.fetching name)
    else { w with schedLock := some t }.goto t (.checked name mbox timeout)
  | .checked name mbox timeout => { w with schedLock := none }.goto t (.asleep name mbox timeout)
  | .fetching name => { w with mpi := (w.mpi.fetchMessage t name).2 }.goto t .idle

def step (w : World) : Event → World
  | .enter t r => if w.call t = .idle then w.enter t r else w
  | .resume t => w.resume t
  | .wake t =>
    match w.call t with
    | .asleep name mbox timeout => w.goto t (.waiting name mbox timeout)
    | _ => w
  | .timeout t =>
    match w.call t with
    | .waiting name _ timeout => if timeout ≠ 0 then w.goto t (.fetching name) else w
    | _ => w

end World

/-- Before the first mailbox; what memory holds does not matter. -/
def State.empty : State where
  mboxList := none
  next _ := none
  prev _ := none
  mbox _ := ⟨none,none,[],0⟩
  message _ := ⟨Bytes.zero,0,0,0,0⟩
  messageNext _ := none
  seq := 0
  heap := ∅
  fault := false
  serial _ := 0
  created := 0
  owner _ := 0
  posted _ := []
  fetched _ := []
  released _ := []

def World.boot : World := ⟨.empty,fun _ => .idle,none⟩

end UbixOS.Mpi
