import UbixOS.Library.Holders
import UbixOS.Posix.Pipe

/-! Descriptor tables (kern/descrip.c, kern/kern_fork.c, posix/kern_pipe.c, posix/vfs_calls.c):
the file entries of every process, and the pipes, directory handles and open files they share.
Each system call is one step. `execve` closes nothing: close-on-exec is not kept. -/
namespace UbixOS.Posix.Descrip

open Library Pipe Function

def O_FILES : Nat := 512

/-- Entries with nothing behind them that is counted here. -/
inductive Device where
  | socket
  | tty
  | ttyv
  | ptmaster
  deriving DecidableEq

/-- `struct file`, by its `fd_type`. -/
inductive File where
  /-- `fd`; it is null in the entries `schedNewTask` makes -/
  | regular (fd : Option Nat)
  | pipe (data : Nat) (pipeEnd : PipeEnd)
  | dir (data : Nat)
  | device (d : Device)
  deriving DecidableEq

/-- `struct pipeInfo`, `kDIR_t`, `fileDescriptor_t`. -/
inductive Obj where
  | pipe (n : Nat)
  | dir (n : Nat)
  | file (n : Nat)
  deriving DecidableEq

/-- What is counted: the entries of a pipe by their end. -/
inductive Ref where
  | pipe (n : Nat) (e : PipeEnd)
  | dir (n : Nat)
  | file (n : Nat)
  deriving DecidableEq

def Obj.number : Obj → Nat
  | .pipe n | .dir n | .file n => n

def Ref.obj : Ref → Obj
  | .pipe n _ => .pipe n
  | .dir n => .dir n
  | .file n => .file n

def File.ref : File → Option Ref
  | .regular fd => fd.map .file
  | .pipe n e => some (.pipe n e)
  | .dir n => some (.dir n)
  | .device _ => none

structure State where
  /-- `td_fdt` of the tasks, which are numbered as they are made -/
  fdt : Nat → Option Nat
  tasks : Nat
  /-- `refs` of the tables -/
  refs : Nat → Int
  tables : Nat
  /-- the entries, by table and descriptor -/
  slot : Nat × Nat → Option File
  rfdCNT : Nat → Int
  wfdCNT : Nat → Int
  /-- `refs` of the directory handles -/
  dirRefs : Nat → Int
  dup : Nat → Int
  live : Finset Obj
  /-- the objects ever made, and those that were freed, in order -/
  made : List Obj
  released : List Obj
  /-- freed memory was used -/
  fault : Bool

namespace State

def keys (s : State) : Finset (Nat × Nat) := Finset.range s.tables ×ˢ Finset.range O_FILES

def link (s : State) (k : Nat × Nat) : Option Ref := (s.slot k).bind File.ref

def holders (s : State) (r : Ref) : Nat := Library.holders s.keys s.link r

def users (s : State) (table : Nat) : Nat := Library.holders (Finset.range s.tasks) s.fdt table

def count (s : State) : Ref → Int
  | .pipe n .read => s.rfdCNT n
  | .pipe n .write => s.wfdCNT n
  | .dir n => s.dirRefs n
  | .file n => s.dup n + 1

def add (s : State) (d : Int) : Ref → State
  | .pipe n .read => { s with rfdCNT := update s.rfdCNT n (s.rfdCNT n + d) }
  | .pipe n .write => { s with wfdCNT := update s.wfdCNT n (s.wfdCNT n + d) }
  | .dir n => { s with dirRefs := update s.dirRefs n (s.dirRefs n + d) }
  | .file n => { s with dup := update s.dup n (s.dup n + d) }

def setSlot (s : State) (k : Nat × Nat) (x : Option File) : State := { s with slot := update s.slot k x }

def access (s : State) (o : Obj) (s' : State) : State := if o ∈ s.live then s' else { s with fault := true }

def create (s : State) (o : Obj) : State := { s with live := insert o s.live, made := s.made ++ [o] }

def release (s : State) (o : Obj) : State := { s with live := s.live.erase o, released := s.released ++ [o] }

def pipeRefEnd (s : State) (n : Nat) (e : PipeEnd) : State := s.access (.pipe n) (s.add 1 (.pipe n e))

def pipeReleaseEnd (s : State) (n : Nat) (e : PipeEnd) : State :=
  s.access (.pipe n) <|
    let s := s.add (-1) (.pipe n e)
    if s.rfdCNT n ≤ 0 ∧ s.wfdCNT n ≤ 0 then s.release (.pipe n) else s

def vfsDirRef (s : State) (n : Nat) : State := s.access (.dir n) (s.add 1 (.dir n))

def vfsClosedir (s : State) (n : Nat) : State :=
  s.access (.dir n) <|
    let s := s.add (-1) (.dir n)
    if s.dirRefs n > 0 then s else s.release (.dir n)

/-- Looks for the descriptor in `fdTable` before it touches it. -/
def fclose (s : State) (n : Nat) : State :=
  if .file n ∈ s.live then if s.dup n > 0 then s.add (-1) (.file n) else s.release (.file n) else s

def dupInc (s : State) (n : Nat) : State := s.access (.file n) (s.add 1 (.file n))

def fdestroy (s : State) (k : Nat × Nat) : State := s.setSlot k none

/-- Whether it succeeded. -/
def closeFdslot (s : State) (k : Nat × Nat) : Bool × State :=
  match s.slot k with
  | none => (false,s)
  | some (.dir n) => (true,(s.vfsClosedir n).fdestroy k)
  | some (.pipe n e) => (true,(s.pipeReleaseEnd n e).fdestroy k)
  -- The master's own close has emptied the slot, so that `fdestroy` fails.
  | some (.device .ptmaster) => (false,s.fdestroy k)
  | some (.device _) => (true,s.fdestroy k)
  | some (.regular none) => (true,s.fdestroy k)
  | some (.regular (some n)) => (true,(s.fclose n).fdestroy k)

def sysClose (s : State) (k : Nat × Nat) : State :=
  match s.slot k with
  | none => s
  | some (.dir n) => (s.vfsClosedir n).fdestroy k
  | some (.pipe n e) => (s.fdestroy k).pipeReleaseEnd n e
  | some (.device _) => s.fdestroy k
  | some (.regular none) => s.fdestroy k
  | some (.regular (some n)) => (s.fclose n).fdestroy k

/-- The lowest free descriptor, with an empty entry; `alloc` says that there is memory. -/
def falloc (s : State) (table : Nat) (alloc : Bool) : Option (Nat × State) :=
  if alloc then
    ((List.range O_FILES).find? fun i => (s.slot (table,i)).isNone).map fun i =>
      (i,s.setSlot (table,i) (some (.regular none)))
  else none

/-- The references a copy of an entry takes in `duplicate_descriptor` and `fork_copy_fdtable`. -/
def shareRef (s : State) : File → State
  | .regular (some n) => s.dupInc n
  | .pipe n e => s.pipeRefEnd n e
  | .dir n => s.vfsDirRef n
  | _ => s

def duplicateDescriptor (s : State) (table source dest : Nat) (alloc : Bool) : State :=
  if source ≥ O_FILES ∨ s.slot (table,source) = none ∨ dest ≥ O_FILES ∨ source = dest then s
  else
    let (closed,s) := if s.slot (table,dest) = none then (true,s) else s.closeFdslot (table,dest)
    if closed ∧ alloc then
      match s.slot (table,source) with
      | none => { s with fault := true }
      | some f => (s.shareRef f).setSlot (table,dest) (some f)
    else s

def fcntlDup (s : State) (table fd arg : Nat) (alloc : Bool) : State :=
  if fd ≥ O_FILES ∨ s.slot (table,fd) = none then s
  else
    match ((List.range O_FILES).drop (max arg 5)).find? fun i => (s.slot (table,i)).isNone with
    | none => s
    | some i => s.duplicateDescriptor table fd i alloc

def sysDup (s : State) (table fd : Nat) (alloc : Bool) : State :=
  if fd ≥ O_FILES ∨ s.slot (table,fd) = none then s
  else
    match (List.range O_FILES).find? fun i => (s.slot (table,i)).isNone with
    | none => s
    | some i => s.duplicateDescriptor table fd i alloc

/-- The three allocations: the pipe and the two entries. -/
def sysPipe2 (s : State) (table : Nat) (pipe first second : Bool) : State :=
  if !pipe then s
  else
    let n := s.made.length
    let s := s.create (.pipe n)
    match s.falloc table first with
    | none => s.release (.pipe n)
    | some (fd1,s) =>
      match s.falloc table second with
      | none => (s.fdestroy (table,fd1)).release (.pipe n)
      | some (fd2,s) =>
        { (s.setSlot (table,fd1) (some (.pipe n .read))).setSlot (table,fd2) (some (.pipe n .write)) with
          rfdCNT := update s.rfdCNT n 1
          wfdCNT := update s.wfdCNT n 1 }

def vfsOpendir (s : State) : Nat × State :=
  let n := s.made.length
  (n,{ s.create (.dir n) with dirRefs := update s.dirRefs n 1 })

def fopen (s : State) : Nat × State :=
  let n := s.made.length
  (n,{ s.create (.file n) with dup := update s.dup n 0 })

/-- What `kern_openat`, `sys_socket` and `sys_posix_openpt` find at the path. -/
inductive Target where
  | failure
  | device (d : Device)
  /-- `/dev/stdin`, `/dev/stdout`, `/dev/stderr` -/
  | std (fd : Fin 3)
  | directory (found : Bool)
  /-- `probe`: with `O_CREAT` the file is opened and closed first -/
  | regular (probe opened : Bool)
  deriving DecidableEq

/-- What an open of `/dev/stdin` does: only the descriptor of a regular file is counted. -/
def copyStd (s : State) (k : Nat × Nat) (f : File) : State :=
  match f with
  | .regular (some n) => (s.setSlot k (some f)).dupInc n
  | _ => s.setSlot k (some f)

def kernOpenat (s : State) (table : Nat) (target : Target) (alloc : Bool) : State :=
  match s.falloc table alloc with
  | none => s
  | some (fd,s) =>
    match target with
    | .failure => s.fdestroy (table,fd)
    | .device d => s.setSlot (table,fd) (some (.device d))
    | .std src =>
      match s.slot (table,src.val) with
      | none => s.fdestroy (table,fd)
      | some f => s.copyStd (table,fd) f
    | .directory found =>
      if found then
        let (n,s) := s.vfsOpendir
        s.setSlot (table,fd) (some (.dir n))
      else s.fdestroy (table,fd)
    | .regular probe opened =>
      let s := if probe then s.fopen.2.fclose s.fopen.1 else s
      if opened then
        let (n,s) := s.fopen
        s.setSlot (table,fd) (some (.regular (some n)))
      else s.fdestroy (table,fd)

/-- The task and its table that `schedNewTask` makes. -/
def schedNewTask (s : State) : State := { s with
  fdt := update s.fdt s.tasks (some s.tables)
  tasks := s.tasks + 1
  refs := update s.refs s.tables 1
  tables := s.tables + 1
  slot := fun k => if k.1 = s.tables ∧ k.2 < 3 then some (.regular none) else s.slot k }

def copySlot (s : State) (parent child : Nat) (alloc : Nat → Bool) (i : Nat) : State :=
  match s.slot (parent,i) with
  | none => s
  | some f => if alloc i then (s.setSlot (child,i) (some f)).shareRef f else s

/-- Frees the entries of `schedNewTask` and copies the others. -/
def forkCopyFdtable (s : State) (parent child : Nat) (alloc : Nat → Bool) : State :=
  (List.range O_FILES).foldl (fun s i => s.copySlot parent child alloc i)
    ([0,1,2].foldl (fun s i => s.fdestroy (child,i)) s)

def fork (s : State) (table : Nat) (alloc : Nat → Bool) : State :=
  s.schedNewTask.forkCopyFdtable table s.tables alloc

/-- `fd_table_share`: the new task's own table is freed. -/
def rfork (s : State) (table : Nat) : State :=
  let child := s.tasks
  let own := s.tables
  let s := s.schedNewTask
  { s with
    slot := fun k => if k.1 = own then none else s.slot k
    refs := update (update s.refs own 0) table (s.refs table + 1)
    fdt := update s.fdt child (some table) }

def closeOnExit (s : State) (table fd : Nat) : State :=
  match s.slot (table,fd) with
  | none | some (.device .ptmaster) => s
  | some (.device .socket) => s.sysClose (table,fd)
  | some _ => (s.closeFdslot (table,fd)).2

def fdTableExit (s : State) (t table : Nat) : State :=
  let s := { s with refs := update s.refs table (s.refs table - 1) }
  let s := if s.refs table = 0 then
      let s := (List.range O_FILES).foldl (fun s fd => s.closeOnExit table fd) s
      { s with slot := fun k => if k.1 = table then none else s.slot k }
    else s
  { s with fdt := update s.fdt t none }

end State

inductive Call where
  | pipe2 (pipe first second : Bool)
  | open (target : State.Target) (alloc : Bool)
  /-- the system call of this name: the handle goes to the caller's memory -/
  | opendir
  | closedir (n : Nat)
  | dup (fd : Nat) (alloc : Bool)
  | dup2 (source dest : Nat) (alloc : Bool)
  | fcntlDup (fd arg : Nat) (alloc : Bool)
  | close (fd : Nat)
  | fork (alloc : Nat → Bool)
  | rfork
  | exit

structure Event where
  task : Nat
  call : Call

def State.call (s : State) (t table : Nat) : Call → State
  | .pipe2 pipe first second => s.sysPipe2 table pipe first second
  | .open target alloc => s.kernOpenat table target alloc
  | .opendir => s.vfsOpendir.2
  | .closedir n => s.vfsClosedir n
  | .dup fd alloc => s.sysDup table fd alloc
  | .dup2 source dest alloc => s.duplicateDescriptor table source dest alloc
  | .fcntlDup fd arg alloc => s.fcntlDup table fd arg alloc
  | .close fd => if fd ≥ O_FILES then s else s.sysClose (table,fd)
  | .fork alloc => s.fork table alloc
  | .rfork => s.rfork table
  | .exit => s.fdTableExit t table

/-- A task that is gone makes no calls. -/
def State.step (s : State) (e : Event) : State :=
  match s.fdt e.task with
  | none => s
  | some table => if s.refs table ≤ 0 then { s with fault := true } else s.call e.task table e.call

def State.empty : State :=
  ⟨fun _ => none,0,fun _ => 0,0,fun _ => none,fun _ => 0,fun _ => 0,fun _ => 0,fun _ => 0,∅,[],[],false⟩

def State.boot : State := State.empty.schedNewTask

end UbixOS.Posix.Descrip
