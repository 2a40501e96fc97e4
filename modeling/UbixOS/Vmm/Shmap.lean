import UbixOS.Library.Run

/-! Write-back of shared file mappings (vmm/vmm_shmap.c). The pages of a mapping are private
frames; `munmap`, `msync` and exit copy them to the file. `munmap` leaves the pages in place.
A call takes the table lock for each search and writes page by page without it, so the calls of
several tasks interleave. -/
namespace UbixOS.Vmm.Shmap

open Function

open Library

def PAGE_SIZE : Nat := 4096
/-- The size of `g_shmaps` and of `path` in it. -/
def slots : Nat := 32
def pathSize : Nat := 512

def pageDown (a : Nat) : Nat := a / PAGE_SIZE * PAGE_SIZE
def pageUp (a : Nat) : Nat := (a + PAGE_SIZE - 1) / PAGE_SIZE * PAGE_SIZE

abbrev Tid := Nat
abbrev Path := List UInt8

inductive Active where
  | free
  | used
  /-- seen in this pass of an `msync` -/
  | visited
  deriving DecidableEq

/-- `struct vmm_shmap`. -/
structure Entry where
  pid : Tid
  va : Nat
  len : Nat
  foff : Nat
  path : Path
  active : Active
  /-- the file that was mapped; the kernel keeps only its name -/
  file : Nat
  deriving DecidableEq

/-- The arguments of `shmap_flush`. -/
structure Flush where
  lo : Nat
  hi : Nat
  release : Bool
  whole : Bool
  deriving DecidableEq

/-- Where a task is in `shmap_flush`. -/
inductive Phase where
  | idle
  | search (c : Flush)
  /-- in `shmap_write`, with the file that `fopen` found -/
  | write (c : Flush) (m : Entry) (file : Option Nat) (done : Nat)
  | dead
  deriving DecidableEq

/-- The address space of each task, and which file a name leads to. -/
structure Env where
  space : Tid → Nat
  lookup : Path → Option Nat

structure World where
  table : Fin slots → Entry
  file : Nat → Nat → UInt8
  mem : Nat → Nat → UInt8
  /-- the pages that `md_user_page_kva` finds -/
  present : Nat → Nat → Bool
  phase : Tid → Phase
  -- History: which byte of which file an address is mapped to, what the files would hold if
  -- every store through a mapping reached them at once, the bytes that were ever mapped, and
  -- the entries that were made and released.
  backed : Nat → Nat → Option (Nat × Nat)
  ideal : Nat → Nat → UInt8
  touched : Nat → Nat → Bool
  entered : List Entry
  released : List Entry

/-- The test of `shmap_flush`, in 64-bit words. -/
def Entry.Overlaps (e : Entry) (lo hi : Nat) : Prop := ¬((e.va + e.len) % 2^64 ≤ lo ∨ e.va ≥ hi)

instance (e : Entry) (lo hi : Nat) : Decidable (e.Overlaps lo hi) := inferInstanceAs (Decidable ¬_)

/-- The test of the loop of `shmap_flush`. -/
def Flush.wants (c : Flush) (t : Tid) (e : Entry) : Bool :=
    e.active = .used ∧ e.pid = t ∧ (c.whole ∨ e.Overlaps c.lo c.hi)

namespace World

variable (env : Env)

/-- The pages `mmap` fills from the file at `foff`. -/
def fill (w : World) (space va len foff f : Nat) : World :=
  let top := va + pageUp len
  { w with
    mem := update w.mem space fun a => if va ≤ a ∧ a < top then w.file f (foff + (a - va)) else w.mem space a
    present := update w.present space fun p =>
      (va / PAGE_SIZE ≤ p ∧ p * PAGE_SIZE < top) ∨ w.present space p }

/-- `vmm_shmap_register`. A full table leaves the mapping untracked. -/
def register (w : World) (e : Entry) : World :=
  if e.path = [] ∨ e.len = 0 then w
  else
    match (List.finRange slots).find? fun i => (w.table i).active = .free with
    | none => w
    | some i =>
      let e := { e with path := e.path.take (pathSize - 1), active := .used }
      { w with
        table := update w.table i e
        backed := update w.backed (env.space e.pid) fun a =>
          if e.va ≤ a ∧ a < e.va + e.len then some (e.file,e.foff + (a - e.va)) else w.backed (env.space e.pid) a
        touched := fun f o => (f = e.file ∧ e.foff ≤ o ∧ o < e.foff + e.len) ∨ w.touched f o
        entered := w.entered ++ [e] }

def store (w : World) (t : Tid) (a : Nat) (v : UInt8) : World :=
  let space := env.space t
  if w.present space (a / PAGE_SIZE) then
    let w' := { w with mem := update w.mem space (update (w.mem space) a v) }
    match w.backed space a with
    | none => w'
    | some (f,o) => { w' with ideal := update w.ideal f (update (w.ideal f) o v) }
  else w

def goto (w : World) (t : Tid) (p : Phase) : World := { w with phase := update w.phase t p }

/-- The end of an `msync`: it takes back its marks, and those of all others. -/
def unmark (w : World) : World := { w with
  table := fun i => if (w.table i).active = .visited then { w.table i with active := .used } else w.table i }

/-- The locked search. -/
def search (w : World) (t : Tid) (c : Flush) : World :=
  match (List.finRange slots).find? fun i => c.wants t (w.table i) with
  | some i =>
    let e := w.table i
    let w' := if c.release then
        { w with
          table := update w.table i { e with active := .free }
          released := w.released ++ [{ e with active := .used }] }
      else { w with table := update w.table i { e with active := .visited } }
    w'.goto t (.write c e (env.lookup e.path) 0)
  | none =>
    if c.release then w.goto t (if c.whole then .dead else .idle) else w.unmark.goto t .idle

/-- One page of `shmap_write`, without the table lock. -/
def writePage (w : World) (t : Tid) (c : Flush) (m : Entry) (file : Option Nat) (done : Nat) : World :=
  match file with
  | none => w.goto t (.search c)
  | some f =>
    if done < m.len then
      let space := env.space t
      let chunk := min (m.len - done) PAGE_SIZE
      let w' := if w.present space ((m.va + done) / PAGE_SIZE) then
          { w with file := update w.file f fun o =>
              if m.foff + done ≤ o ∧ o < m.foff + done + chunk then w.mem space (m.va + (o - m.foff)) else w.file f o }
        else w
      w'.goto t (.write c m file (done + PAGE_SIZE))
    else w.goto t (.search c)

def resume (w : World) (t : Tid) : World :=
  match w.phase t with
  | .idle | .dead => w
  | .search c => w.search env t c
  | .write c m file done => w.writePage env t c m file done

end World

inductive Event where
  /-- `mmap` of file `f`, whose name is `path`, with `MAP_SHARED` and `PROT_WRITE` -/
  | mmap (t : Tid) (va len foff f : Nat) (path : Path)
  | store (t : Tid) (a : Nat) (v : UInt8)
  | munmap (t : Tid) (va len : Nat)
  | msync (t : Tid) (va len : Nat)
  /-- `last`: no other thread of the process is left -/
  | exit (t : Tid) (last : Bool)
  /-- the next step of a task that is in `shmap_flush` -/
  | resume (t : Tid)

/-- `va + (len ? len : 1)`, a 64-bit word. -/
def top (va len : Nat) : Nat := (va + if len = 0 then 1 else len) % 2^64

def World.unback (w : World) (space lo hi : Nat) : World := { w with
  backed := update w.backed space fun a => if lo ≤ a ∧ a < hi then none else w.backed space a }

def World.step (env : Env) (w : World) : Event → World
  | .mmap t va len foff f path =>
    if w.phase t = .idle then
      (w.fill (env.space t) (pageDown va) len foff f).register env ⟨t,pageDown va,len,foff,path,.used,f⟩
    else w
  | .store t a v => if w.phase t = .idle then w.store env t a v else w
  | .munmap t va len =>
    if w.phase t = .idle then
      (w.unback (env.space t) va (pageUp (top va len))).goto t (.search ⟨va,top va len,true,false⟩)
    else w
  | .msync t va len => if w.phase t = .idle then w.goto t (.search ⟨va,top va len,false,false⟩) else w
  | .exit t last =>
    if w.phase t = .idle then
      if last then { w with backed := update w.backed (env.space t) fun _ => none }.goto t (.search ⟨0,0,true,true⟩)
      else w.goto t .dead
    else w
  | .resume t => w.resume env t

/-- No mappings yet, and these files. -/
def World.start (file : Nat → Nat → UInt8) : World :=
  ⟨fun _ => ⟨0,0,0,0,[],.free,0⟩,file,fun _ _ => 0,fun _ _ => false,fun _ => .idle,fun _ _ => none,file,fun _ _ =>
    false,[],[]⟩

end UbixOS.Vmm.Shmap
