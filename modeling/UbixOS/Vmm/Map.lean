import UbixOS.Library.SearchTree
import UbixOS.Library.Run

/-! The VMA map of a process (`sys/vmm/vm_map.c`). The red-black tree is kept as the
sequence of its entries in order; a lookup is a descent in any tree with that sequence. -/
namespace UbixOS.Vmm.Map

open Library

abbrev Name := List UInt8

def slash : UInt8 := 47
def fileNameSize : Nat := 512

/-- An open file: its mount point, and the name under it that the descriptor keeps in `fileName`. -/
structure FileId where
  mount : Name
  name : Name
  deriving DecidableEq

/-- The longest mount point that ends where a component of the path does. -/
def findMount (mounts : List Name) (path : Name) : Option Name :=
  mounts.foldl (fun best m =>
    if m.isPrefixOf path ∧ (m.length ≤ 1 ∨ path[m.length]? = some slash ∨ path.length = m.length) ∧
      (best.elim 0 List.length) < m.length then some m else best) none

/-- The file that `fopen` finds by an absolute path. -/
def resolve (mounts : List Name) (path : Name) : Option FileId :=
  (findMount mounts path).map fun m =>
    let rest := if 1 < m.length then path.drop m.length else path
    ⟨m,((if rest.head? = some slash then rest else slash :: rest)).take (fileNameSize - 1)⟩

/-- Open descriptors that maps own: which file each is for and how often it was closed. -/
structure Files where
  mounts : List Name
  file : Nat → FileId
  next : Nat
  closes : Nat → Nat

namespace Files

def empty (mounts : List Name) : Files := ⟨mounts,fun _ => ⟨[],[]⟩,0,fun _ => 0⟩

def add (fs : Files) (file : FileId) : Files :=
  { fs with file := Function.update fs.file fs.next file, next := fs.next + 1 }

def fopen (fs : Files) (path : Name) (opens : Bool) : Option Nat × Files :=
  match resolve fs.mounts path,opens with
  | some file,true => (some fs.next,fs.add file)
  | _,_ => (none,fs)

/-- The name that the descriptor keeps leads back to its file. -/
def Leads (fs : Files) (fd : Nat) : Prop := resolve fs.mounts (fs.file fd).name = some (fs.file fd)

instance decidableLeads (fs : Files) (fd : Nat) : Decidable (fs.Leads fd) := inferInstanceAs (Decidable (_ = _))

def fclose (fs : Files) (fd : Nat) : Files := { fs with closes := Function.update fs.closes fd (fs.closes fd + 1) }

end Files

abbrev vmMapFile : UInt32 := 8

structure Entry where
  start : UInt64
  stop : UInt64
  prot : UInt32
  flags : UInt32
  vnode : Option Nat
  offset : UInt64
  deriving DecidableEq

namespace Entry

def isFile (e : Entry) : Bool := e.flags &&& vmMapFile != 0

/-- The descriptor that the entry must close. -/
def backing (e : Entry) : Option Nat := if e.isFile then e.vnode else none

def covers (e : Entry) (a : UInt64) : Bool := e.start ≤ a && a < e.stop

def cmpKey (a : UInt64) (e : Entry) : Ordering := if a < e.start then .gt else if e.stop ≤ a then .lt else .eq

end Entry

structure VmMap where
  entries : List Entry
  nentries : UInt32

namespace VmMap

def empty : VmMap := ⟨[],0⟩

def rbInsert (map : VmMap) (e : Entry) : VmMap :=
  ⟨SearchTree.place (fun other => e.start < other.start) e map.entries,map.nentries + 1⟩

def insert (map : VmMap) (start stop : UInt64) (prot flags : UInt32) (kmalloc : Bool) : Bool × VmMap :=
  if kmalloc then (true,map.rbInsert ⟨start,stop,prot,flags,none,0⟩) else (false,map)

def insertFile (map : VmMap) (start stop : UInt64) (prot flags : UInt32) (vnode : Option Nat) (offset : UInt64)
    (kmalloc : Bool) : Bool × VmMap :=
  if kmalloc then (true,map.rbInsert ⟨start,stop,prot,flags ||| vmMapFile,vnode,offset⟩) else (false,map)

end VmMap

/-- Which allocations of a call succeed, by the position of the entry they are for. -/
structure Outcomes where
  kmalloc : Nat → Bool
  fopen : Nat → Bool

def Files.release (fs : Files) (e : Entry) : Files := e.backing.elim fs fs.fclose

def Files.duplicate (fs : Files) (e : Entry) (opens : Bool) : Entry × Files :=
  match e.backing with
  | some fd => ({ e with vnode := (fs.fopen (fs.file fd).name opens).1 },(fs.fopen (fs.file fd).name opens).2)
  | none => (e,fs)

def Entry.tailAt (e : Entry) (stop : UInt64) : Entry :=
  { e with start := stop, offset := if e.backing.isSome then e.offset + (stop - e.start) else e.offset }

/-- What the loop of `vm_map_remove` leaves of one entry that starts before `stop`. -/
def removeEntry (start stop : UInt64) (kmalloc opens : Bool) (e : Entry) (count : UInt32) (fs : Files) :
    List Entry × UInt32 × Files :=
  if e.stop ≤ start then ([e],count,fs)
  else if start ≤ e.start ∧ e.stop ≤ stop then ([],count - 1,fs.release e)
  else if e.start < start ∧ start < e.stop ∧ e.stop ≤ stop then ([{ e with stop := start }],count,fs)
  else if start ≤ e.start ∧ e.start < stop ∧ stop < e.stop then
    ([{ e with start := stop, offset := if e.isFile then e.offset + (stop - e.start) else e.offset }],count,fs)
  else if e.start < start ∧ stop < e.stop then
    if kmalloc then
      -- all entries behind `e` start above `stop`, so `rb_insert` puts the tail next to it
      let (tail,fs) := fs.duplicate (e.tailAt stop) opens
      ([{ e with stop := start },tail],count + 1,fs)
    else ([{ e with stop := start }],count,fs)
  else ([e],count,fs)

/-- The loop, from the entry at position `k`. -/
def removeWalk (start stop : UInt64) (o : Outcomes) : Nat → List Entry → UInt32 → Files → List Entry × UInt32 × Files
  | _, [], count, fs => ([],count,fs)
  | k, e :: rest, count, fs =>
    if stop ≤ e.start then (e :: rest,count,fs)
    else
      let (pieces,count,fs) := removeEntry start stop (o.kmalloc k) (o.fopen k) e count fs
      let (rest,count,fs) := removeWalk start stop o (k + 1) rest count fs
      (pieces ++ rest,count,fs)

def VmMap.remove (map : VmMap) (start stop : UInt64) (o : Outcomes) (fs : Files) : VmMap × Files :=
  let (entries,count,fs) := removeWalk start stop o 0 map.entries map.nentries fs
  (⟨entries,count⟩,fs)

/-- `vm_map_lookup` in a tree of the entries. -/
def lookup (tree : SearchTree Entry) (a : UInt64) : Option Entry := tree.find (Entry.cmpKey a)

def VmMap.free (map : VmMap) (fs : Files) : VmMap × Files := (.empty,map.entries.foldl Files.release fs)

/-- The loop of `vm_map_copy`. -/
def copyWalk (o : Outcomes) : Nat → List Entry → VmMap → Files → Bool × VmMap × Files
  | _, [], dst, fs => (true,dst,fs)
  | k, e :: rest, dst, fs =>
    if o.kmalloc k then
      let (de,fs) := fs.duplicate e (o.fopen k)
      copyWalk o (k + 1) rest (dst.rbInsert de) fs
    else (false,dst,fs)

def VmMap.copy (dst src : VmMap) (o : Outcomes) (fs : Files) : Bool × VmMap × Files := copyWalk o 0 src.entries dst fs

/-- Protection, flags and, for a file, which it is and the offset behind the address. -/
structure Value where
  prot : UInt32
  flags : UInt32
  file : Option (FileId × UInt64)
  deriving DecidableEq

def Entry.value (fs : Files) (a : UInt64) (e : Entry) : Value :=
  ⟨e.prot,e.flags,e.backing.map fun fd => (fs.file fd,e.offset + (a - e.start))⟩

/-- The partial function that the entries stand for. -/
def meaning (fs : Files) (entries : List Entry) (a : UInt64) : Option Value :=
  (entries.find? (·.covers a)).map (Entry.value fs a)

structure Sys where
  maps : List VmMap
  files : Files

/-- Calls on map `i`. A file descriptor given to `insertFile` belongs to the map once the call succeeds. -/
inductive Event
  | new
  | insert (i : Nat) (start stop : UInt64) (prot flags : UInt32) (kmalloc : Bool)
  | insertFile (i : Nat) (start stop : UInt64) (prot flags : UInt32) (file : Option FileId) (offset : UInt64)
      (kmalloc : Bool)
  | remove (i : Nat) (start stop : UInt64) (o : Outcomes)
  | copy (i : Nat) (o : Outcomes)
  | free (i : Nat)

namespace Sys

def start (mounts : List Name) : Sys := ⟨[],.empty mounts⟩

def onMap (s : Sys) (i : Nat) (call : VmMap → VmMap × Files) : Sys :=
  match s.maps[i]? with
  | some map => ⟨s.maps.set i (call map).1,(call map).2⟩
  | none => s

/-- The descriptor of the caller. -/
def take (s : Sys) (file : Option FileId) : Option Nat × Files :=
  match file with
  | some file => (some s.files.next,s.files.add file)
  | none => (none,s.files)

def fn (s : Sys) (j : Nat) (a : UInt64) : Option Value := s.maps[j]?.bind fun map => meaning s.files map.entries a

end Sys

def step (s : Sys) : Event → Sys
  | .new => { s with maps := s.maps ++ [.empty] }
  | .insert i start stop prot flags kmalloc => s.onMap i fun map =>
    ((map.insert start stop prot flags kmalloc).2,s.files)
  | .insertFile i start stop prot flags file offset kmalloc =>
    s.onMap i fun map =>
      match map.insertFile start stop prot flags (s.take file).1 offset kmalloc with
      | (true,map) => (map,(s.take file).2)
      | (false,map) => (map,s.files)
  | .remove i start stop o => s.onMap i fun map => map.remove start stop o s.files
  | .copy i o =>
    match s.maps[i]? with
    | some map => ⟨s.maps ++ [(VmMap.empty.copy map o s.files).2.1],(VmMap.empty.copy map o s.files).2.2⟩
    | none => s
  | .free i => s.onMap i fun map => map.free s.files

def returns (s : Sys) : Event → Bool
  | .insert _ _ _ _ _ kmalloc => kmalloc
  | .insertFile _ _ _ _ _ _ _ kmalloc => kmalloc
  | .copy i o => s.maps[i]?.all fun map => (VmMap.empty.copy map o s.files).1
  | _ => true

/-- What the functions of the maps should be after a call that returns 0. -/
def expected (s : Sys) (e : Event) (j : Nat) (a : UInt64) : Option Value :=
  match e with
  | .new => s.fn j a
  | .insert i start stop prot flags _ => if j = i ∧ start ≤ a ∧ a < stop then some ⟨prot,flags,none⟩ else s.fn j a
  | .insertFile i start stop prot flags file offset _ =>
    if j = i ∧ start ≤ a ∧ a < stop then
      some ⟨prot,flags ||| vmMapFile,file.map fun file => (file,offset + (a - start))⟩
    else s.fn j a
  | .remove i start stop _ => if j = i ∧ start ≤ a ∧ a < stop then none else s.fn j a
  | .copy i _ => if j = s.maps.length then s.fn i a else s.fn j a
  | .free i => if j = i then none else s.fn j a

end UbixOS.Vmm.Map
