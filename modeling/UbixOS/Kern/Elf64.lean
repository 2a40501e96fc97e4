import UbixOS.Vmm.Frame
import UbixOS.Vmm.Map

/-! The two ELF64 program loaders and the demand-fault resolver (`sys/kern/elf64_load.c`,
`sys/kern/elf64_demand.c`, `sys/vmm/vmm_demand.c`). An address space is what each of its pages
holds; `free` counts the frames that are left. -/
namespace UbixOS.Kern.Elf64

open Library Vmm Layout

structure Ehdr where
  ident : Bytes 16
  type : UInt16
  machine : UInt16
  entry : UInt64
  phoff : UInt64
  phentsize : UInt16
  phnum : UInt16

def Ehdr.at (b : Buffer) : Ehdr where
  ident := b.toBytes 16
  type := u16.get (b.drop 16)
  machine := u16.get (b.drop 18)
  entry := u64.get (b.drop 24)
  phoff := u64.get (b.drop 32)
  phentsize := u16.get (b.drop 54)
  phnum := u16.get (b.drop 56)

abbrev ehdrSize : Nat := 64

structure Phdr where
  type : UInt32
  flags : UInt32
  offset : UInt64
  vaddr : UInt64
  filesz : UInt64
  memsz : UInt64
  deriving DecidableEq, Repr

def Phdr.at (b : Buffer) : Phdr where
  type := u32.get b
  flags := u32.get (b.drop 4)
  offset := u64.get (b.drop 8)
  vaddr := u64.get (b.drop 16)
  filesz := u64.get (b.drop 32)
  memsz := u64.get (b.drop 40)

abbrev phdrSize : Nat := 56

abbrev ptLoad : UInt32 := 1
abbrev ptInterp : UInt32 := 3
abbrev etExec : UInt16 := 2
abbrev etDyn : UInt16 := 3
abbrev pfX : UInt32 := 1
abbrev pfW : UInt32 := 2
abbrev pfR : UInt32 := 4

/-- Magic, class, machine and type. -/
def Ehdr.native (mach : UInt16) (eh : Ehdr) : Bool :=
  eh.ident 0 == 0x7f && eh.ident 1 == 0x45 && eh.ident 2 == 0x4c && eh.ident 3 == 0x46 && eh.ident 4 == 2 &&
    eh.machine == mach && (eh.type == etExec || eh.type == etDyn)

def Ehdr.phdrOff (eh : Ehdr) (i : Nat) : UInt64 := eh.phoff + UInt64.ofNat i * eh.phentsize.toUInt64

structure LoadInfo where
  entry : UInt64
  phdrVa : UInt64
  phnum : UInt64
  phentsize : UInt64
  interpOff : UInt64
  interpSz : UInt64
  isDyn : Bool
  deriving DecidableEq, Repr

def LoadInfo.init (eh : Ehdr) (base : UInt64) : LoadInfo :=
  ⟨base + eh.entry,0,eh.phnum.toUInt64,eh.phentsize.toUInt64,0,0,eh.type == etDyn⟩

def LoadInfo.setInterp (info : LoadInfo) (ph : Phdr) : LoadInfo :=
  { info with interpOff := ph.offset, interpSz := ph.filesz }

/-- AT_PHDR from the first segment that holds the program headers. -/
def LoadInfo.notePhdr (info : LoadInfo) (eh : Ehdr) (base : UInt64) (ph : Phdr) : LoadInfo :=
  if info.phdrVa = 0 ∧ ph.offset ≤ eh.phoff ∧ eh.phoff < ph.offset + ph.filesz then
    { info with phdrVa := base + ph.vaddr + (eh.phoff - ph.offset) }
  else info

/-- A header that makes a loader map something. -/
def Phdr.loads (ph : Phdr) : Bool := ph.type == ptLoad && ph.memsz != 0

namespace Phdr

variable (base : UInt64) (ph : Phdr)

def segVaddr : UInt64 := base + ph.vaddr
def fileEnd : UInt64 := ph.segVaddr base + ph.filesz
def memEnd : UInt64 := ph.segVaddr base + ph.memsz

end Phdr

structure Space where
  page : UInt64 → Option Page
  free : Nat

namespace Space

def empty (free : Nat) : Space := ⟨fun _ => none,free⟩

def map (s : Space) (va : UInt64) (page : Page) : Space := { s with page := Function.update s.page va (some page) }

def mapNew (s : Space) (va : UInt64) (page : Page) : Option Space :=
  if s.free = 0 then none else some ({ s with free := s.free - 1 }.map va page)

def byte (s : Space) (a : UInt64) : Option UInt8 := (s.page (pageDown a)).map fun page => page.toBuffer (a.toNat % 4096)

end Space

/-- The frame of one page of a segment: zeros, and the slice of the file that falls on it. -/
def segmentPage (image : Buffer) (base : UInt64) (ph : Phdr) (va : UInt64) : Page :=
  let seg := ph.segVaddr base
  let copyLo := if seg < va then va else seg
  let copyHi := if va + 4096 < ph.fileEnd base then va + 4096 else ph.fileEnd base
  if copyLo < copyHi then
    (Buffer.zero.copy (copyLo - va).toNat (image.drop (ph.offset + (copyLo - seg)).toNat)
      (copyHi - copyLo).toNat).toBytes 4096
  else Bytes.zero

/-- The page loop of `load_segment`. -/
def loadPages (image : Buffer) (base : UInt64) (ph : Phdr) : Nat → UInt64 → Space → Option Space
  | 0, _, s => some s
  | n+1, va, s =>
    if va < pageUp (ph.memEnd base) then do
      let s ← s.mapNew va (segmentPage image base ph va)
      loadPages image base ph n (va + 4096) s
    else some s

def loadSegment (image : Buffer) (base : UInt64) (ph : Phdr) (s : Space) : Option Space :=
  let vaStart := pageDown (ph.segVaddr base)
  loadPages image base ph ((pageUp (ph.memEnd base) - vaStart).toNat / 4096) vaStart s

def loadStep (image : Buffer) (eh : Ehdr) (base : UInt64) (r : LoadInfo × Space) (ph : Phdr) :
    Option (LoadInfo × Space) :=
  if ph.type = ptInterp then some (r.1.setInterp ph,r.2)
  else if !ph.loads then some r
  else do
    let s ← loadSegment image base ph r.2
    return (r.1.notePhdr eh base ph,s)

def phdrs (image : Buffer) (eh : Ehdr) : List Phdr :=
  (List.range eh.phnum.toNat).map fun i => Phdr.at (image.drop (eh.phdrOff i).toNat)

def elf64LoadAt (mach : UInt16) (image : Buffer) (base : UInt64) (s : Space) : Option (LoadInfo × Space) :=
  let eh := Ehdr.at image
  if !eh.native mach then none
  else (phdrs image eh).foldlM (loadStep image eh base) (.init eh base,s)

/-- A file. Offsets are `off_t`, so it is shorter than 2^63 bytes. -/
structure File where
  size : Nat
  small : size < 2^63
  byte : Nat → UInt8
  ino : UInt64

namespace File

def get (f : File) (off : Nat) : UInt8 := if off < f.size then f.byte off else 0

def page (f : File) (off : UInt64) : Page := fun j => f.get (off.toNat + j.val)

/-- `vfs_pread_locked`: how many bytes were read, and a zeroed buffer after the read. -/
def pread (f : File) (off : UInt64) (len : Nat) : Nat × Buffer :=
  let n := min len (f.size - off.toNat)
  (n,Buffer.take (fun i => f.byte (off.toNat + i)) n)

end File

inductive DemandError
  | failed
  | eager
  deriving DecidableEq, Repr

/-- Which calls succeed while a segment is set up. -/
structure SegOutcome where
  fopen : Bool
  insertFile : Bool
  insertAnon : Bool

structure DemandState where
  info : LoadInfo
  map : Map.VmMap
  space : Space
  prevPageEnd : UInt64

abbrev vmProtRead : UInt32 := 1
abbrev vmProtWrite : UInt32 := 2
abbrev vmProtExec : UInt32 := 4
abbrev vmMapAnon : UInt32 := 1

def protOf (flags : UInt32) : UInt32 :=
  (if flags &&& pfR ≠ 0 then vmProtRead else 0) ||| (if flags &&& pfW ≠ 0 then vmProtWrite else 0) |||
    (if flags &&& pfX ≠ 0 then vmProtExec else 0)

def readPhdr (f : File) (eh : Ehdr) (i : Nat) : Except DemandError Phdr :=
  let r := f.pread (eh.phdrOff i) phdrSize
  if r.1 ≠ phdrSize then .error .failed else .ok (Phdr.at r.2)

/-- The first PT_INTERP header from `i` on, of `n` left. -/
def findInterp (f : File) (eh : Ehdr) : Nat → Nat → LoadInfo → Except DemandError LoadInfo
  | _, 0, info => .ok info
  | i, n+1, info => do
    let ph ← readPhdr f eh i
    if ph.type = ptInterp then return info.setInterp ph else findInterp f eh (i + 1) n info

/-- (a) The whole file-backed pages. -/
def mapFilePages (base : UInt64) (i : Nat) (o : SegOutcome) (ph : Phdr) (map : Map.VmMap) :
    Except DemandError Map.VmMap :=
  let vaPage := pageDown (ph.segVaddr base)
  let filePagesEnd := pageDown (ph.fileEnd base)
  if vaPage < filePagesEnd then
    if !o.fopen then .error .failed
    else
      let r := map.insertFile vaPage filePagesEnd (protOf ph.flags) 0 (some i) (pageDown ph.offset) o.insertFile
      if r.1 then .ok r.2 else .error .failed
  else .ok map

/-- The page with the end of the file data and the start of the BSS. -/
def boundaryPage (f : File) (base : UInt64) (ph : Phdr) : Page :=
  let filePagesEnd := pageDown (ph.fileEnd base)
  let boff := pageDown ph.offset + (filePagesEnd - pageDown (ph.segVaddr base))
  (f.pread boff (ph.fileEnd base - filePagesEnd).toNat).2.toBytes 4096

/-- (b) The boundary page, read at once. -/
def loadBoundary (f : File) (base : UInt64) (ph : Phdr) (s : Space) : Except DemandError Space :=
  let filePagesEnd := pageDown (ph.fileEnd base)
  if filePagesEnd < ph.fileEnd base then
    match s.mapNew filePagesEnd (boundaryPage f base ph) with
    | some s => .ok s
    | none => .error .failed
  else .ok s

/-- (c) The BSS pages past it. -/
def mapBss (base : UInt64) (o : SegOutcome) (ph : Phdr) (map : Map.VmMap) : Except DemandError Map.VmMap :=
  let bssStart := pageUp (ph.fileEnd base)
  let bssEnd := pageUp (ph.memEnd base)
  if bssStart < bssEnd then
    let r := map.insert bssStart bssEnd (protOf ph.flags) vmMapAnon o.insertAnon
    if r.1 then .ok r.2 else .error .failed
  else .ok map

def demandSegment (f : File) (eh : Ehdr) (base : UInt64) (i : Nat) (o : SegOutcome) (ph : Phdr) (d : DemandState) :
    Except DemandError DemandState :=
  if !ph.loads then .ok d
  else if pageDown (ph.segVaddr base) < d.prevPageEnd then .error .eager
  else do
    let map ← mapFilePages base i o ph d.map
    let space ← loadBoundary f base ph d.space
    let map ← mapBss base o ph map
    return ⟨d.info.notePhdr eh base ph,map,space,pageUp (ph.memEnd base)⟩

def demandSegments (f : File) (eh : Ehdr) (base : UInt64) (o : Nat → SegOutcome) : Nat → Nat → DemandState →
    Except DemandError DemandState
  | _, 0, d => .ok d
  | i, n+1, d => do
    let ph ← readPhdr f eh i
    let d ← demandSegment f eh base i (o i) ph d
    demandSegments f eh base o (i + 1) n d

/-- Into a new map and address space, as `execve` does. -/
def elf64LoadDemand (mach : UInt16) (f : File) (base : UInt64) (o : Nat → SegOutcome) (frames : Nat) :
    Except DemandError DemandState :=
  let r := f.pread 0 ehdrSize
  let eh := Ehdr.at r.2
  if r.1 ≠ ehdrSize ∨ !eh.native mach then .error .failed
  else do
    let info ← findInterp f eh 0 eh.phnum.toNat (.init eh base)
    demandSegments f eh base o 0 eh.phnum.toNat ⟨info,.empty,.empty frames,0⟩

/-- A process that runs the file; `cache` has the pages of the file that the file-page cache keeps, by offset. -/
structure Proc where
  map : Map.VmMap
  space : Space
  cache : UInt64 → Option Page

abbrev demandCluster : Nat := 16

def clusterLen (vma : Map.Entry) (pg : UInt64) : Nat :=
  let n := if vma.stop < pg + UInt64.ofNat (demandCluster * 4096) then (vma.stop - pg).toNat / 4096 else demandCluster
  if n = 0 then 1 else n

/-- What the allocator and the cache have for a fault: a contiguous run, frames below 4 GiB, memory for entries. -/
structure FaultOutcome where
  contig : Bool
  low : Nat → Bool
  memory : Nat → Bool

/-- One page of a cluster whose frames are read: skipped if it got a mapping, else mapped,
through the cache if it is read-only. -/
def mapClusterPage (vma : Map.Entry) (cacheable : Bool) (o : FaultOutcome) (pg : UInt64) (bytes : Buffer) (p : Proc)
    (i : Nat) :
    Proc :=
  let v := pg + UInt64.ofNat (i * 4096)
  let own := (bytes.drop (i * 4096)).toBytes 4096
  let freed : Space := { p.space with free := p.space.free + 1 }
  if (p.space.page v).isSome then { p with space := freed }
  else if cacheable && o.low i then
    let off := vma.offset + (v - vma.start)
    match p.cache off with
    | some winner => { p with space := freed.map v winner }
    | none =>
      { p with
        space := p.space.map v own
        cache := if o.memory i then Function.update p.cache off (some own) else p.cache }
  else { p with space := p.space.map v own }

/-- The read-ahead cluster, or one page if there is no contiguous run. -/
def readCluster (f : File) (vma : Map.Entry) (cacheable : Bool) (o : FaultOutcome) (pg : UInt64) (p : Proc) :
    Bool × Proc :=
  let want := clusterLen vma pg
  let n := if 1 < want ∧ o.contig ∧ want ≤ p.space.free then want else 1
  if p.space.free < n then (false,p)
  else
    let bytes := (f.pread (vma.offset + (pg - vma.start)) (n * 4096)).2
    (true,(List.range n).foldl (mapClusterPage vma cacheable o pg bytes)
      { p with space := { p.space with free := p.space.free - n } })

/-- `vmm_demand_fault`, in the map of the thread-group leader. The lookup is the descent of
`Map.lookup`, which finds the first entry that covers the page. -/
def fault (f : File) (p : Proc) (far : UInt64) (o : FaultOutcome) : Bool × Proc :=
  let pg := pageDown far
  match p.map.entries.find? (·.covers pg) with
  | none => (false,p)
  | some vma =>
    if vma.isFile then
      if vma.vnode.isNone then (false,p)
      else
        let cacheable := vma.prot &&& vmProtWrite == 0 && f.ino != 0
        match if cacheable then p.cache (vma.offset + (pg - vma.start)) else none with
        | some hit => (true,{ p with space := p.space.map pg hit })
        | none => readCluster f vma cacheable o pg p
    else
      match p.space.mapNew pg Bytes.zero with
      | some space => (true,{ p with space })
      | none => (false,p)

/-- Faults of the process, and what others do to the cache and to the free frames in between. -/
inductive Event
  | fault (far : UInt64) (o : FaultOutcome)
  | cache (cache : UInt64 → Option Page)
  | frames (free : Nat)

def step (f : File) (p : Proc) : Event → Proc
  | .fault far o => (fault f p far o).2
  | .cache cache => { p with cache }
  | .frames free => { p with space := { p.space with free } }

end UbixOS.Kern.Elf64
