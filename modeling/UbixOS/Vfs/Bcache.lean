import UbixOS.Library.Buffer
import UbixOS.Library.Chain
import UbixOS.Library.Run

/-! The block buffer cache (`sys/fs/vfs/bcache.c`): fixed slots found through hash
chains, clock eviction, and write-through to the device after the lock is dropped. -/
namespace UbixOS.Bcache

open Library Function

abbrev bcacheSlots : Nat := 8192

abbrev Sector := Bytes 512

abbrev Dev := UInt64

structure Slot where
  dev : Dev
  lba : UInt32
  valid : Bool
  ref : Bool
  data : Sector

structure Cache where
  slots : Nat → Slot
  chains : Chains Nat Nat
  hand : Nat

def bcacheHash (dev : Dev) (lba : UInt32) : Nat :=
  ((lba ^^^ (dev >>> 4).toUInt32 * 0x9E3779B1) &&& 4095).toNat

def Slot.caches (s : Slot) (dev : Dev) (lba : UInt32) : Bool := s.dev == dev && s.lba == lba

def Slot.bucket (s : Slot) : Nat := bcacheHash s.dev s.lba

namespace Cache

def init : Cache := ⟨fun _ => ⟨0,0,false,false,Bytes.zero⟩,.empty,0⟩

def setSlot (c : Cache) (i : Nat) (s : Slot) : Cache := { c with slots := update c.slots i s }

def slotFind (c : Cache) (dev : Dev) (lba : UInt32) : Option Nat :=
  c.chains.search (fun i => (c.slots i).caches dev lba) bcacheSlots (c.chains.head (bcacheHash dev lba))

def slotUnlink (c : Cache) (i : Nat) : Cache :=
  { c with
    chains := c.chains.unlink bcacheSlots (c.slots i).bucket i
    slots := update c.slots i { c.slots i with valid := false } }

def advance (c : Cache) : Cache := { c with hand := (c.hand + 1) % bcacheSlots }

/-- The clock: an unused slot, or the first one not referenced since the hand last passed. -/
def evictFrom : Nat → Cache → Cache × Nat
  | 0, c => (if (c.slots c.hand).valid then c.advance.slotUnlink c.hand else c.advance,c.hand)
  | tries+1, c =>
    if !(c.slots c.hand).valid then (c.advance,c.hand)
    else if !(c.slots c.hand).ref then (c.advance.slotUnlink c.hand,c.hand)
    else evictFrom tries (c.advance.setSlot c.hand { c.slots c.hand with ref := false })

def slotEvict (c : Cache) : Cache × Nat := evictFrom (bcacheSlots * 2) c

def slotNew (c : Cache) (dev : Dev) (lba : UInt32) : Cache × Nat :=
  let (c,i) := c.slotEvict
  ({ c with
      slots := update c.slots i { c.slots i with dev, lba, valid := true }
      chains := c.chains.push (bcacheHash dev lba) i },i)

def slotStore (c : Cache) (dev : Dev) (lba : UInt32) (data : Sector) : Cache :=
  let (c,i) := match c.slotFind dev lba with
    | some i => (c,i)
    | none => c.slotNew dev lba
  c.setSlot i { c.slots i with ref := true, data }

def sector (lba : UInt32) (i : Nat) : UInt32 := lba + UInt32.ofNat i

def allCached (c : Cache) (dev : Dev) (lba : UInt32) (count : Nat) : Bool :=
  (List.range count).all fun i => (c.slotFind dev (sector lba i)).isSome

/-- The cached copies of a run, and the cache with their reference bits set. -/
def copyOut (c : Cache) (dev : Dev) (lba : UInt32) : Nat → Cache × (Nat → Sector)
  | 0 => (c,fun _ => Bytes.zero)
  | n+1 =>
    let (c,out) := c.copyOut dev lba n
    match c.slotFind dev (sector lba n) with
    | none => (c,out)
    | some i => (c.setSlot i { c.slots i with ref := true },update out n (c.slots i).data)

def fill (c : Cache) (dev : Dev) (lba : UInt32) (out : Nat → Sector) : Nat → Cache
  | 0 => c
  | n+1 => (c.fill dev lba out n).slotStore dev (sector lba n) (out n)

/-- A write refreshes the copies that are cached; it adds none. -/
def refresh (c : Cache) (dev : Dev) (lba : UInt32) (data : Nat → Sector) : Nat → Cache
  | 0 => c
  | n+1 =>
    let c := c.refresh dev lba data n
    match c.slotFind dev (sector lba n) with
    | none => c
    | some i => c.setSlot i { c.slots i with ref := true, data := data n }

def dropDevice (c : Cache) (dev : Dev) : Nat → Cache
  | 0 => c
  | n+1 =>
    let c := c.dropDevice dev n
    if (c.slots n).valid && (c.slots n).dev == dev then c.slotUnlink n else c

def invalidate (c : Cache) (dev : Dev) : Cache := c.dropDevice dev bcacheSlots

end Cache

structure Req where
  dev : Dev
  lba : UInt32
  count : UInt32
  deriving DecidableEq

def Req.Covers (r : Req) (dev : Dev) (x : UInt32) : Prop := dev = r.dev ∧ (x - r.lba).toNat < r.count.toNat

instance (r : Req) (dev : Dev) (x : UInt32) : Decidable (r.Covers dev x) := inferInstanceAs (Decidable (_ ∧ _))

def Req.at (r : Req) (data : Nat → Sector) (x : UInt32) : Sector := data (x - r.lba).toNat

abbrev Disk := Dev → UInt32 → Sector

/-- A `bcache_write_multi` between its critical section and its transfer. -/
structure Writer where
  req : Req
  data : Nat → Sector

/-- A `bcache_read_multi` that missed and holds the lock; `buf` is what its transfer read.
`since` is what successful writes had left where no write was under way when the call began. -/
structure Reader where
  req : Req
  buf : Option (Nat → Sector)
  since : Dev → UInt32 → Option Sector

/-- A read that returned 0. -/
structure Reply where
  req : Req
  out : Nat → Sector
  since : Dev → UInt32 → Option Sector

/-- The write under way that covers the sector and started last. -/
def newest (writers : List Writer) (dev : Dev) (x : UInt32) : Option Writer :=
  writers.find? fun w => decide (w.req.Covers dev x)

/-- `writers` has the last started first. `acked` is what a successful write left in a
sector that no write has started on since it ended. -/
structure Sys where
  cache : Cache
  disk : Disk
  reader : Option Reader
  writers : List Writer
  acked : Dev → UInt32 → Option Sector
  replies : List Reply

def Sys.boot (disk : Disk) : Sys := ⟨Cache.init,disk,none,[],fun _ _ => none,[]⟩

inductive Event
  | readStart (req : Req)
  | readTransfer (ok : Bool)
  | readFill
  | writeStart (req : Req) (data : Nat → Sector)
  | writeTransfer (w : Nat)
  | writeFails (w : Nat) (written : Nat)
  | invalidate (dev : Dev)

namespace Sys

/-- The critical section of a read up to its transfer; a full hit ends it. -/
def readStart (s : Sys) (req : Req) : Sys :=
  if s.cache.allCached req.dev req.lba req.count.toNat then
    let (cache,out) := s.cache.copyOut req.dev req.lba req.count.toNat
    { s with cache, replies := ⟨req,out,s.acked⟩ :: s.replies }
  else { s with reader := some ⟨req,none,s.acked⟩ }

def readTransfer (s : Sys) (r : Reader) (ok : Bool) : Sys :=
  if ok then { s with reader := some { r with buf := some fun i => s.disk r.req.dev (Cache.sector r.req.lba i) } }
  else { s with reader := none }

def readFill (s : Sys) (r : Reader) (buf : Nat → Sector) : Sys :=
  { s with
    cache := s.cache.fill r.req.dev r.req.lba buf r.req.count.toNat
    reader := none
    replies := ⟨r.req,buf,r.since⟩ :: s.replies }

def writeStart (s : Sys) (req : Req) (data : Nat → Sector) : Sys :=
  { s with
    cache := s.cache.refresh req.dev req.lba data req.count.toNat
    writers := ⟨req,data⟩ :: s.writers
    acked := fun dev x => if req.Covers dev x then none else s.acked dev x }

def writeTransfer (s : Sys) (w : Writer) (i : Nat) : Sys :=
  { s with
    disk := fun dev x => if w.req.Covers dev x then w.req.at w.data x else s.disk dev x
    writers := s.writers.eraseIdx i
    acked := fun dev x =>
      if w.req.Covers dev x ∧ (newest (s.writers.eraseIdx i) dev x).isNone then some (w.req.at w.data x)
      else s.acked dev x }

/-- A refused transfer has stored the first `written` sectors of its run. -/
def writeFails (s : Sys) (w : Writer) (i written : Nat) : Sys :=
  { s with
    disk := fun dev x => if w.req.Covers dev x ∧ (x - w.req.lba).toNat < written then w.req.at w.data x
      else s.disk dev x
    writers := s.writers.eraseIdx i }

end Sys

/-- A section waits while a read holds the lock. -/
def step (s : Sys) : Event → Sys
  | .readStart req => if s.reader.isSome then s else s.readStart req
  | .readTransfer ok =>
    match s.reader with
    | some ⟨req,none,since⟩ => s.readTransfer ⟨req,none,since⟩ ok
    | _ => s
  | .readFill =>
    match s.reader with
    | some ⟨req,some buf,since⟩ => s.readFill ⟨req,some buf,since⟩ buf
    | _ => s
  | .writeStart req data => if s.reader.isSome then s else s.writeStart req data
  | .writeTransfer i =>
    match s.writers[i]? with
    | some w => s.writeTransfer w i
    | none => s
  | .writeFails i written =>
    match s.writers[i]? with
    | some w => s.writeFails w i written
    | none => s
  | .invalidate dev => if s.reader.isSome then s else { s with cache := s.cache.invalidate dev }

end UbixOS.Bcache
