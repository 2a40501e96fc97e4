import UbixOS.Library.Chain

/-! The shared file-page cache (`sys/vmm/vm_filecache.c`): entries hashed by file page and
by frame, with an LRU list of the entries that no mapping uses. An entry is a node number;
`fresh` counts the entries ever allocated and bounds every walk. -/
namespace UbixOS.Vmm

open Library Function

abbrev filecacheBuckets : Nat := 256

structure PageKey where
  mp : UInt64
  fileid : UInt64
  offset : UInt64
  deriving DecidableEq, Repr

structure FilecacheEntry where
  key : PageKey
  phys : UInt32
  refcnt : UInt32
  deriving DecidableEq, Repr

structure Filecache where
  entry : Nat → FilecacheEntry
  fresh : Nat
  keyChains : Chains Nat Nat
  physChains : Chains Nat Nat
  count : UInt32
  inactHead : Option Nat
  inactTail : Option Nat
  inactPrev : Nat → Option Nat
  inactNext : Nat → Option Nat
  inactCount : UInt32

def keyHash (key : PageKey) : Nat :=
  let h := (key.fileid.toUInt32 ^^^ (key.fileid >>> 32).toUInt32) * 2654435761
  let h := h ^^^ (key.offset >>> 12).toUInt32
  let h := h ^^^ (key.mp.toUInt32 >>> 4)
  h.toNat % filecacheBuckets

def physHash (phys : UInt32) : Nat := ((phys >>> 12) * 2654435761).toNat % filecacheBuckets

namespace Filecache

def empty : Filecache where
  entry _ := ⟨⟨0,0,0⟩,0,0⟩
  fresh := 0
  keyChains := .empty
  physChains := .empty
  count := 0
  inactHead := none
  inactTail := none
  inactPrev _ := none
  inactNext _ := none
  inactCount := 0

def setEntry (c : Filecache) (e : Nat) (entry : FilecacheEntry) : Filecache :=
  { c with entry := update c.entry e entry }

def inactPush (c : Filecache) (e : Nat) : Filecache :=
  let next := update c.inactNext e none
  { c with
    inactPrev := update c.inactPrev e c.inactTail
    inactNext := match c.inactTail with
      | some tail => update next tail (some e)
      | none => next
    inactHead := match c.inactTail with
      | some _ => c.inactHead
      | none => some e
    inactTail := some e
    inactCount := c.inactCount + 1 }

def inactRemove (c : Filecache) (e : Nat) : Filecache :=
  let next := match c.inactPrev e with
    | some p => update c.inactNext p (c.inactNext e)
    | none => c.inactNext
  let prev := match c.inactNext e with
    | some n => update c.inactPrev n (c.inactPrev e)
    | none => c.inactPrev
  { c with
    inactHead := match c.inactPrev e with
      | some _ => c.inactHead
      | none => c.inactNext e
    inactTail := match c.inactNext e with
      | some _ => c.inactTail
      | none => c.inactPrev e
    inactPrev := update prev e none
    inactNext := update next e none
    inactCount := c.inactCount - 1 }

def findKey (c : Filecache) (key : PageKey) : Option Nat :=
  c.keyChains.search (fun e => (c.entry e).key == key) c.fresh (c.keyChains.head (keyHash key))

def findPhys (c : Filecache) (phys : UInt32) : Option Nat :=
  c.physChains.search (fun e => (c.entry e).phys == phys) c.fresh (c.physChains.head (physHash phys))

def ref (c : Filecache) (e : Nat) : Filecache :=
  let c := if (c.entry e).refcnt = 0 then c.inactRemove e else c
  c.setEntry e { c.entry e with refcnt := (c.entry e).refcnt + 1 }

def lookupRef (c : Filecache) (key : PageKey) : Option UInt32 × Filecache :=
  match c.findKey key with
  | some e => (some (c.entry e).phys,c.ref e)
  | none => (none,c)

/-- What `vm_filecache_insert` did. -/
inductive Inserted
  | inserted
  | lost (winner : UInt32)
  | noMemory
  deriving DecidableEq, Repr

/-- `memory` is whether `kmalloc` had room for the entry. -/
def insert (c : Filecache) (key : PageKey) (phys : UInt32) (memory : Bool) : Inserted × Filecache :=
  match c.findKey key with
  | some e => (.lost (c.entry e).phys,c.ref e)
  | none =>
    if memory then
      (.inserted,{ c.setEntry c.fresh ⟨key,phys,1⟩ with
        fresh := c.fresh + 1
        keyChains := c.keyChains.push (keyHash key) c.fresh
        physChains := c.physChains.push (physHash phys) c.fresh
        count := c.count + 1 })
    else (.noMemory,c)

def refPhys (c : Filecache) (phys : UInt32) : Filecache :=
  match c.findPhys phys with
  | some e => c.ref e
  | none => c

def unrefPhys (c : Filecache) (phys : UInt32) : Filecache :=
  match c.findPhys phys with
  | some e =>
    if (c.entry e).refcnt = 0 then c
    else
      let c := c.setEntry e { c.entry e with refcnt := (c.entry e).refcnt - 1 }
      if (c.entry e).refcnt = 0 then c.inactPush e else c
  | none => c

/-- Drops the least recently released entry and gives its frame. -/
def reclaim (c : Filecache) : Option (UInt32 × Filecache) :=
  match c.inactHead with
  | some e =>
    let c := c.inactRemove e
    some ((c.entry e).phys,{ c with
      physChains := c.physChains.unlink c.fresh (physHash (c.entry e).phys) e
      keyChains := c.keyChains.unlink c.fresh (keyHash (c.entry e).key) e
      count := c.count - 1 })
  | none => none

end Filecache

end UbixOS.Vmm
