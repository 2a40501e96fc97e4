import UbixOS.Vmm.Frame

/-! User page tables (`sys/arch/aarch64/vmm/pmap.c`): the three-level tree of a TTBR0 root,
its mapping, copy-on-write and teardown. A table is kept apart from the bytes of the frame
it lies in. -/
namespace UbixOS.Vmm

open Library

abbrev Idx := Fin 512

instance Idx.neZero : NeZero 512 := ⟨by decide⟩
instance Page.neZero : NeZero 4096 := ⟨by decide⟩

structure Table (α : Type) where
  frame : Nat
  slot : Idx → Option α

/-- A level-3 descriptor: the frame and the bits that the kernel tests. -/
structure Pte where
  frame : Nat
  executable : Bool
  ro : Bool
  cow : Bool
  shared : Bool
  wired : Bool
  deriving DecidableEq, Repr

abbrev L3 := Table Pte
abbrev L2 := Table L3
abbrev L1 := Table L2

/-- The part of a virtual address that selects a page: 39 bits without the offset. -/
structure Va where
  i1 : Idx
  i2 : Idx
  i3 : Idx
  deriving DecidableEq, Repr

def Va.of (va : UInt64) : Va :=
  ⟨Fin.ofNat 512 (va.toNat / 2^30),Fin.ofNat 512 (va.toNat / 2^21),Fin.ofNat 512 (va.toNat / 2^12)⟩

namespace Table

def new (frame : Nat) : Table α := ⟨frame,fun _ => none⟩

def put (t : Table α) (i : Idx) (x : Option α) : Table α := { t with slot := Function.update t.slot i x }

def slots (t : Table α) : List (Idx × α) := (List.finRange 512).filterMap fun i => (t.slot i).map fun x => (i,x)

end Table

namespace L1

def pte (l1 : L1) (va : Va) : Option Pte :=
  match l1.slot va.i1 with
  | none => none
  | some l2 =>
    match l2.slot va.i2 with
    | none => none
    | some l3 => l3.slot va.i3

/-- Overwrites a descriptor whose tables exist. -/
def putPte (l1 : L1) (va : Va) (pte : Option Pte) : L1 :=
  match l1.slot va.i1 with
  | none => l1
  | some l2 =>
    match l2.slot va.i2 with
    | none => l1
    | some l3 => l1.put va.i1 (some (l2.put va.i2 (some (l3.put va.i3 pte))))

/-- The mapped pages in the order of the walks over the whole tree. -/
def entries (l1 : L1) : List (Va × Pte) :=
  l1.slots.flatMap fun (i1,l2) => l2.slots.flatMap fun (i2,l3) => l3.slots.map fun (i3,pte) => (⟨i1,i2,i3⟩,pte)

end L1

/-- The next-level table, allocated if the slot is empty. -/
def tableNext (t : Table (Table α)) (i : Idx) : VmM (Table α) :=
  match t.slot i with
  | some next => pure next
  | none => do
    match ← vmmFindFreePage sysID with
    | some frame => return .new frame
    | none => .fail .outOfMemory

def pmapMapPage (l1 : L1) (va : Va) (pte : Pte) : VmM L1 := do
  let l2 ← tableNext l1 va.i1
  let l3 ← tableNext l2 va.i2
  return l1.put va.i1 (some (l2.put va.i2 (some (l3.put va.i3 (some pte)))))

def pmapMapUserPage (l1 : L1) (va : Va) (frame : Nat) (executable : Bool) : VmM L1 :=
  pmapMapPage l1 va ⟨frame,executable,false,false,false,false⟩

/-- The physical address behind `va`, or 0. -/
def pmapExtract (l1 : L1) (va : UInt64) : Nat :=
  match l1.pte (Va.of va) with
  | some pte => pte.frame * pageSize + va.toNat % pageSize
  | none => 0

def mdUserMapped (l1 : L1) (va : UInt64) : Bool := pmapExtract l1 va != 0

def Pte.phys (pte : Pte) : UInt32 := UInt32.ofNat (pte.frame * pageSize)

def Vm.release (vm : Vm) (pte : Pte) : Vm :=
  if pte.wired then vm
  else if pte.shared then { vm with cache := vm.cache.unrefPhys pte.phys }
  else vm.freePage pte.frame

def mdUnmapUserPage (l1 : L1) (va : Va) : VmM L1 :=
  match l1.pte va with
  | none => pure l1
  | some pte => do
    .modify fun vm => vm.release pte
    return l1.putPte va none

/-- A fresh frame with the given bytes in place of whatever `va` maps, as the region code
and the program loaders map a page; `false` if there is no frame. -/
def mapNewPage (l1 : L1) (va : Va) (page : Page) (executable : Bool) (pid : Int) : VmM (Bool × L1) := do
  match ← vmmFindFreePage pid with
  | none => return (false,l1)
  | some frame =>
    let l1 ← mdUnmapUserPage l1 va
    .modify fun vm => vm.setPage frame page
    return (true,← pmapMapUserPage l1 va frame executable)

def pmapCreateUserSpace : VmM L1 := do
  match ← vmmFindFreePage sysID with
  | some frame => return .new frame
  | none => .fail .outOfMemory

def Pte.marked (pte : Pte) : Pte := { pte with ro := true, cow := true }

/-- One page of a fork: device frames and file pages are shared as they are, a private
page becomes copy-on-write in both spaces. -/
def forkPage (spaces : L1 × L1) (page : Va × Pte) : VmM (L1 × L1) := do
  let (parent,child) := spaces
  let (va,pte) := page
  let vm ← .get
  if pte.wired ∨ vm.numPages ≤ pte.frame then
    return (parent,← pmapMapPage child va pte)
  else if pte.shared then
    let child ← pmapMapPage child va pte
    .modify fun vm => { vm with cache := vm.cache.refPhys pte.phys }
    return (parent,child)
  else if pte.cow then
    let child ← pmapMapPage child va pte
    .modify fun vm => vm.adjustCowCounter pte.frame 1
    return (parent,child)
  else
    let child ← pmapMapPage child va pte.marked
    .modify fun vm => vm.adjustCowCounter pte.frame 2
    return (parent.putPte va (some pte.marked),child)

/-- The parent with its pages marked, and the child. -/
def pmapForkCopy (parent : L1) : VmM (L1 × L1) := do
  let child ← pmapCreateUserSpace
  parent.entries.foldlM forkPage (parent,child)

def Pte.copied (pte : Pte) (neu : Nat) : Pte := { pte with frame := neu, ro := false, cow := false, shared := false }

/-- Whether the write is to be retried, and the tree. The new frame is taken first. -/
def pmapCowFault (l1 : L1) (va : Va) (pid : Int) : VmM (Bool × L1) := do
  match ← vmmFindFreePage pid with
  | none => return (false,l1)
  | some neu =>
    match l1.pte va with
    | none =>
      .modify fun vm => vm.freePage neu
      return (false,l1)
    | some pte =>
      if !pte.cow && !pte.shared then
        -- another thread resolved the fault, or the page is read-only text
        .modify fun vm => vm.freePage neu
        return (!pte.ro,l1)
      else
        .modify fun vm => vm.setPage neu (vm.mem pte.frame)
        .modify fun vm =>
          if pte.shared then { vm with cache := vm.cache.unrefPhys pte.phys } else vm.adjustCowCounter pte.frame (-1)
        return (true,l1.putPte va (some (pte.copied neu)))

/-- A store by the process: a read-only page faults first, and the store is retried if the
fault was resolved. `false` if the process does not get past it. -/
def userStore (l1 : L1) (va : Va) (off : Fin pageSize) (byte : UInt8) (pid : Int) : VmM (Bool × L1) := do
  match l1.pte va with
  | none => return (false,l1)
  | some pte =>
    if pte.ro then
      let (retry,l1) ← pmapCowFault l1 va pid
      match retry,l1.pte va with
      | true,some pte =>
        .modify fun vm => vm.storeByte pte.frame off byte
        return (true,l1)
      | _,_ => return (false,l1)
    else
      .modify fun vm => vm.storeByte pte.frame off byte
      return (true,l1)

def Vm.freeL3 (vm : Vm) (l3 : L3) : Vm :=
  (l3.slots.foldl (fun vm (_,pte) => vm.release pte) vm).freePage l3.frame

def Vm.freeL2 (vm : Vm) (l2 : L2) : Vm :=
  (l2.slots.foldl (fun vm (_,l3) => vm.freeL3 l3) vm).freePage l2.frame

def pmapFreeUserSpace (l1 : L1) : VmM Unit :=
  .modify fun vm => (l1.slots.foldl (fun vm (_,l2) => vm.freeL2 l2) vm).freePage l1.frame

end UbixOS.Vmm
