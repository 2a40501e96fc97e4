import UbixOS.Library.Buffer
import UbixOS.Library.Fallible
import UbixOS.Vmm.Filecache

/-! The physical page allocator (`sys/vmm/vmm_memory.c`). A frame is its index in the
memory map, and its bytes are part of the state. -/
namespace UbixOS.Vmm

open Library

abbrev pageSize : Nat := 4096
abbrev sysID : Int := -2
abbrev vmmID : Int := -3

abbrev Page := Bytes pageSize

def pageDown (x : UInt64) : UInt64 := x &&& ~~~4095

def pageUp (x : UInt64) : UInt64 := (x + 4096 - 1) &&& ~~~4095

lemma add_pages_toNat (fits : off.toNat + n * 4096 < 2^64) (low : i < n) :
    (off + UInt64.ofNat (i * 4096)).toNat = off.toNat + i * 4096 := by
  have below : i * 4096 ≤ n * 4096 := Nat.mul_le_mul_right _ (Nat.le_of_lt low)
  have sum : off.toNat + i * 4096 < 2^64 := Nat.lt_of_le_of_lt (Nat.add_le_add_left below _) fits
  have small : i * 4096 < 2^64 := Nat.lt_of_le_of_lt (Nat.le_add_left _ _) sum
  rw [UInt64.toNat_add,UInt64.toNat_ofNat',Nat.mod_eq_of_lt small,Nat.mod_eq_of_lt sum]

inductive PageStatus
  | memAvail
  | memNotavail
  deriving DecidableEq, Repr

structure PageInfo where
  status : PageStatus
  pid : Int
  cowCounter : Int
  deriving DecidableEq, Repr

/-- `freePages` is the 32-bit `g_free_pages`, `hint` the scan cursor `g_vmm_free_hint`. -/
structure Vm where
  numPages : Nat
  info : Nat → PageInfo
  freePages : Nat
  hint : Nat
  cache : Filecache
  mem : Nat → Page

/-- Where the kernel stops for good, or loops for ever. -/
inductive Panic
  | invalidPid
  | outOfMemory
  | endless
  deriving DecidableEq, Repr

abbrev VmM := Fallible Panic Vm

/-- `vmm_mem_bitmap_init` and `vmm_mem_mark_available`: frames from `first` on are free. -/
def Vm.boot (numPages first : Nat) (mem : Nat → Page) : Vm where
  numPages := numPages
  info i := ⟨if first ≤ i ∧ i < numPages then .memAvail else .memNotavail,vmmID,0⟩
  freePages := (numPages - first) % 2^32
  hint := 0
  cache := .empty
  mem := mem

namespace Vm

def setInfo (vm : Vm) (i : Nat) (info : PageInfo) : Vm := { vm with info := Function.update vm.info i info }

def setPage (vm : Vm) (i : Nat) (page : Page) : Vm := { vm with mem := Function.update vm.mem i page }

def storeByte (vm : Vm) (i : Nat) (off : Fin pageSize) (byte : UInt8) : Vm :=
  vm.setPage i (Function.update (vm.mem i) off byte)

def isFree (vm : Vm) (i : Nat) : Bool := (vm.info i).status == .memAvail && (vm.info i).cowCounter == 0

def scan (vm : Vm) : Option Nat :=
  ((List.range vm.numPages).map fun scanned =>
    if vm.numPages ≤ vm.hint + scanned then vm.hint + scanned - vm.numPages else vm.hint + scanned).find? vm.isFree

def take (vm : Vm) (pid : Int) (i : Nat) : Vm :=
  { vm.setInfo i { vm.info i with status := .memNotavail, pid } with
    freePages := (vm.freePages + (2^32 - 1)) % 2^32
    hint := if i + 1 < vm.numPages then i + 1 else 0 }

def putBack (vm : Vm) (i : Nat) (pid : Int) : Vm :=
  { vm.setInfo i ⟨.memAvail,pid,0⟩ with freePages := (vm.freePages + 1) % 2^32 }

def adjustCowCounter (vm : Vm) (i : Nat) (adjustment : Int) : Vm :=
  if vm.numPages ≤ i then vm
  else
    let counter := (vm.info i).cowCounter + adjustment
    if counter ≤ 0 then vm.putBack i vmmID
    else vm.setInfo i { vm.info i with cowCounter := counter }

def freePage (vm : Vm) (i : Nat) : Vm :=
  if vm.numPages ≤ i then vm
  else if (vm.info i).cowCounter = 0 then vm.putBack i (-2)
  else vm.adjustCowCounter i (-1)

/-- `swap_evict_page`: a clean file page is dropped and its frame freed. -/
def evict (vm : Vm) : Option Vm :=
  match vm.cache.reclaim with
  | some (phys,cache) => if phys = 0 then none else some ({ vm with cache }.freePage (phys.toNat / pageSize))
  | none => none

/-- The search with its retries after an eviction. -/
def findFrom (pid : Int) : Nat → Vm → Option Nat × Vm
  | 0, vm => (none,vm)
  | tries+1, vm =>
    match vm.scan with
    | some i => (some i,vm.take pid i)
    | none =>
      match vm.evict with
      | some vm => findFrom pid tries vm
      | none => (none,vm)

end Vm

/-- Out of memory stops the kernel for its own requests; a user task is ended and gets nothing. -/
def vmmFindFreePage (pid : Int) : VmM (Option Nat) := ⟨fun vm =>
  if pid < sysID then (.error .invalidPid,vm)
  else
    match vm.findFrom pid (vm.cache.inactCount.toNat + 1) with
    | (some i,vm) => (.ok (some i),vm)
    | (none,vm) => if pid = sysID then (.error .outOfMemory,vm) else (.ok none,vm)⟩

end UbixOS.Vmm
