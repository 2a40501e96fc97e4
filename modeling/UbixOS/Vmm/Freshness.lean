import UbixOS.Vmm.FilecacheOk
import UbixOS.Vmm.Frame
import UbixOS.Ubfs.Vfs

/-! Read-only file mappings beside file operations: `vmm_demand_fault` on a UbixFS mount with
the file-page cache. A fault that misses reads a cluster of pages at once and then publishes
them; any other event may come in between. A frame is its physical address. -/
namespace UbixOS.Vmm.Freshness

open Library Ubfs Function UInt64 List Filecache

/-- A buffer of zeros after a read into it. -/
def received : Except Int (Buffer × UInt64) → Buffer
  | .ok (buf,n) => buf.take n.toNat
  | .error _ => Buffer.zero

/-- `n` pages of a file from `off` on, with zeros behind its end. -/
def cluster (S : Store) (obj off : UInt64) (n : Nat) : Buffer :=
  received (FsProg.on (Fs.read obj.toNat off (ofNat (n * 4096))) S).1

def filePage (S : Store) (obj off : UInt64) : Page := (cluster S obj off 1).toBytes 4096

lemma readLen_toNat (size : UInt64) (fits : off.toNat + len.toNat < 2^64) :
    (Fs.readLen size off len).toNat = min len.toNat (size.toNat - off.toNat) := by
  rw [Fs.readLen]
  split
  next past =>
    rw [UInt64.le_iff_toNat_le] at past
    rw [UInt64.toNat_zero]
    omega
  rename_i inside
  rw [UInt64.le_iff_toNat_le] at inside
  have sum : (off + len).toNat = off.toNat + len.toNat := by
    rw [UInt64.toNat_add,Nat.mod_eq_of_lt fits]
  split
  next short =>
    rw [UInt64.lt_iff_toNat_lt,sum] at short
    rw [UInt64.toNat_sub_of_le _ _ (by rw [UInt64.le_iff_toNat_le]; omega)]
    omega
  next long =>
    rw [UInt64.lt_iff_toNat_lt,sum] at long
    omega

lemma cluster_apply (S : Store) (fits : off.toNat + n * 4096 < 2^64) (inside : i < n * 4096) : cluster S obj off n i =
      if (S.obj obj.toNat).info.bonustype = btInode ∧ off.toNat + i < (S.obj obj.toNat).inode.size.toNat then
        (S.obj obj.toNat).seen (off.toNat + i) else 0 := by
  have len : (ofNat (n * 4096)).toNat = n * 4096 := by
    rw [toNat_ofNat',Nat.mod_eq_of_lt (by omega)]
  rw [cluster,Fs.read_on]
  by_cases attributes : (S.obj obj.toNat).info.bonustype = btInode
  · simp only [if_pos attributes,received]
    have some := readLen_toNat (S.obj obj.toNat).inode.size
      (len.symm ▸ fits : off.toNat + (ofNat (n * 4096)).toNat < 2^64)
    rw [len] at some
    rw [Buffer.take_apply,Obj.read_seen _ (by omega),some]
    by_cases near : off.toNat + i < (S.obj obj.toNat).inode.size.toNat
    · rw [if_pos (by omega),if_pos (by omega),if_pos ⟨attributes,near⟩]
    · rw [if_neg (by omega),if_neg (fun both => near both.2)]
  · simp only [if_neg attributes,received]
    rw [if_neg fun both => attributes both.1]
    rfl

lemma cluster_page (S : Store) (fits : off.toNat + n * 4096 < 2^64) (low : i < n) :
    ((cluster S obj off n).drop (i * 4096)).toBytes 4096 = filePage S obj (off + ofNat (i * 4096)) := by
  have place := add_pages_toNat fits low
  funext j
  change cluster S obj off n (i * 4096 + j.val) = cluster S obj (off + ofNat (i * 4096)) 1 j.val
  rw [cluster_apply S fits (by omega),cluster_apply S (by rw [place]; omega) (by omega),place,Nat.add_assoc]

/-- A page that a fault has read and not yet published. -/
structure Pending where
  obj : UInt64
  off : UInt64
  frame : UInt64
  deriving DecidableEq, Repr

/-- `handles` are the objects of the open files, `mp` is the mount's identity in the cache. -/
structure World where
  mount : Mount
  handles : List UInt64
  mp : UInt64
  cache : Filecache
  mem : UInt64 → Page
  pending : List Pending

inductive FileOp
  | openFile (now : UInt64) (path : List UInt8) (mode : Mount.OpenMode) (memory tracked : Bool)
  | closeFile (obj : UInt64)
  | writeFile (now obj off : UInt64) (buf : Buffer) (len : UInt64)
  | chmod (now obj mode : UInt64)
  | symlink (now : UInt64) (target linkpath : List UInt8)
  | mkdir (now : UInt64) (path : List UInt8)
  | unlink (path : List UInt8)
  | rename (now : UInt64) (src dst : List UInt8)

namespace FileOp

/-- The object of the handle that the operation is for. -/
def target : FileOp → Option UInt64
  | .closeFile obj | .writeFile _ obj _ _ _ | .chmod _ obj _ => some obj
  | _ => none

def clock (m : Mount) : FileOp → Mount
  | .openFile now _ _ _ _ | .writeFile now _ _ _ _ | .chmod now _ _ | .symlink now _ _ | .mkdir now _
  | .rename now _ _ => m.touchClock now
  | .closeFile _ | .unlink _ => m

/-- The calls that the driver makes, the object of the new handle and the open objects after it. -/
def prog (m : Mount) : FileOp → FsProg (Option Nat × List OpenObj)
  | .openFile _ path mode memory tracked => m.openFile path mode memory tracked
  | .closeFile obj => do
    let opens ← m.closeFile obj.toNat
    return (none,opens)
  | .writeFile _ obj off buf len => do
    let _ ← (m.writeFile obj.toNat off buf len).attempt
    return (none,m.openobjs)
  | .chmod _ obj mode => do
    let _ ← (m.chmod obj.toNat mode).attempt
    return (none,m.openobjs)
  | .symlink _ target linkpath => do
    let _ ← (m.symlink target linkpath).attempt
    return (none,m.openobjs)
  | .mkdir _ path => do
    let _ ← (m.mkdir path).attempt
    return (none,m.openobjs)
  | .unlink path => do
    let (_,opens) ← m.unlink path
    return (none,opens)
  | .rename _ src dst => do
    let (_,opens) ← m.rename src dst
    return (none,opens)

/-- The handles that are left. -/
def remaining (handles : List UInt64) : FileOp → List UInt64
  | .closeFile obj => handles.erase obj
  | _ => handles

end FileOp

abbrev demandCluster : Nat := 16

def frameRun (base : UInt64) (n : Nat) : List UInt64 := (range n).map fun i => base + ofNat (i * 4096)

namespace World

def boot (mount : Mount) (handles : List UInt64) (mp : UInt64) (mem : UInt64 → Page) : World :=
  ⟨mount,handles,mp,.empty,mem,[]⟩

def frames (w : World) : List UInt64 := w.pending.map (·.frame)

/-- Neither cached nor waiting to be published: the allocator may hand it out. -/
def free (w : World) (frame : UInt64) : Bool :=
  frame ∉ w.frames && (2^32 ≤ frame.toNat || (w.cache.findPhys frame.toUInt32).isNone)

def fileOp (w : World) (op : FileOp) : World :=
  if ∃ obj ∈ op.target, obj ∉ w.handles then w
  else
    let m := op.clock w.mount
    let r := FsProg.on (op.prog m) m.store
    match r.1 with
    | .ok (opened,openobjs) => { w with
      mount := { m with store := r.2, openobjs }
      handles := (opened.map ofNat).toList ++ op.remaining w.handles }
    | .error _ => { w with mount := { m with store := r.2 }, handles := op.remaining w.handles }

/-- One read fills the run of frames; each page then waits to be published. -/
def readCluster (w : World) (obj off base : UInt64) (n : Nat) : World :=
  let bytes := cluster w.mount.store obj off n
  { w with
    mem := fun p => if p ∈ frameRun base n then (bytes.drop (p - base).toNat).toBytes 4096 else w.mem p
    pending := ((range n).map fun i =>
      ⟨obj,off + ofNat (i * 4096),base + ofNat (i * 4096)⟩) ++ w.pending }

/-- A fault on a read-only mapping of an open file, with the frame it finds in the cache. On a miss
`base` is the run of `n` frames the allocator gives, if it has one. -/
def fault (w : World) (obj off base : UInt64) (n : Nat) : Option UInt32 × World :=
  if obj ∉ w.handles ∨ obj = 0 then (none,w)
  else
    let found := w.cache.lookupRef ⟨w.mp,obj,off⟩
    let w := { w with cache := found.2 }
    match found.1.filter (· ≠ 0) with
    | some hit => (some hit,w)
    | none =>
      if n ≤ demandCluster ∧ (frameRun base n).Nodup ∧ (frameRun base n).all w.free then
        (none,w.readCluster obj off base n)
      else (none,w)

/-- The next step of a fault for a page it read. `mapped` is whether the address got a page in
the meantime, `memory` whether there was room for a cache entry. -/
def publish (w : World) (p : Pending) (mapped memory : Bool) : World :=
  if p ∈ w.pending then
    let w := { w with pending := w.pending.erase p }
    if mapped ∨ 2^32 ≤ p.frame.toNat then w
    else { w with cache := (w.cache.insert ⟨w.mp,p.obj,p.off⟩ p.frame.toUInt32 memory).2 }
  else w

def reclaim (w : World) : World :=
  match w.cache.reclaim with
  | some (_,cache) => { w with cache }
  | none => w

def use (w : World) (frame : UInt64) (page : Page) : World :=
  if w.free frame then { w with mem := update w.mem frame page } else w

end World

inductive Event
  | file (op : FileOp)
  | fault (obj off base : UInt64) (n : Nat)
  | publish (p : Pending) (mapped memory : Bool)
  | refPhys (phys : UInt32)
  | unrefPhys (phys : UInt32)
  | reclaim
  | use (frame : UInt64) (page : Page)

def step (w : World) : Event → World
  | .file op => w.fileOp op
  | .fault obj off base n => (w.fault obj off base n).2
  | .publish p mapped memory => w.publish p mapped memory
  | .refPhys phys => { w with cache := w.cache.refPhys phys }
  | .unrefPhys phys => { w with cache := w.cache.unrefPhys phys }
  | .reclaim => w.reclaim
  | .use frame page => w.use frame page

namespace World

/-- The object is allocated, or a file still has it open. -/
def Present (w : World) (obj : UInt64) : Prop := (w.mount.store.obj obj.toNat).info.type ≠ otNone ∨ obj ∈ w.handles

/-- A frame keeps the page for later faults. -/
def Holds (w : World) (obj off : UInt64) : Prop :=
  (∃ phys, w.cache.page ⟨w.mp,obj,off⟩ = some phys) ∨ ∃ p ∈ w.pending, p.obj = obj ∧ p.off = off

/-- Every frame that keeps a page of a file has what the file holds. -/
structure Fresh (w : World) : Prop where
  sound : w.cache.Sound
  cached : ∀ obj off phys, w.cache.page ⟨w.mp,obj,off⟩ = some phys → w.Present obj →
    w.mem phys.toUInt64 = filePage w.mount.store obj off
  waiting : ∀ p ∈ w.pending, w.Present p.obj → w.mem p.frame = filePage w.mount.store p.obj p.off
  nodup : w.frames.Nodup
  apart : ∀ key phys, w.cache.page key = some phys → phys.toUInt64 ∉ w.frames

end World

/-- A DMU call that changes what reads of the object give: it writes the object or moves its end, hands out its number,
or frees it while a file has it open. -/
def Changes (opened : Prop) (obj : Nat) : Cmd β → Store → Prop
  | .objectAlloc otype bonustype, S => (S.alloc otype bonustype).1 = obj
  | .objectFree n, _ => n = obj ∧ opened
  | .setBonus n bonustype _ bonus, S =>
    n = obj ∧ ¬(bonustype = (S.obj n).info.bonustype ∧ (bonusInode bonus).size = (S.obj n).inode.size)
  | .setDatablksz n _, _ | .write n _ _ _, _ => n = obj
  | .getInfo _, _ | .read _ _ _, _ => False

/-- No file operation changes an object with a page that a frame keeps, and none opens such an object that is not
allocated; reference counts and file offsets do not overflow. -/
structure Calm (w : World) (e : Event) : Prop where
  spares : ∀ op, e = .file op → ∀ obj off, w.Holds obj off →
    let m := op.clock w.mount
    (op.prog m).Meets Cmd.eval (fun c S => ¬Changes (obj ∈ op.remaining w.handles) obj.toNat c S) m.store ∧
      ∀ n opens, (FsProg.on (op.prog m) m.store).1 = .ok (some n,opens) → ofNat n = obj →
        ((FsProg.on (op.prog m) m.store).2.obj obj.toNat).info.type ≠ otNone
  room : w.cache.Room
  fits : ∀ obj off base n, e = .fault obj off base n → off.toNat + n * 4096 < 2^64

/-- Reads of the two give the same. -/
structure SamePages (o o' : Obj) : Prop where
  type : o'.info.type = o.info.type
  bonustype : o'.info.bonustype = o.info.bonustype
  size : o'.inode.size = o.inode.size
  recs : o'.recs = o.recs
  recordSize : o'.info.recordSize = o.info.recordSize
  height : o'.info.height = o.info.height

namespace SamePages

lemma refl (o : Obj) : SamePages o o := ⟨rfl,rfl,rfl,rfl,rfl,rfl⟩

variable {o o' : Obj} (same : SamePages o o')
include same

lemma trans (next : SamePages o' o'') : SamePages o o'' :=
  ⟨next.type.trans same.type,next.bonustype.trans same.bonustype,next.size.trans same.size,next.recs.trans same.recs,
    next.recordSize.trans same.recordSize,next.height.trans same.height⟩

lemma readRecords (fuel off len : Nat) : o'.readRecords fuel off len = o.readRecords fuel off len := by
  induction fuel generalizing off len with
  | zero => rfl
  | succ fuel ih =>
    rw [Obj.readRecords,Obj.readRecords,same.recordSize]
    simp only [ih,Obj.readRec,Obj.reach,same.recs,same.height]

omit same in
lemma filePage {S T : Store} {obj : UInt64} (same : SamePages (S.obj obj.toNat) (T.obj obj.toNat)) (off : UInt64) :
    filePage T obj off = filePage S obj off := by
  simp only [Freshness.filePage,cluster,Fs.read_on,same.bonustype,same.size,Obj.read,same.readRecords]

end SamePages

/-- What a file operation that spares the object leaves of it. -/
def Spared (opened : Prop) (obj : Nat) (S T : Store) : Prop :=
  (T.obj obj).info.type = otNone ∧ ¬opened ∨ SamePages (S.obj obj) (T.obj obj)

lemma Spared.eval (c : Cmd β) (spared : Spared opened obj S T) (spares : ¬Changes opened obj c T) :
    Spared opened obj S (c.eval T).2 := by
  -- a call for another object leaves this one as it is
  have other {U : Store} (same : U.obj obj = T.obj obj) : Spared opened obj S U := by
    rw [Spared,same]
    exact spared
  have set {U : Store} {n : Nat} {o : Obj} (objs : U.obj = (T.set n o).obj) (away : n ≠ obj) :
      Spared opened obj S U := other (by rw [objs]; exact if_neg (Ne.symm away))
  cases c with
  | objectAlloc otype bonustype =>
    change ¬(T.alloc otype bonustype).1 = obj at spares
    change Spared opened obj S (T.alloc otype bonustype).2
    rw [Store.alloc] at spares ⊢
    cases free : T.free with
    | nil =>
      rw [free] at spares
      exact set rfl spares
    | cons n rest =>
      rw [free] at spares
      exact set rfl spares
  | objectFree n =>
    change ¬(n = obj ∧ opened) at spares
    change Spared opened obj S (T.release n)
    rw [Store.release]
    split
    · exact spared
    have objs : ((T.set n Obj.zero).recycle n).obj = (T.set n Obj.zero).obj := by
      rw [Store.recycle]
      split <;> rfl
    by_cases here : n = obj
    · refine .inl ⟨?_,fun opened => spares ⟨here,opened⟩⟩
      have stored : (T.set n Obj.zero).obj obj = Obj.zero := if_pos here.symm
      rw [objs,stored]
      rfl
    · exact set objs here
  | setBonus n bonustype bonuslen bonus =>
    by_cases here : n = obj
    · subst here
      have kept := not_not.mp fun changed => spares ⟨rfl,changed⟩
      have same : SamePages (T.obj n) (((Cmd.setBonus n bonustype bonuslen bonus).eval T).2.obj n) := by
        have stored : ((Cmd.setBonus n bonustype bonuslen bonus).eval T).2.obj n =
            { T.obj n with info := setBonusInfo bonustype bonuslen bonus (T.obj n).info } := if_pos rfl
        rw [stored]
        exact ⟨rfl,kept.1,kept.2,rfl,rfl,rfl⟩
      rcases spared with ⟨gone,closed⟩ | alike
      · exact .inl ⟨same.type.trans gone,closed⟩
      · exact .inr (alike.trans same)
    · exact set rfl here
  | setDatablksz n datablksz => exact set rfl spares
  | write n off buf len => exact set rfl spares
  | getInfo n | read n off len => exact spared

namespace World

variable {w : World} (fresh : w.Fresh)
include fresh

lemma Fresh.mount {mount : Mount} {handles : List UInt64}
    (kept : ∀ obj off, w.Holds obj off → { w with mount, handles : World }.Present obj →
      w.Present obj ∧ filePage mount.store obj off = filePage w.mount.store obj off) :
    { w with mount, handles : World }.Fresh where
  sound := fresh.sound
  cached obj off phys found present := by
    obtain ⟨before,same⟩ := kept obj off (.inl ⟨phys,found⟩) present
    rw [fresh.cached obj off phys found before]
    exact same.symm
  waiting p member present := by
    obtain ⟨before,same⟩ := kept p.obj p.off (.inr ⟨p,member,rfl,rfl⟩) present
    rw [fresh.waiting p member before]
    exact same.symm
  nodup := fresh.nodup
  apart := fresh.apart

lemma Fresh.cache {cache : Filecache} (sound : cache.Sound)
    (fewer : ∀ key phys, cache.page key = some phys → w.cache.page key = some phys) :
    { w with cache : World }.Fresh where
  sound := sound
  cached obj off phys found present := fresh.cached obj off phys (fewer _ _ found) present
  waiting := fresh.waiting
  nodup := fresh.nodup
  apart key phys found := fresh.apart key phys (fewer _ _ found)

lemma Fresh.cached_taken (found : w.cache.page key = some phys) : w.free phys.toUInt64 = false := by
  have small : ¬ 2^32 ≤ phys.toUInt64.toNat := by
    rw [UInt32.toNat_toUInt64]
    exact Nat.not_le.mpr phys.toNat_lt
  have listed : (w.cache.findPhys phys).isNone = false := by
    cases none : w.cache.findPhys phys with
    | none => exact absurd found (fresh.sound.page_apart none key)
    | some e => rfl
  rw [free,UInt32.toUInt32_toUInt64,listed,decide_eq_false small]
  exact Bool.and_false _

omit fresh in
lemma waiting_taken (member : p ∈ w.pending) : w.free p.frame = false := by
  have listed : p.frame ∈ w.frames := mem_map_of_mem member
  rw [free,decide_eq_false (not_not.mpr listed)]
  rfl

lemma Fresh.mem (mem : UInt64 → Page) (same : ∀ frame, w.free frame = false → mem frame = w.mem frame) :
    { w with mem : World }.Fresh where
  sound := fresh.sound
  cached obj off phys found present := by
    rw [← fresh.cached obj off phys found present]
    exact same _ (fresh.cached_taken found)
  waiting p member present := by
    rw [← fresh.waiting p member present]
    exact same _ (waiting_taken member)
  nodup := fresh.nodup
  apart := fresh.apart

lemma Fresh.use (frame : UInt64) (page : Page) : (w.use frame page).Fresh := by
  rw [World.use]
  split
  next free =>
    refine fresh.mem _ fun p taken => update_of_ne ?_ ..
    rintro rfl
    rw [free] at taken
    cases taken
  · exact fresh

lemma Fresh.await (read : ∀ p ∈ more, w.mem p.frame = filePage w.mount.store p.obj p.off)
    (nodup : (more.map (·.frame)).Nodup) (unused : ∀ p ∈ more, w.free p.frame = true) :
    { w with pending := more ++ w.pending : World }.Fresh where
  sound := fresh.sound
  cached := fresh.cached
  waiting p member present := by
    rcases mem_append.mp member with new | old
    · exact read p new
    · exact fresh.waiting p old present
  nodup := by
    rw [frames,map_append]
    refine nodup_append.mpr ⟨nodup,fresh.nodup,?_⟩
    rintro frame new _ old rfl
    obtain ⟨p,member,rfl⟩ := mem_map.mp new
    obtain ⟨q,member',same⟩ := mem_map.mp old
    have taken := waiting_taken member'
    rw [same,unused p member] at taken
    cases taken
  apart key phys found listed := by
    rw [frames,map_append] at listed
    rcases mem_append.mp listed with new | old
    · obtain ⟨p,member,same⟩ := mem_map.mp new
      have taken := fresh.cached_taken found
      rw [← same,unused p member] at taken
      cases taken
    · exact fresh.apart key phys found old

lemma Fresh.readCluster (fits : off.toNat + n * 4096 < 2^64)
    (nodup : (frameRun base n).Nodup) (unused : ∀ frame ∈ frameRun base n, w.free frame = true) :
    (w.readCluster obj off base n).Fresh := by
  have filled := fresh.mem (w.readCluster obj off base n).mem fun frame taken => by
    refine if_neg fun inside => ?_
    rw [unused frame inside] at taken
    cases taken
  refine filled.await (fun p member => ?_) ?_ fun p member => ?_
  · obtain ⟨i,low,rfl⟩ := List.mem_map.mp member
    have below : i < n := List.mem_range.mp low
    have inside : base + UInt64.ofNat (i * 4096) ∈ frameRun base n := List.mem_map_of_mem low
    have small : i * 4096 < 2^64 := by omega
    have offset : (base + UInt64.ofNat (i * 4096) - base).toNat = i * 4096 := by
      rw [UInt64.add_comm,UInt64.add_sub_cancel,UInt64.toNat_ofNat',Nat.mod_eq_of_lt small]
    exact (if_pos inside).trans (by rw [offset,cluster_page _ fits below])
  · rw [List.map_map]
    exact nodup
  · obtain ⟨i,low,rfl⟩ := List.mem_map.mp member
    exact unused _ (List.mem_map_of_mem low)

lemma Fresh.fault (room : w.cache.Room) (fits : off.toNat + n * 4096 < 2^64) : (w.fault obj off base n).2.Fresh := by
  obtain ⟨sound,same⟩ := fresh.sound.lookupRef room ⟨w.mp,obj,off⟩
  have looked := fresh.cache sound fun key phys found => same ▸ found
  rw [World.fault]
  split
  · exact fresh
  dsimp only
  cases (w.cache.lookupRef ⟨w.mp,obj,off⟩).1.filter (· ≠ 0) with
  | some hit => exact looked
  | none =>
    dsimp only
    split
    next given => exact looked.readCluster fits given.2.1 (all_eq_true.mp given.2.2)
    · exact looked

lemma Fresh.publish (room : w.cache.Room) (p : Pending) (mapped memory : Bool) : (w.publish p mapped memory).Fresh := by
  rw [World.publish]
  split
  next member =>
    have order : (w.pending.map (·.frame)).Perm (p.frame :: (w.pending.erase p).map (·.frame)) :=
      (List.perm_cons_erase member).map (·.frame)
    have nodup := order.nodup_iff.mp fresh.nodup
    obtain ⟨gone,nodup⟩ := List.nodup_cons.mp nodup
    have fewer (frame : UInt64) (inside : frame ∈ (w.pending.erase p).map (·.frame)) : frame ∈ w.frames :=
      order.mem_iff.mpr (.tail _ inside)
    have dropped : { w with pending := w.pending.erase p : World }.Fresh :=
      ⟨fresh.sound,fresh.cached,fun q inside => fresh.waiting q (List.mem_of_mem_erase inside),nodup,
        fun key phys found inside => fresh.apart key phys found (fewer _ inside)⟩
    split
    · exact dropped
    rename_i publishes
    have small : p.frame.toNat < 2^32 := Nat.not_le.mp fun large => publishes (.inr large)
    have address : p.frame.toUInt32.toUInt64 = p.frame := by
      apply UInt64.toNat_inj.mp
      rw [UInt32.toNat_toUInt64,UInt64.toNat_toUInt32,Nat.mod_eq_of_lt small]
    have unlisted (key : PageKey) : w.cache.page key ≠ some p.frame.toUInt32 := by
      intro found
      refine fresh.apart key _ found ?_
      rw [address]
      exact List.mem_map_of_mem member
    obtain ⟨linked,idle,ok⟩ := fresh.sound
    obtain ⟨sound,same | new⟩ := ok.insert ⟨w.mp,p.obj,p.off⟩ unlisted room memory
    · exact dropped.cache sound fun key phys found => same ▸ found
    refine ⟨sound,fun obj off phys found present => ?_,dropped.waiting,dropped.nodup,fun key phys found => ?_⟩
    · rw [new] at found
      by_cases here : (⟨w.mp,obj,off⟩ : PageKey) = ⟨w.mp,p.obj,p.off⟩
      · rw [here,update_self] at found
        obtain ⟨_,rfl,rfl⟩ := PageKey.mk.injEq .. ▸ here
        cases found
        rw [address]
        exact fresh.waiting p member present
      · rw [update_of_ne here] at found
        exact fresh.cached obj off phys found present
    · rw [new] at found
      by_cases here : key = ⟨w.mp,p.obj,p.off⟩
      · rw [here,update_self] at found
        cases found
        rw [address]
        exact gone
      · rw [update_of_ne here] at found
        exact dropped.apart key phys found
  · exact fresh

lemma Fresh.reclaim : w.reclaim.Fresh := by
  rw [World.reclaim]
  cases done : w.cache.reclaim with
  | none => exact fresh
  | some found =>
    obtain ⟨frame,cache⟩ := found
    obtain ⟨linked,idle,ok⟩ := fresh.sound
    obtain ⟨sound,fewer⟩ := ok.reclaim done
    exact fresh.cache sound fewer

omit fresh in
/-- A handle is one that was open before, or the operation opened its object. -/
lemma fileOp_eq (w : World) (op : FileOp) : w.fileOp op = w ∨ ∃ mount handles, w.fileOp op = { w with mount, handles } ∧
    mount.store = (FsProg.on (op.prog (op.clock w.mount)) (op.clock w.mount).store).2 ∧
    ∀ obj ∈ handles, obj ∈ op.remaining w.handles ∨ ∃ n opens, ofNat n = obj ∧
      (FsProg.on (op.prog (op.clock w.mount)) (op.clock w.mount).store).1 = .ok (some n,opens) := by
  rw [fileOp]
  split
  · exact .inl rfl
  right
  dsimp only
  split
  next opened opens done =>
    refine ⟨_,_,rfl,rfl,fun obj member => ?_⟩
    rcases mem_append.mp member with new | old
    · rw [Option.mem_toList] at new
      obtain ⟨n,rfl,same⟩ := Option.map_eq_some_iff.mp new
      exact .inr ⟨n,opens,same,done⟩
    · exact .inl old
  · exact ⟨_,_,rfl,rfl,fun obj member => .inl member⟩

omit fresh in
lemma remaining_subset (op : FileOp) (handles : List UInt64) : op.remaining handles ⊆ handles := by
  cases op
  case closeFile obj => exact erase_subset
  all_goals exact Subset.refl _

lemma Fresh.fileOp (calm : Calm w (.file op)) : (w.fileOp op).Fresh := by
  rcases fileOp_eq w op with same | ⟨mount,handles,shape,store,opened⟩
  · rw [same]
    exact fresh
  rw [shape]
  refine fresh.mount fun obj off holds present => ?_
  obtain ⟨meets,allocated⟩ := calm.spares op rfl obj off holds
  have before : (op.clock w.mount).store = w.mount.store := by cases op <;> rfl
  have spared : Spared (obj ∈ op.remaining w.handles) obj.toNat (op.clock w.mount).store mount.store := by
    rw [store]
    exact meets.invariant (I := Spared _ _ _) (fun c _ spared spares => spared.eval c spares) (.inr (.refl _))
  -- a handle the operation made is on an allocated object
  have valid (new : obj ∈ handles) :
      obj ∈ op.remaining w.handles ∨ (mount.store.obj obj.toNat).info.type ≠ otNone := by
    rcases opened obj new with old | ⟨n,opens,same,done⟩
    · exact .inl old
    · rw [store]
      exact .inr (allocated n opens done same)
  rw [before] at spared
  rcases spared with ⟨gone,closed⟩ | same
  · rcases present with there | new
    · exact absurd gone there
    · exact ((valid new).elim closed (absurd gone)).elim
  · refine ⟨?_,same.filePage off⟩
    rw [Present,← same.type]
    rcases present with there | new
    · exact .inl there
    · exact (valid new).elim (fun old => .inr (remaining_subset op _ old)) .inl

lemma Fresh.step (calm : Calm w e) : (Freshness.step w e).Fresh := by
  cases e with
  | file op => exact fresh.fileOp calm
  | fault obj off base n => exact fresh.fault calm.room (calm.fits obj off base n rfl)
  | publish p mapped memory => exact fresh.publish calm.room p mapped memory
  | refPhys phys =>
    obtain ⟨sound,same⟩ := fresh.sound.refPhys calm.room phys
    exact fresh.cache sound fun key frame found => same ▸ found
  | unrefPhys phys =>
    obtain ⟨sound,same⟩ := fresh.sound.unrefPhys phys
    exact fresh.cache sound fun key frame found => same ▸ found
  | reclaim => exact fresh.reclaim
  | use frame page => exact fresh.use frame page

/-- What a fault finds in the cache is what the open file holds. -/
lemma Fresh.hit {hit : UInt32} (found : (w.fault obj off base n).1 = some hit) :
    w.mem hit.toUInt64 = filePage w.mount.store obj off := by
  rw [World.fault] at found
  split at found
  · cases found
  rename_i cacheable
  have opened : obj ∈ w.handles := not_not.mp fun away => cacheable (.inl away)
  dsimp only at found
  cases looked : (w.cache.lookupRef ⟨w.mp,obj,off⟩).1.filter (· ≠ 0) with
  | some frame =>
    rw [looked] at found
    cases found
    have listed := Option.filter_eq_some_iff.mp looked
    rw [lookupRef_eq] at listed
    exact fresh.cached obj off hit listed.1 (.inr opened)
  | none =>
    rw [looked] at found
    dsimp only at found
    split at found <;> cases found

end World

end UbixOS.Vmm.Freshness
