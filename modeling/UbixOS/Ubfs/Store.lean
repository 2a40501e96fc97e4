import UbixOS.Ubfs.Dmu

/-! What an object set is for: numbered objects, each a dnode and a sparse array of
records, without blocks, pointers or failures. A record number beyond the reach of
the object's tree is read modulo that reach, as the radix walk does. -/
namespace UbixOS.Ubfs

open Library

/-- Levels of a dnode after record `blkid` was written. -/
def grownLevels (nlevels : UInt8) (blkid : Nat) : UInt8 :=
  nlevels + UInt8.ofNat (needHeight blkid 13 1 + 1 - nlevels.toNat)

structure Obj where
  info : DnodeInfo
  recs : Nat → Nat × Buffer

namespace Obj

def zero : Obj := ⟨Dnode.zero.toDnodeInfo,fun _ => (0,Buffer.zero)⟩

def init (type bonustype : UInt8) : Obj := ⟨initInfo type bonustype,fun _ => (0,Buffer.zero)⟩

def reach (o : Obj) : Nat := fanout^o.info.height

def readRec (o : Obj) (blkid : Nat) : Nat × Buffer := o.recs (blkid % o.reach)

def setRec (o : Obj) (blkid : Nat) (record : Nat × Buffer) : Obj :=
  { info := { o.info with
      nlevels := grownLevels o.info.nlevels blkid
      maxblkid := if o.info.maxblkid < UInt64.ofNat blkid then UInt64.ofNat blkid else o.info.maxblkid }
    recs := fun k => if k = blkid then record else o.recs k }

def mergeRecord (rsz boff chunk blkid : Nat) (src : Buffer) (o : Obj) : Buffer × Nat :=
  if boff = 0 ∧ chunk = rsz then (src.take rsz,rsz)
  else ((o.readRec blkid).2.copy boff src chunk,max (o.readRec blkid).1 (boff + chunk))

def writeRecords (rsz : Nat) : Nat → Nat → Buffer → Nat → Obj → Obj
  | 0, _, _, _, o => o
  | fuel+1, off, src, len, o =>
    if len = 0 then o
    else
      let blkid := off % 2^64 / rsz
      let boff := off % 2^64 % rsz
      let chunk := min (rsz - boff) len
      let record := o.mergeRecord rsz boff chunk blkid src
      (o.setRec blkid (record.2,record.1.take record.2)).writeRecords rsz fuel (off + chunk) (src.drop chunk)
        (len - chunk)

def write (o : Obj) (off : Nat) (buf : Buffer) (len : Nat) : Obj :=
  let written := o.writeRecords o.info.recordSize len off buf len
  { written with info := written.info.growSize (UInt64.ofNat (off + len)) }

def readRecords (o : Obj) : Nat → Nat → Nat → Buffer
  | 0, _, _ => Buffer.zero
  | fuel+1, off, len =>
    if len = 0 then Buffer.zero
    else
      let rsz := o.info.recordSize
      let blkid := off % 2^64 / rsz
      let boff := off % 2^64 % rsz
      let chunk := min (rsz - boff) len
      Buffer.cat chunk ((o.readRec blkid).2.drop boff) (o.readRecords fuel (off + chunk) (len - chunk))

def read (o : Obj) (off len : Nat) : Buffer := o.readRecords len off len

end Obj

structure Store where
  obj : Nat → Obj
  next : Nat
  free : List Nat

namespace Store

def empty : Store := ⟨fun _ => Obj.zero,1,[]⟩

def set (S : Store) (n : Nat) (o : Obj) : Store := { S with obj := fun m => if m = n then o else S.obj m }

def alloc (S : Store) (otype bonustype : UInt8) : Nat × Store :=
  match S.free with
  | n :: rest => (n,{ S with free := rest }.set n (Obj.init otype bonustype))
  | [] => (S.next,{ S with next := S.next + 1 }.set S.next (Obj.init otype bonustype))

def recycle (S : Store) (n : Nat) : Store :=
  if S.free.length < objFreelist then { S with free := n :: S.free } else S

def release (S : Store) (n : Nat) : Store :=
  if (S.obj n).info.type = otNone then S else (S.set n Obj.zero).recycle n

def update (S : Store) (n : Nat) (f : DnodeInfo → DnodeInfo) : Store :=
  S.set n { S.obj n with info := f (S.obj n).info }

def write (S : Store) (n off : Nat) (buf : Buffer) (len : Nat) : Store := S.set n ((S.obj n).write off buf len)

end Store

def setBonusInfo (bonustype : UInt8) (bonuslen : UInt16) (bonus : Bytes 352) (info : DnodeInfo) : DnodeInfo :=
  { info with bonus, bonuslen, bonustype }

def setDatablkszInfo (datablksz : UInt32) (info : DnodeInfo) : DnodeInfo := { info with datablksz }

/-- Calls into the DMU by their result. A dnode is changed only by reading it,
replacing its bonus or its record size, and writing it back. -/
inductive Cmd : Type → Type
  | objectAlloc (otype bonustype : UInt8) : Cmd Nat
  | objectFree (obj : Nat) : Cmd Unit
  | getInfo (obj : Nat) : Cmd DnodeInfo
  | setBonus (obj : Nat) (bonustype : UInt8) (bonuslen : UInt16) (bonus : Bytes 352) : Cmd Unit
  | setDatablksz (obj : Nat) (datablksz : UInt32) : Cmd Unit
  | write (obj off : Nat) (buf : Buffer) (len : Nat) : Cmd Unit
  | read (obj off len : Nat) : Cmd Buffer

namespace Cmd

def eval : Cmd α → Store → α × Store
  | objectAlloc otype bonustype, S => S.alloc otype bonustype
  | objectFree obj, S => ((),S.release obj)
  | getInfo obj, S => ((S.obj obj).info,S)
  | setBonus obj bonustype bonuslen bonus, S => ((),S.update obj (setBonusInfo bonustype bonuslen bonus))
  | setDatablksz obj datablksz, S => ((),S.update obj (setDatablkszInfo datablksz))
  | write obj off buf len, S => ((),S.write obj off buf len)
  | read obj off len, S => ((S.obj obj).read off len,S)

end Cmd

end UbixOS.Ubfs
