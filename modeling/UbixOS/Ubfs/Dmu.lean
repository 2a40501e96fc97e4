import UbixOS.Library.Fallible
import UbixOS.Ubfs.OnDisk

/-! The parts of the object engine (`ubfs_dmu.c`) that do not depend on where its blocks are: the
levels of an object's radix tree of fan-out 32 over records of `datablksz` bytes, and its dnode. -/
namespace UbixOS.Ubfs

open Library

abbrev fanout : Nat := 32

/-- Levels needed to address `blkid`: the `cap *= FANOUT` loop. -/
def needHeight (blkid : Nat) : Nat → Nat → Nat
  | 0, _ => 0
  | fuel+1, cap => if cap ≤ blkid then needHeight blkid fuel (cap * fanout) + 1 else 0

def DnodeInfo.height (dn : DnodeInfo) : Nat := dn.nlevels.toNat - 1

abbrev objFreelist : Nat := 256

def initInfo (type bonustype : UInt8) : DnodeInfo :=
  { type, nlevels := 1, nblkptr := dnNblkptr, bonustype, checksum := ckFletcher4, compress := coOff
    datablksz := 4096, bonuslen := 0, maxblkid := 0, used := 0, bonus := Bytes.zero }

def DnodeInfo.recordSize (dn : DnodeInfo) : Nat := if dn.datablksz = 0 then blockSize else dn.datablksz.toNat

def bonusInode (bonus : Bytes 352) : Inode := Inode.layout.get bonus.toBuffer

/-- POSIX attributes keep their size up to date. -/
def DnodeInfo.growSize (dn : DnodeInfo) (size : UInt64) : DnodeInfo :=
  if dn.bonustype = btInode ∧ 112 ≤ dn.bonuslen ∧ (bonusInode dn.bonus).size < size then
    { dn with bonus := (dn.bonus.toBuffer.copy 0
        (Inode.layout.put { bonusInode dn.bonus with size }) 112).toBytes 352 }
  else dn

lemma recordSize_pos (info : DnodeInfo) : 0 < info.recordSize := by
  rw [DnodeInfo.recordSize]
  split
  next => decide
  next some =>
    rcases Nat.eq_zero_or_pos info.datablksz.toNat with zero | pos
    · exact absurd (UInt32.toNat_inj.mp zero) some
    · exact pos

end UbixOS.Ubfs
