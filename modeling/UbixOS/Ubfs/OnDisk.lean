import UbixOS.Library.Buffer

/-! The UbixFS on-disk format (`include/fs/ubixfs/ondisk.h`). Each structure has
the byte layout the C struct has; padding and the fields that no code sets or
reads (`dva.vdev`, `flags`, `rsvd`) are written as zeros and not named. -/
namespace UbixOS.Ubfs

open Library

/-- `UBFS_BLOCK_SIZE`: the metadata block and the smallest record. -/
abbrev blockSize : Nat := 4096
def nameMax : Nat := 255

def ckFletcher4 : UInt8 := 1
def coOff : UInt8 := 0

def otNone : UInt8 := 0
def otPlainFile : UInt8 := 4
def otDirectory : UInt8 := 5
def otDataset : UInt8 := 6

def dsFs : UInt64 := 1
def dsVol : UInt64 := 2

def btNone : UInt8 := 0
def btInode : UInt8 := 1
def btDataset : UInt8 := 2

structure Checksum where
  a : UInt64
  b : UInt64
  c : UInt64
  d : UInt64
  deriving DecidableEq, Repr

def Checksum.zero : Checksum := ⟨0,0,0,0⟩

def Checksum.layout : Layout Checksum :=
  (Layout.u64.pair (Layout.u64.pair (Layout.u64.pair Layout.u64))).iso
    (fun ck => (ck.a,ck.b,ck.c,ck.d)) (fun (a,b,c,d) => ⟨a,b,c,d⟩) (fun _ => rfl)

structure Blkptr where
  offset : UInt64
  birthTxg : UInt64
  fill : UInt64
  lsize : UInt32
  psize : UInt32
  type : UInt8
  level : UInt8
  comp : UInt8
  cksum : UInt8
  checksum : Checksum
  deriving DecidableEq, Repr

def Blkptr.zero : Blkptr := ⟨0,0,0,0,0,0,0,0,0,Checksum.zero⟩

open Layout in
def Blkptr.layout : Layout Blkptr :=
  ((pad 8).pair (u64.pair (u64.pair (u64.pair (u32.pair (u32.pair (u8.pair (u8.pair (u8.pair (u8.pair
    ((pad 4).pair (Checksum.layout.pair (pad 48))))))))))))).iso
    (fun bp => ((),bp.offset,bp.birthTxg,bp.fill,bp.lsize,bp.psize,bp.type,bp.level,bp.comp,bp.cksum,(),
      bp.checksum,()))
    (fun (_,offset,birthTxg,fill,lsize,psize,type,level,comp,cksum,_,checksum,_) =>
      ⟨offset,birthTxg,fill,lsize,psize,type,level,comp,cksum,checksum⟩)
    (fun _ => rfl)

/-- A dnode without its block pointer: all that layers above the DMU look at. -/
structure DnodeInfo where
  type : UInt8
  nlevels : UInt8
  nblkptr : UInt8
  bonustype : UInt8
  checksum : UInt8
  compress : UInt8
  datablksz : UInt32
  bonuslen : UInt16
  maxblkid : UInt64
  used : UInt64
  bonus : Bytes 352

structure Dnode extends DnodeInfo where
  blkptr : Blkptr

def dnNblkptr : UInt8 := 1

def Dnode.zero : Dnode := ⟨⟨0,0,0,0,0,0,0,0,0,0,Bytes.zero⟩,Blkptr.zero⟩

structure Inode where
  mode : UInt64
  size : UInt64
  uid : UInt64
  gid : UInt64
  nlink : UInt64
  atime : UInt64
  mtime : UInt64
  ctime : UInt64
  crtime : UInt64
  parent : UInt64
  xattr : UInt64
  rdev : UInt64
  flags : UInt64
  gen : UInt64
  deriving DecidableEq, Repr

def Inode.zero : Inode := ⟨0,0,0,0,0,0,0,0,0,0,0,0,0,0⟩

open Layout in
def Inode.layout : Layout Inode :=
  (u64.pair (u64.pair (u64.pair (u64.pair (u64.pair (u64.pair (u64.pair (u64.pair (u64.pair (u64.pair
    (u64.pair (u64.pair (u64.pair u64))))))))))))).iso
    (fun n => (n.mode,n.size,n.uid,n.gid,n.nlink,n.atime,n.mtime,n.ctime,n.crtime,n.parent,n.xattr,n.rdev,
      n.flags,n.gen))
    (fun (mode,size,uid,gid,nlink,atime,mtime,ctime,crtime,parent,xattr,rdev,flags,gen) =>
      ⟨mode,size,uid,gid,nlink,atime,mtime,ctime,crtime,parent,xattr,rdev,flags,gen⟩)
    (fun _ => rfl)

structure DatasetPhys where
  bp : Blkptr
  type : UInt64
  used : UInt64
  recordsize : UInt64
  volsize : UInt64
  compression : UInt32
  atime : UInt32
  name : Bytes 64

open Layout in
def DatasetPhys.layout : Layout DatasetPhys :=
  (Blkptr.layout.pair (u64.pair (u64.pair (u64.pair (u64.pair (u32.pair (u32.pair (bytes 64)))))))).iso
    (fun d => (d.bp,d.type,d.used,d.recordsize,d.volsize,d.compression,d.atime,d.name))
    (fun (bp,type,used,recordsize,volsize,compression,atime,name) =>
      ⟨bp,type,used,recordsize,volsize,compression,atime,name⟩)
    (fun _ => rfl)

abbrev direntSize : Nat := 256

structure Dirent where
  obj : UInt64
  type : UInt8
  namelen : UInt8
  name : Bytes 240

def Dirent.zero : Dirent := ⟨0,0,0,Bytes.zero⟩

open Layout in
def Dirent.layout : Layout Dirent :=
  (u64.pair (u8.pair (u8.pair ((pad 6).pair (bytes 240))))).iso
    (fun e => (e.obj,e.type,e.namelen,(),e.name))
    (fun (obj,type,namelen,_,name) => ⟨obj,type,namelen,name⟩)
    (fun _ => rfl)

end UbixOS.Ubfs
