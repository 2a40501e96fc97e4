import UbixOS.Ubfs.Dir

/-! The POSIX layer (`ubfs_fs.c`): paths, attributes in the bonus of a dnode, and the file
operations, as programs over DMU calls. A string is the list of its bytes without the NUL. -/
namespace UbixOS.Ubfs

open Library Prog Inode FsProg

abbrev slash : UInt8 := 47
abbrev dot : UInt8 := 46

def sIfmt : UInt64 := 0o170000
def sIfreg : UInt64 := 0o100000
def sIfdir : UInt64 := 0o040000
def sIflnk : UInt64 := 0o120000

def dtReg : UInt8 := 1
def dtDir : UInt8 := 2
def dtLnk : UInt8 := 3

abbrev objRoot : Nat := 1

/-- Capacity of the buffer a parent path is copied to. -/
abbrev parentCap : Nat := 1024

/-- What `ubfs_fs_t` holds beside the object set. -/
structure Fs where
  now : UInt64
  recordsize : UInt32
  deriving DecidableEq, Repr

namespace Fs

def init (now : UInt64) : Fs := ⟨now,UInt32.ofNat blockSize⟩

def Inode.isDir (inode : Inode) : Bool := inode.mode &&& sIfmt == sIfdir

def Inode.isLnk (inode : Inode) : Bool := inode.mode &&& sIfmt == sIflnk

def Inode.toBonus (inode : Inode) : Bytes 352 := ((Inode.layout.put inode).take 112).toBytes 352

def inodeGet (obj : Nat) : FsProg Inode := do
  let info ← (perform (.getInfo obj)).orFail (-1)
  if info.bonustype ≠ btInode then fail (-1) else return bonusInode info.bonus

def inodePut (obj : Nat) (inode : Inode) : FsProg Unit :=
  (Prog.perform (.setBonus obj btInode 112 (Inode.toBonus inode))).orFail (-1)

def dtypeOf (mode : UInt64) : UInt8 :=
  if mode &&& sIfmt = sIfdir then dtDir
  else if mode &&& sIfmt = sIflnk then dtLnk
  else dtReg

/-- The next component and what follows it. A longer one is cut and goes on as another. -/
def nextComp (path : List UInt8) : List UInt8 × List UInt8 :=
  let s := path.dropWhile (· = slash)
  let comp := (s.takeWhile (· ≠ slash)).take nameMax
  (comp,(s.drop comp.length).dropWhile (· = slash))

/-- Where the last slash is, the start if there is none. -/
def lastSlash (path : List UInt8) : Nat := path.length - 1 - (path.reverse.takeWhile (· ≠ slash)).length

/-- Parent and leaf. The leaf starts behind the last slash, or behind the first byte. -/
def splitParent (path : List UInt8) : List UInt8 × List UInt8 :=
  let plen := lastSlash path
  (if plen = 0 then [slash] else path.take (min plen (parentCap - 1)),path.drop (plen + 1))

/-- The walk of `ubfs_fs_lookup`; every component takes a byte of the path. -/
def lookupFrom : Nat → Nat → List UInt8 → FsProg Nat
  | 0, cur, _ => pure cur
  | fuel+1, cur, path =>
    let (comp,rest) := nextComp path
    if comp = [] then pure cur
    else do
      let inode ← (inodeGet cur).orFail (-1)
      if !Inode.isDir inode then Prog.fail (-2)
      else if comp = [dot] then lookupFrom fuel cur rest
      else if comp = [dot,dot] then
        lookupFrom fuel (if inode.parent ≠ 0 then inode.parent.toNat else cur) rest
      else do
        let (next,_) ← (dirLookup cur comp).orFail (-3)
        lookupFrom fuel next rest

def lookup (path : List UInt8) : FsProg Nat := lookupFrom path.length objRoot path

def newInode (fs : Fs) (mode uid gid nlink : UInt64) (parent : Nat) : Inode :=
  { zero with
    mode, uid, gid, nlink
    atime := fs.now
    mtime := fs.now
    ctime := fs.now
    crtime := fs.now
    parent := UInt64.ofNat parent }

def mkroot (fs : Fs) (uid gid : UInt64) : FsProg Unit := do
  let obj ← (perform (.objectAlloc otDirectory btInode)).orFail (-1)
  if obj ≠ objRoot then fail (-1)
  else inodePut obj (newInode fs (sIfdir ||| 0o755) uid gid 2 objRoot)

def makeNode (fs : Fs) (path : List UInt8) (otype : UInt8) (mode uid gid : UInt64) : FsProg Nat := do
  let (parent,leaf) := splitParent path
  if leaf = [] then fail (-1)
  else do
    let pobj ← (lookup parent).orFail (-2)
    let pin ← (inodeGet pobj).orFail (-3)
    if !Inode.isDir pin then Prog.fail (-3)
    else do
      match ← (dirLookup pobj leaf).attempt with
      | .ok _ => fail (-4)
      | .error _ => do
        let obj ← (perform (.objectAlloc otype btInode)).orFail (-5)
        if mode &&& sIfmt = sIfreg ∧ blockSize < fs.recordsize.toNat then
          let _ ← (perform (.setDatablksz obj fs.recordsize) : FsProg Unit).attempt
        let nlink := if mode &&& sIfmt = sIfdir then 2 else 1
        (inodePut obj (newInode fs mode uid gid nlink pobj)).orFail (-6)
        (dirAdd pobj leaf obj (dtypeOf mode)).orFail (-7)
        return obj

def mkdir (fs : Fs) (path : List UInt8) (mode uid gid : UInt64) : FsProg Nat :=
  makeNode fs path otDirectory (sIfdir ||| (mode &&& 0o7777)) uid gid

def create (fs : Fs) (path : List UInt8) (mode uid gid : UInt64) : FsProg Nat :=
  makeNode fs path otPlainFile (sIfreg ||| (mode &&& 0o7777)) uid gid

def write (fs : Fs) (obj : Nat) (off : UInt64) (buf : Buffer) (len : UInt64) : FsProg Unit := do
  (perform (.write obj off.toNat buf len.toNat)).orFail (-1)
  let inode ← (inodeGet obj).orFail (-1)
  let size := if inode.size < off + len then off + len else inode.size
  inodePut obj { inode with size, mtime := fs.now, ctime := fs.now }

def symlink (fs : Fs) (path target : List UInt8) (uid gid : UInt64) : FsProg Nat := do
  let obj ← makeNode fs path otPlainFile (sIflnk ||| 0o777) uid gid
  (write fs obj 0 (fun i => target.getD i 0) (UInt64.ofNat target.length)).orFail (-8)
  return obj

/-- The bytes read and how many of them count. -/
def read (obj : Nat) (off len : UInt64) : FsProg (Buffer × UInt64) := do
  let inode ← (inodeGet obj).orFail (-1)
  if inode.size ≤ off then return (Buffer.zero,0)
  else
    let len := if inode.size < off + len then inode.size - off else len
    let buf ← (perform (.read obj off.toNat len.toNat)).orFail (-1)
    return (buf,len)

def readlink (obj : Nat) (bufsz : UInt64) : FsProg (Buffer × UInt64) := do
  let inode ← (inodeGet obj).orFail (-1)
  if !Inode.isLnk inode then Prog.fail (-2)
  else
    let n := if bufsz ≤ inode.size then bufsz - 1 else inode.size
    let buf ← (perform (.read obj 0 n.toNat)).orFail (-1)
    return (buf,n)

def getattr (obj : Nat) : FsProg Inode := inodeGet obj

def chmod (fs : Fs) (obj : Nat) (mode : UInt64) : FsProg Unit := do
  let inode ← (inodeGet obj).orFail (-1)
  inodePut obj { inode with mode := (inode.mode &&& sIfmt) ||| (mode &&& 0o7777), ctime := fs.now }

/-- Up the parents of the new place, which must not meet the object that moves. -/
def ascend (obj : Nat) : Nat → Nat → FsProg Unit
  | 0, _ => pure ()
  | hops+1, cur =>
    if cur = obj then fail (-4)
    else if cur = objRoot then pure ()
    else do
      match ← (inodeGet cur).attempt with
      | .error _ => pure ()
      | .ok inode =>
        if inode.parent = 0 ∨ inode.parent.toNat = cur then pure () else ascend obj hops inode.parent.toNat

def rename (fs : Fs) (src dst : List UInt8) : FsProg Unit := do
  let (sparent,sleaf) := splitParent src
  let spobj ← (lookup sparent).orFail (-1)
  let (obj,type) ← (dirLookup spobj sleaf).orFail (-1)
  let (dparent,dleaf) := splitParent dst
  let dpobj ← (lookup dparent).orFail (-2)
  let din ← (inodeGet dpobj).orFail (-2)
  if !Inode.isDir din then Prog.fail (-2)
  else do
    match ← (dirLookup dpobj dleaf).attempt with
    | .ok _ => fail (-3)
    | .error _ => do
      ascend obj 4096 dpobj
      (dirAdd dpobj dleaf obj type).orFail (-5)
      (dirRemove spobj sleaf).orFail (-5)
      let inode ← (inodeGet obj).orFail (-5)
      (inodePut obj { inode with parent := UInt64.ofNat dpobj, ctime := fs.now }).orFail (-5)

/-- Removes the entry and keeps the object. A directory must be empty. -/
def unlinkEntry (path : List UInt8) : FsProg Nat := do
  let (parent,leaf) := splitParent path
  let pobj ← (lookup parent).orFail (-1)
  let (obj,_) ← (dirLookup pobj leaf).orFail (-2)
  let inode ← (inodeGet obj).orFail (-3)
  if Inode.isDir inode then
    let n ← (dirCount obj).orFail (-4)
    require (n = 0) (-4)
  (dirRemove pobj leaf).orFail (-5)
  return obj

def freeObject (obj : Nat) : FsProg Unit := perform (.objectFree obj)

lemma inodeGet_on (S : Store) (obj : Nat) : on (inodeGet obj) S =
    (if (S.obj obj).info.bonustype = btInode then .ok (S.obj obj).inode else .error (-1),S) := by
  have info : on ((perform (.getInfo obj)).orFail (-1)) S = (.ok (S.obj obj).info,S) :=
    on_orFail_ok (on_perform ..)
  rw [inodeGet,on_bind_ok info]
  by_cases attributes : (S.obj obj).info.bonustype = btInode
  · rw [if_neg (not_not.mpr attributes),if_pos attributes]
    rfl
  · rw [if_pos attributes,if_neg attributes]
    rfl

def readLen (size off len : UInt64) : UInt64 :=
  if size ≤ off then 0 else if size < off + len then size - off else len

lemma read_on (S : Store) (obj : Nat) (off len : UInt64) : on (read obj off len) S =
    (if (S.obj obj).info.bonustype = btInode then
      .ok (((S.obj obj).read off.toNat (readLen (S.obj obj).inode.size off len).toNat,
        readLen (S.obj obj).inode.size off len))
    else .error (-1),S) := by
  rw [read,on_bind,on_orFail,inodeGet_on]
  by_cases attributes : (S.obj obj).info.bonustype = btInode
  · simp only [if_pos attributes]
    by_cases past : (S.obj obj).inode.size ≤ off
    · rw [if_pos past,readLen,if_pos past]
      rfl
    rw [if_neg past,readLen,if_neg past]
    rw [on_bind_ok (on_orFail_ok (on_perform ..))]
    rfl
  · simp only [if_neg attributes]

end Fs

end UbixOS.Ubfs
