import UbixOS.Ubfs.Fs

/-! The VFS driver (`sys/fs/ubixfs/ubfs_vfs.c`): open handles, files that live on while they
are open, and the operations the VFS calls, each under the UbixFS lock. The object set is the
store its calls refine; a commit leaves the store as it is. -/
namespace UbixOS.Ubfs

open Library Fs

/-- `struct ubfs_openobj`: how many handles an object has, and whether its name is gone. -/
structure OpenObj where
  obj : Nat
  count : Nat
  orphan : Bool
  deriving DecidableEq, Repr

structure Mount where
  store : Store
  fs : Fs
  writable : Bool
  mountPoint : List UInt8
  openobjs : List OpenObj

namespace Mount

def touchClock (m : Mount) (now : UInt64) : Mount := { m with fs := { m.fs with now } }

def mountPrefix (m : Mount) : List UInt8 :=
  match m.mountPoint.reverse.dropWhile (· = slash) with
  | [] => m.mountPoint.take 1
  | kept => kept.reverse

def poolRelative (m : Mount) (path : List UInt8) : List UInt8 :=
  let rest := path.drop m.mountPrefix.length
  if 1 < m.mountPrefix.length ∧ path.take m.mountPrefix.length = m.mountPrefix ∧
    (rest = [] ∨ rest.head? = some slash) then
    if rest = [] then [slash] else rest
  else path

def openobjFind (opens : List OpenObj) (obj : Nat) : Option OpenObj := opens.find? (·.obj = obj)

/-- The entry of `obj` after `f`, gone if `f` gives none. -/
def openobjUpdate (obj : Nat) (f : OpenObj → Option OpenObj) : List OpenObj → List OpenObj
  | [] => []
  | o :: os => if o.obj = obj then (f o).toList ++ os else o :: openobjUpdate obj f os

/-- One more handle. Without memory for an entry the object stays untracked. -/
def openobjRef (opens : List OpenObj) (obj : Nat) (memory : Bool) : List OpenObj :=
  match openobjFind opens obj with
  | some _ => openobjUpdate obj (fun o => some { o with count := o.count + 1 }) opens
  | none => if memory then ⟨obj,1,false⟩ :: opens else opens

/-- One handle less. The last one frees an orphan. -/
def openobjUnref (m : Mount) (obj : Nat) : FsProg (List OpenObj) :=
  match openobjFind m.openobjs obj with
  | none => return m.openobjs
  | some o =>
    if 1 < o.count then return openobjUpdate obj (fun o => some { o with count := o.count - 1 }) m.openobjs
    else do
      let _ ← (if o.orphan ∧ m.writable then freeObject obj else pure ()).attempt
      return openobjUpdate obj (fun _ => none) m.openobjs

/-- Drops the name. An open object becomes an orphan, any other is freed. -/
def unlinkPath (m : Mount) (path : List UInt8) : FsProg (Except Int Unit × List OpenObj) := do
  match ← (unlinkEntry path).attempt with
  | .error _ => return (.error (-1),m.openobjs)
  | .ok obj =>
    if (openobjFind m.openobjs obj).any (0 < ·.count) then
      return (.ok (),openobjUpdate obj (fun o => some { o with orphan := true }) m.openobjs)
    else do
      let _ ← (freeObject obj).attempt
      return (.ok (),m.openobjs)

abbrev symlinkBuf : Nat := 1024

/-- `snprintf(buf, UBFS_SYMLINK_BUF, "%s", s)` -/
def clip (s : List UInt8) : List UInt8 := s.take (symlinkBuf - 1)

/-- Through the final slash, or nothing. -/
def linkDir (path : List UInt8) : List UInt8 := path.take (path.length - (path.reverse.takeWhile (· ≠ slash)).length)

def followFrom : Nat → Nat → List UInt8 → FsProg Nat
  | 0, _, _ => Prog.fail (-1)
  | hops+1, obj, cur => do
    match ← (getattr obj).attempt with
    | .error _ => return obj
    | .ok inode =>
      if !Fs.Inode.isLnk inode then return obj
      else do
        let (buf,n) ← readlink obj (UInt64.ofNat (symlinkBuf - 1))
        if n = 0 then Prog.fail (-1)
        else do
          let target := ((List.range n.toNat).map buf).takeWhile (· ≠ 0)
          let next := if target.head? = some slash then clip target else clip (linkDir (clip cur) ++ target)
          let obj ← (lookup next).orFail (-1)
          followFrom hops obj next

def followSymlink (obj : Nat) (path : List UInt8) : FsProg Nat := followFrom 8 obj (clip path)

/-- How a file is opened: `fileWrite` and `fileTrunc`. -/
structure OpenMode where
  write : Bool
  trunc : Bool
  deriving DecidableEq, Repr

/-- The object a path names, created or replaced by an empty one as the mode asks. -/
def openObject (m : Mount) (path : List UInt8) (mode : OpenMode) : FsProg (Except Int Nat × List OpenObj) := do
  match ← (lookup path).attempt with
  | .error e =>
    if !m.writable || !(mode.write || mode.trunc) then return (.error e,m.openobjs)
    else do
      let made ← (m.fs.create path 0o644 0 0).attempt
      return (made,m.openobjs)
  | .ok obj =>
    if m.writable && mode.trunc then do
      let (_,opens) ← m.unlinkPath path
      let made ← (m.fs.create path 0o644 0 0).attempt
      return (made,opens)
    else return (.ok obj,m.openobjs)

/-- `memory` is whether there was room for the handle, `tracked` for the open-object entry. -/
def openFile (m : Mount) (path : List UInt8) (mode : OpenMode) (memory tracked : Bool) :
    FsProg (Option Nat × List OpenObj) := do
  let (found,opens) ← m.openObject path mode
  match found with
  | .error _ => return (none,opens)
  | .ok obj =>
    match ← (followSymlink obj path).attempt with
    | .error _ => return (none,opens)
    | .ok obj => if memory then return (some obj,openobjRef opens obj tracked) else return (none,opens)

def closeFile (m : Mount) (obj : Nat) : FsProg (List OpenObj) := m.openobjUnref obj

def writeFile (m : Mount) (obj : Nat) (off : UInt64) (buf : Buffer) (len : UInt64) : FsProg Unit :=
  if !m.writable then Prog.fail (-1) else m.fs.write obj off buf len

def chmod (m : Mount) (obj : Nat) (mode : UInt64) : FsProg Unit :=
  if !m.writable then Prog.fail (-1) else m.fs.chmod obj mode

def symlink (m : Mount) (target linkpath : List UInt8) : FsProg Nat :=
  if !m.writable then Prog.fail (-1) else m.fs.symlink (m.poolRelative linkpath) target 0 0

def mkdir (m : Mount) (path : List UInt8) : FsProg Nat :=
  if !m.writable then Prog.fail (-1) else m.fs.mkdir (m.poolRelative path) 0o755 0 0

/-- `vfsUnlink` and `vfsRemDir`. -/
def unlink (m : Mount) (path : List UInt8) : FsProg (Except Int Unit × List OpenObj) :=
  if !m.writable then return (.error (-1),m.openobjs) else m.unlinkPath (m.poolRelative path)

inductive RenameError
  | noEntry
  | isDir
  | invalid
  | readOnly
  | io

/-- Makes room at the new name: a file there is unlinked, a directory is not. -/
def renameTarget (m : Mount) (sobj : Nat) (dst : List UInt8) : FsProg (Except RenameError Bool × List OpenObj) := do
  match ← (lookup dst).attempt with
  | .error _ => return (.ok true,m.openobjs)
  | .ok dobj =>
    if dobj = sobj then return (.ok false,m.openobjs)
    else
      match ← (getattr dobj).attempt with
      | .error _ => return (.error .isDir,m.openobjs)
      | .ok inode =>
        if Fs.Inode.isDir inode then return (.error .isDir,m.openobjs)
        else
          match ← m.unlinkPath dst with
          | (.error _,opens) => return (.error .io,opens)
          | (.ok _,opens) => return (.ok true,opens)

def rename (m : Mount) (src dst : List UInt8) : FsProg (Except RenameError Unit × List OpenObj) := do
  if !m.writable then return (.error .readOnly,m.openobjs)
  else
    match ← (lookup (m.poolRelative src)).attempt with
    | .error _ => return (.error .noEntry,m.openobjs)
    | .ok sobj =>
      match ← m.renameTarget sobj (m.poolRelative dst) with
      | (.error e,opens) => return (.error e,opens)
      | (.ok false,opens) => return (.ok (),opens)
      | (.ok true,opens) =>
        match ← (m.fs.rename (m.poolRelative src) (m.poolRelative dst)).attempt with
        | .ok _ => return (.ok (),opens)
        | .error e =>
          if e = -1 ∨ e = -2 then return (.error .noEntry,opens)
          else if e = -4 then return (.error .invalid,opens)
          else return (.error .io,opens)

end Mount

end UbixOS.Ubfs
