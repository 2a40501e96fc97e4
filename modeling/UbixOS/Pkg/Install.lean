import UbixOS.Library.FileTree
import UbixOS.Library.Prog
import UbixOS.Library.Text

/-! The install of a package (usr.sbin/pkg/add.c) and its journal (usr.sbin/pkg/db.c). The
database `var/db/pkg` is kept apart from the tree. What the archive reader hands out is an input:
members, the pieces of their contents, and how the archive ends. -/
namespace UbixOS.Pkg

open Library (Prog Fallible)
open Library.Files Function Tree

abbrev Bytes := List UInt8

def PKG_PATH_MAX : Nat := 1024
def PKG_NAME_MAX : Nat := 64
def PKG_ABS_MAX : Nat := PKG_PATH_MAX + PKG_PATH_MAX
def PKG_MANIFEST_MAX : Nat := 32 * 1024 * 1024

def newline : UInt8 := 10
def space : UInt8 := 32
def suffix : Bytes := [46,117,112,107,103,45,116,109,112]
/-- `"add "` and `"del "` -/
def addVerb : Bytes := [97,100,100,32]
def delVerb : Bytes := [100,101,108,32]
/-- `"base"` -/
def baseName : Name := [98,97,115,101]
/-- `PKG_PREFIX` -/
def usrLocal : Path := [[117,115,114],[108,111,99,97,108]]

def text (p : Path) : Bytes := [slash].intercalate p

/-- `pkg_path_is_safe`, on the names of the path. -/
def Safe (p : Path) : Prop :=
  (∀ n ∈ p, n ≠ [] ∧ n ≠ dot ∧ n ≠ dotdot ∧ ∀ b ∈ n, 32 ≤ b ∧ b ≠ 127 ∧ b ≠ slash) ∧ p ≠ [] ∧
    (text p).length < PKG_PATH_MAX

instance (p : Path) : Decidable (Safe p) := inferInstanceAs (Decidable (_ ∧ _))

abbrev Rel := { p : Path // Safe p }

def nameIsValid (name : Name) : Bool :=
  name ≠ [] ∧ name.head? ≠ some 46 ∧ name.length < PKG_NAME_MAX ∧ name ≠ baseName ∧
    ∀ b ∈ name, b ≠ slash ∧ 32 < b ∧ b ≠ 127

/-- The name beside the final one under which a file is written. -/
def temp (p : Path) : Path := p.dropLast ++ [p.getLastD [] ++ suffix]

inductive Kind where
  | file
  | dir
  | link
  deriving DecidableEq

structure MEntry where
  type : Kind
  mode : Nat
  size : Nat
  sha256 : Bytes
  path : Rel
  target : Bytes

/-- `struct pkg_manifest`; the parser refuses a path that is listed twice. -/
structure Manifest where
  name : Name
  entries : List MEntry
  distinct : (entries.map MEntry.path).Nodup

def Manifest.find (m : Manifest) (p : Path) : Option MEntry := m.entries.find? fun e => e.path.val = p

/-- `struct pkg_entry`, and what `pkg_reader_read` gives for it. -/
structure Member where
  type : Kind
  path : Rel
  link : Bytes
  size : Nat
  chunks : List Bytes
  broken : Option Errno

structure Package where
  manifest : Manifest
  /-- the bytes of `+MANIFEST` and of `FILES` -/
  manifestText : Bytes
  filesText : Bytes
  members : List Member
  /-- the error that ends the archive, if it has no proper end -/
  ending : Option Errno

structure Record where
  manifest : Option Bytes
  files : Option Bytes

inductive Leaf where
  | manifest
  | files

def Record.set (r : Record) (leaf : Leaf) (data : Option Bytes) : Record :=
  match leaf with
  | .manifest => { r with manifest := data }
  | .files => { r with files := data }

def Record.get (r : Record) : Leaf → Option Bytes
  | .manifest => r.manifest
  | .files => r.files

structure State where
  tree : Tree
  journal : Option Bytes
  /-- `.new-<name>` -/
  staging : Name → Option Record
  record : Name → Option Record

def State.installed (s : State) (name : Name) : Bool := ∃ r ∈ s.record name, r.manifest.isSome

inductive Call : Type → Type
  | lstat (p : Path) : Call Node
  | mkdir (p : Path) (mode : Nat) : Call Unit
  /-- `open` with `O_CREAT | O_EXCL`; the descriptor is the place of the file -/
  | create (p : Path) (mode : Nat) : Call (Path × Name)
  | write (fd : Path × Name) (data : Bytes) : Call Unit
  | close (fd : Path × Name) : Call Unit
  | chmod (p : Path) (mode : Nat) : Call Unit
  | rename (p q : Path) : Call Unit
  | symlink (target : Bytes) (p : Path) : Call Unit
  | unlink (p : Path) : Call Unit
  | rmdir (p : Path) : Call Unit
  | openJournal : Call Unit
  | appendJournal (line : Bytes) : Call Unit
  | readJournal : Call Bytes
  | unlinkJournal : Call Unit
  | installed (name : Name) : Call Bool
  | mkdirStaging (name : Name) : Call Unit
  | openStaging (name : Name) (leaf : Leaf) : Call Unit
  | writeStaging (name : Name) (leaf : Leaf) (data : Bytes) : Call Unit
  | unlinkStaging (name : Name) (leaf : Leaf) : Call Unit
  | rmdirStaging (name : Name) : Call Unit
  | renameStaging (name : Name) : Call Unit
  /-- the contents of a regular file, for `file_sha256` -/
  | readFile (p : Path) : Call Bytes
  /-- `FILES` of a package -/
  | readFiles (name : Name) : Call Bytes
  /-- `open` of the journal with `O_CREAT | O_TRUNC` -/
  | truncJournal : Call Unit
  | unlinkRecord (name : Name) (leaf : Leaf) : Call Unit
  | rmdirRecord (name : Name) : Call Unit
  /-- a check by calls that only look -/
  | check (passes : State → Except Errno Unit) : Call Unit

def onTree (change : Tree → Except Errno Tree) : Fallible Errno State Unit := ⟨fun s =>
  match change s.tree with
  | .ok t => (.ok (),{ s with tree := t })
  | .error e => (.error e,s)⟩

def onStaging (name : Name) (change : Option Record → Except Errno (Option Record)) : Fallible Errno State Unit :=
    ⟨fun s =>
  match change (s.staging name) with
  | .ok r => (.ok (),{ s with staging := update s.staging name r })
  | .error e => (.error e,s)⟩

def onRecord (name : Name) (change : Option Record → Except Errno (Option Record)) : Fallible Errno State Unit :=
    ⟨fun s =>
  match change (s.record name) with
  | .ok r => (.ok (),{ s with record := update s.record name r })
  | .error e => (.error e,s)⟩

/-- What a call does when nothing goes wrong with the disk. -/
def exec : {β : Type} → Call β → Fallible Errno State β
  | _, .lstat p => ⟨fun s => (s.tree.lstat p,s)⟩
  | _, .mkdir p mode => onTree fun t => t.make p (.dir mode)
  | _, .create p mode => ⟨fun s =>
    match s.tree.locate p, s.tree.make p (.file mode []) with
    | .ok place, .ok t => (.ok (place.dir,place.leaf),{ s with tree := t })
    | .error e, _ | _, .error e => (.error e,s)⟩
  | _, .write fd data => onTree fun t => t.append fd.1 fd.2 data
  | _, .close _ => pure ()
  | _, .chmod p mode => onTree fun t => t.chmod p mode
  | _, .rename p q => onTree fun t => t.rename p q
  | _, .symlink target p => onTree fun t => t.make p (.link target)
  | _, .unlink p => onTree fun t => t.unlink p
  | _, .rmdir p => onTree fun t => t.rmdir p
  | _, .openJournal => ⟨fun s => (if s.journal.isSome then .ok () else .error .ENOENT,s)⟩
  | _, .appendJournal line => Fallible.modify fun s => { s with journal := s.journal.map (· ++ line) }
  | _, .readJournal => ⟨fun s =>
    (match s.journal with
      | none => .error .ENOENT
      | some txt => if txt.length > PKG_MANIFEST_MAX then .error .EFBIG else .ok txt,s)⟩
  | _, .unlinkJournal => ⟨fun s => (if s.journal.isSome then .ok () else .error .ENOENT,{ s with journal := none })⟩
  | _, .installed name => ⟨fun s => (.ok (s.installed name),s)⟩
  | _, .mkdirStaging name => onStaging name fun r => if r.isSome then .error .EEXIST else .ok (some ⟨none,none⟩)
  | _, .openStaging name leaf => onStaging name fun
    | none => .error .ENOENT
    | some r => .ok (some (r.set leaf (some [])))
  | _, .writeStaging name leaf data => onStaging name fun
    | none => .error .EBADF
    | some r => .ok (some (r.set leaf ((r.get leaf).map (· ++ data))))
  | _, .unlinkStaging name leaf => onStaging name fun
    | none => .error .ENOENT
    | some r => if (r.get leaf).isSome then .ok (some (r.set leaf none)) else .error .ENOENT
  | _, .rmdirStaging name => onStaging name fun
    | none => .error .ENOENT
    | some r => if r.manifest.isSome ∨ r.files.isSome then .error .ENOTEMPTY else .ok none
  | _, .renameStaging name => ⟨fun s =>
    match s.staging name with
    | none => (.error .ENOENT,s)
    | some r =>
      if ∃ old ∈ s.record name, old.manifest.isSome ∨ old.files.isSome then (.error .ENOTEMPTY,s)
      else (.ok (),{ s with
        staging := update s.staging name none
        record := update s.record name (some r) })⟩
  | _, .readFile p => ⟨fun s =>
    (match s.tree.lstat p with
      | .ok (.file _ data) => .ok data
      | .ok _ => .error .EINVAL
      | .error e => .error e,s)⟩
  | _, .readFiles name => ⟨fun s =>
    (match (s.record name).bind Record.files with
      | none => .error .ENOENT
      | some txt => if txt.length > PKG_MANIFEST_MAX then .error .EFBIG else .ok txt,s)⟩
  | _, .truncJournal => Fallible.modify fun s => { s with journal := some [] }
  | _, .unlinkRecord name leaf => onRecord name fun
    | none => .error .ENOENT
    | some r => if (r.get leaf).isSome then .ok (some (r.set leaf none)) else .error .ENOENT
  | _, .rmdirRecord name => onRecord name fun
    | none => .error .ENOENT
    | some r => if r.manifest.isSome ∨ r.files.isSome then .error .ENOTEMPTY else .ok none
  | _, .check passes => ⟨fun s => (passes s,s)⟩

lemma exec_mkdir (p : Path) (mode : Nat) : exec (.mkdir p mode) = onTree fun t => t.make p (.dir mode) := rfl
lemma exec_write (fd : Path × Name) (data : Bytes) :
    exec (.write fd data) = onTree fun t => t.append fd.1 fd.2 data := rfl
lemma exec_chmod (p : Path) (mode : Nat) : exec (.chmod p mode) = onTree fun t => t.chmod p mode := rfl
lemma exec_rename (p q : Path) : exec (.rename p q) = onTree fun t => t.rename p q := rfl
lemma exec_symlink (target : Bytes) (p : Path) :
    exec (.symlink target p) = onTree fun t => t.make p (.link target) := rfl
lemma exec_unlink (p : Path) : exec (.unlink p) = onTree fun t => t.unlink p := rfl
lemma exec_rmdir (p : Path) : exec (.rmdir p) = onTree fun t => t.rmdir p := rfl

abbrev Code := Prog Call Errno

open Library.Prog

inductive Tag where
  | D
  | F
  | T
  deriving DecidableEq

def Tag.byte : Tag → UInt8
  | .D => 68
  | .F => 70
  | .T => 84

structure Note where
  tag : Tag
  path : Path
  deriving DecidableEq

def Note.line (n : Note) : Bytes := n.tag.byte :: space :: text n.path

def journalNote (tag : Tag) (p : Path) : Code Unit := do
  let line := (Note.mk tag p).line ++ [newline]
  if line.length ≥ PKG_PATH_MAX + 4 then fail .ENAMETOOLONG
  else
    perform .openJournal
    perform (.appendJournal line)

/-- `journal_end`; it does not look at the result. -/
def journalEnd : Code Unit := do
  let _ ← (perform .unlinkJournal).attempt

def cstr (txt : Bytes) : Bytes := txt.takeWhile (· ≠ 0)

def lines (txt : Bytes) : List Bytes := Library.Text.splitLines newline (cstr txt)

def parseNote : Bytes → Option Note
  | tag :: mark :: rest =>
    let p := rest.splitOn slash
    if mark = space ∧ Safe p then
      if tag = Tag.D.byte then some ⟨.D,p⟩
      else if tag = Tag.F.byte then some ⟨.F,p⟩
      else if tag = Tag.T.byte then some ⟨.T,p⟩
      else none
    else none
  | _ => none

/-- The verb and the package of the first line. -/
def parseHeader (line : Bytes) : Option (Bool × Name) :=
  let name := line.drop 4
  if (line.take 4 = addVerb ∨ line.take 4 = delVerb) ∧ nameIsValid name then some (line.take 4 = addVerb,name) else none

def notes (txt : Bytes) : List Note := (lines txt).tail.filterMap parseNote

structure Env where
  sha256 : Bytes → Bytes
  /-- the length of the root's path -/
  rootLen : Nat
  /-- what `journal_recover` does for an interrupted removal -/
  remove : Name → Code Unit

def Env.tempFits (env : Env) (p : Path) : Bool := env.rootLen + 1 + (text p).length + suffix.length < PKG_ABS_MAX

/-- One line of the rollback; the results of the calls are not looked at. -/
def undo (env : Env) (n : Note) : Code Unit :=
  match n.tag with
  | .D => do
    let _ ← (perform (.rmdir n.path)).attempt
  | .F | .T => do
    let _ ← (perform (.unlink n.path)).attempt
    if env.tempFits n.path then
      let _ ← (perform (.unlink (temp n.path))).attempt

def rollback (env : Env) : List Note → Code Unit
  | [] => ret ()
  | n :: rest => do
    undo env n
    rollback env rest

def dropStaging (name : Name) : Code Unit := do
  let _ ← (perform (.unlinkStaging name .manifest)).attempt
  let _ ← (perform (.unlinkStaging name .files)).attempt
  let _ ← (perform (.rmdirStaging name)).attempt

def journalRecover (env : Env) : Code Unit := do
  match ← (perform .readJournal).attempt with
  | .error .ENOENT => ret ()
  | .error e => fail e
  | .ok txt =>
    match (lines txt).head?.bind parseHeader with
    | none => journalEnd
    | some (true,name) =>
      if ← perform (.installed name) then journalEnd
      else
        rollback env (notes txt).reverse
        dropStaging name
        journalEnd
    | some (false,name) =>
      env.remove name
      journalEnd

def parents (p : Path) : List Path := p.dropLast.inits.tail

def makeParents : List Path → Code Unit
  | [] => ret ()
  | d :: rest => do
    match ← (perform (.mkdir d 0o755)).attempt with
    | .ok _ => journalNote .D d
    | .error .EEXIST => ret ()
    | .error e => fail e
    makeParents rest

def writeAll (fd : Path × Name) : List Bytes → Option Errno → Code Unit
  | [], none => ret ()
  | [], some e => fail e
  | chunk :: chunks, broken => do
    perform (.write fd chunk)
    writeAll fd chunks broken

/-- The file has its contents: it is checked and gets its name. -/
def placeFile (env : Env) (e : Member) (me : MEntry) (filled closed : Except Errno Unit) : Code Unit :=
  match filled, closed with
  | .error err, _ => fail err
  | .ok _, .error err => fail err
  | .ok _, .ok _ =>
    if e.chunks.flatten.length ≠ me.size ∨ env.sha256 e.chunks.flatten ≠ me.sha256 then fail .EBADMSG
    else do
      perform (.chmod (temp e.path.val) me.mode)
      perform (.rename (temp e.path.val) e.path.val)

def extractFile (env : Env) (e : Member) (me : MEntry) : Code Unit := do
  if env.tempFits e.path.val then
    makeParents (parents e.path.val)
    journalNote .F e.path.val
    let fd ← perform (.create (temp e.path.val) 0o600)
    let filled ← (writeAll fd e.chunks e.broken).attempt
    let closed ← (perform (.close fd)).attempt
    match ← (placeFile env e me filled closed).attempt with
    | .ok _ => ret ()
    | .error err =>
      let _ ← (perform (.unlink (temp e.path.val))).attempt
      fail err
  else fail .ENAMETOOLONG

/-- A member of `extract_all`, by its type. -/
def extractMember (env : Env) (e : Member) (me : MEntry) : Code Unit :=
  match e.type with
  | .file => extractFile env e me
  | .dir => do
    match ← (perform (.lstat e.path.val)).attempt with
    | .ok _ => ret ()
    | .error _ =>
      makeParents (parents e.path.val)
      journalNote .D e.path.val
      perform (.mkdir e.path.val me.mode)
  | .link =>
    if e.link ≠ me.target then fail .EBADMSG
    else do
      makeParents (parents e.path.val)
      journalNote .F e.path.val
      perform (.symlink e.link e.path.val)

/-- The test of a member against its line of the manifest. -/
def Member.fits (e : Member) (me : MEntry) (seen : List Path) : Bool :=
  e.path.val ∉ seen ∧ e.type = me.type ∧ (e.type = .file → e.size = me.size)

def extractAll (env : Env) (m : Manifest) (ending : Option Errno) : List Member → List Path → Code Unit
  | [], seen =>
    match ending with
    | some e => fail e
    | none => if seen.length ≠ m.entries.length then fail .EBADMSG else ret ()
  | e :: rest, seen =>
    match m.find e.path.val with
    | none => fail .EBADMSG
    | some me =>
      if e.fits me seen then do
        extractMember env e me
        extractAll env m ending rest (e.path.val :: seen)
      else fail .EBADMSG

def writeStaged (name : Name) (leaf : Leaf) (data : Bytes) : Code Unit := do
  perform (.openStaging name leaf)
  perform (.writeStaging name leaf data)

def record (pkg : Package) : Code Unit := do
  match ← (perform (.mkdirStaging pkg.manifest.name)).attempt with
  | .ok _ | .error .EEXIST => ret ()
  | .error e => fail e
  writeStaged pkg.manifest.name .manifest pkg.manifestText
  writeStaged pkg.manifest.name .files pkg.filesText
  perform (.renameStaging pkg.manifest.name)

/-- `cmd_add` from the point where the journal has been begun. -/
def install (env : Env) (pkg : Package) : Code Unit := do
  let placed ← (do
    extractAll env pkg.manifest pkg.ending pkg.members []
    record pkg : Code Unit).attempt
  match placed with
  | .ok _ => journalEnd
  | .error e =>
    let _ ← (journalRecover env).attempt
    fail e

def throughSymlink (t : Tree) : List Path → Bool
  | [] => false
  | d :: rest =>
    match t.lstat d with
    | .ok (.link _) | .ok (.file ..) => true
    | .ok (.dir _) => throughSymlink t rest
    | .error .ENOENT => false
    | .error _ => throughSymlink t rest

/-- Something is in the way of the entry; a directory is not in the way of a directory. -/
def occupied (t : Tree) (e : MEntry) : Bool :=
  match t.lstat e.path.val with
  | .ok node => ¬(e.type = .dir ∧ node.isDir)
  | .error _ => false

def State.begin (s : State) (name : Name) : State := { s with journal := some (addVerb ++ name ++ [newline]) }

end UbixOS.Pkg
