import UbixOS.Pkg.Remove

/-! The commands `add` and `del` as a whole (usr.sbin/pkg/add.c, del.c): in the lock, after the
recovery, with the checks against the database (db.c, lib/libpkg/version.c). -/
namespace UbixOS.Pkg

open Library (Prog Fallible)
open Library Library.Files Library.Prog

def PKG_OS_ABI : Nat := 3
def PKG_OS_VERSION : Bytes := ascii "3.1.0"

def isDigit (b : UInt8) : Bool := 48 ≤ b ∧ b ≤ 57

def isSep (b : UInt8) : Bool := b = 46 ∨ b = 45 ∨ b = 95 ∨ b = 43

/-- The bytes that `alpha_len` counts. -/
def isAlpha (b : UInt8) : Bool := !isDigit b && !isSep b

/-- `memcmp`, over the shorter of the two. -/
def memcmp : Bytes → Bytes → Ordering
  | a :: as, b :: bs => (compare a b).then (memcmp as bs)
  | _, _ => .eq

def trimZeros : Bytes → Bytes
  | a :: b :: rest => if a = 48 then trimZeros (b :: rest) else a :: b :: rest
  | ds => ds

/-- One turn of the loop of `pkg_version_cmp`: the result, or what is left of the two. -/
def versionStep (a b : Bytes) : Ordering ⊕ Bytes × Bytes :=
  match a.dropWhile isSep, b.dropWhile isSep with
  | [], [] => .inl .eq
  | [], _ :: _ => .inl .lt
  | _ :: _, [] => .inl .gt
  | x :: a, y :: b =>
    if isDigit x && isDigit y then
      let xs := trimZeros ((x :: a).takeWhile isDigit)
      let ys := trimZeros ((y :: b).takeWhile isDigit)
      match (compare xs.length ys.length).then (memcmp xs ys) with
      | .eq => .inr (a.dropWhile isDigit,b.dropWhile isDigit)
      | order => .inl order
    else if isDigit x || isDigit y then .inl (if isDigit x then .gt else .lt)
    else
      let xs := (x :: a).takeWhile isAlpha
      let ys := (y :: b).takeWhile isAlpha
      match (memcmp xs ys).then (compare xs.length ys.length) with
      | .eq => .inr (a.dropWhile isAlpha,b.dropWhile isAlpha)
      | order => .inl order

def versionLoop : Nat → Bytes → Bytes → Ordering
  | 0, _, _ => .eq
  | fuel + 1, a, b =>
    match versionStep a b with
    | .inl order => order
    | .inr rest => versionLoop fuel rest.1 rest.2

def versionCmp (a b : Bytes) : Ordering := versionLoop (a.length + 1) a b

lemma versionStep_shorter (more : versionStep a b = .inr rest) : rest.1.length < a.length := by
  have skipped : (a.dropWhile isSep).length ≤ a.length := List.length_dropWhile_le ..
  simp only [versionStep] at more
  split at more
  next => cases more
  next => cases more
  next => cases more
  next x as y bs here _ =>
    rw [here,List.length_cons] at skipped
    have digits : (as.dropWhile isDigit).length ≤ as.length := List.length_dropWhile_le ..
    have letters : (as.dropWhile isAlpha).length ≤ as.length := List.length_dropWhile_le ..
    split at more
    next =>
      split at more
      next =>
        cases more
        exact digits.trans_lt skipped
      next => cases more
    next =>
      split at more
      next => cases more
      next =>
        split at more
        next =>
          cases more
          exact letters.trans_lt skipped
        next => cases more

lemma versionLoop_enough (enough : a.length < fuel) : versionLoop fuel a b = versionCmp a b := by
  have same : ∀ {n k a b}, a.length < n → a.length < k → versionLoop n a b = versionLoop k a b := by
    intro n
    induction n with
    | zero => exact fun none => absurd none (Nat.not_lt_zero _)
    | succ n ih =>
      intro k a b first second
      obtain ⟨k,rfl⟩ := Nat.exists_eq_succ_of_ne_zero (Nat.ne_zero_of_lt second)
      simp only [versionLoop]
      cases turn : versionStep a b with
      | inl order => rfl
      | inr rest =>
        have shorter := versionStep_shorter turn
        exact ih (by omega) (by omega)
  exact same enough (Nat.lt_succ_self _)

lemma versionCmp_eq (a b : Bytes) : versionCmp a b = match versionStep a b with
    | .inl order => order
    | .inr rest => versionCmp rest.1 rest.2 := by
  rw [versionCmp,versionLoop]
  cases turn : versionStep a b with
  | inl order => rfl
  | inr rest => exact versionLoop_enough (versionStep_shorter turn)

def Dep.satisfied (dep : Dep) (have_ : Bytes) : Bool :=
  let c := versionCmp have_ dep.version
  match dep.op with
  | .any => true
  | .eq => c = .eq
  | .ge => c ≠ .lt
  | .gt => c = .gt
  | .le => c ≠ .gt
  | .lt => c = .lt

/-- What a command finds around it. -/
structure Host extends Env where
  arch : Bytes
  /-- the names in `var/db/pkg`, as `readdir` gives them -/
  names : List Name
  /-- a `MANIFEST` that is found under a name with `..` or with more than one part -/
  elsewhere : Name → Option Bytes
  /-- the text of the process number in the lock -/
  pid : Bytes
  /-- the owner of the lock lives, at the first and at the second attempt -/
  alive : Bool × Bool

/-- `MANIFEST` in the directory of this name; the parts `.` and the empty ones lead nowhere. -/
def Host.manifestText (host : Host) (s : State) (name : Name) : Option Bytes :=
  match (name.splitOn Tree.slash).filter fun part => part ≠ [] ∧ part ≠ Tree.dot with
  | [part] =>
    if part = Tree.dotdot then host.elsewhere name
    else if ascii ".new-" <+: part then (s.staging (part.drop 5)).bind Record.manifest
    else (s.record part).bind Record.manifest
  | _ => host.elsewhere name

def readable (txt : Bytes) : Option Bytes := if txt.length > PKG_MANIFEST_MAX then none else some txt

def Host.readManifest (host : Host) (s : State) (name : Name) : Option PkgManifest :=
  ((host.manifestText s name).bind readable).bind manifestParse

def Host.list (host : Host) (s : State) : List Name :=
    host.names.filter fun name => nameIsValid name && s.installed name

/-- The list of the base set; one that cannot be read counts as empty. -/
def State.baseList (s : State) : List FRec := (((s.record baseName).bind Record.manifest).bind readFlist).getD []

/-- The paths of `owners_add`. -/
def owned (fl : List FRec) : List Path := (fl.filter fun f => f.type ≠ .dir).map fun f => f.path.val

def Host.owners (host : Host) (s : State) : Option (List Path) :=
  ((host.list s).mapM s.flist).map fun lists => (lists.map owned).flatten ++ owned s.baseList

def Host.findDependent (host : Host) (name : Name) (s : State) : Bool :=
  ∃ other ∈ host.list s, other ≠ name ∧ ∃ m ∈ host.readManifest s other, ∃ dep ∈ m.depends, dep.name = name

def Host.provided (host : Host) (s : State) (dep : Dep) : Bool :=
    ∃ m ∈ host.readManifest s dep.name, dep.satisfied m.version

/-- The checks of `preflight` for one entry. -/
def checkEntry (own : List Path) (t : Tree) (m : Manifest) (e : MEntry) : Except Errno Unit :=
  if ¬(usrLocal <+: e.path.val ∧ usrLocal ≠ e.path.val) then .error .EEXIST
  else if ∃ d ∈ parents e.path.val, ∃ a ∈ m.find d, a.type = .link then .error .EEXIST
  else if throughSymlink t (parents e.path.val) then .error .ELOOP
  else if e.path.val ∈ own then .error .EEXIST
  else if occupied t e then .error .EEXIST
  else .ok ()

def checkEntries (own : List Path) (t : Tree) (m : Manifest) : List MEntry → Except Errno Unit
  | [] => .ok ()
  | e :: rest => do
    checkEntry own t m e
    checkEntries own t m rest

/-- `preflight`, against the database. -/
def Host.preflight (host : Host) (m : PkgManifest) (s : State) : Except Errno Unit :=
  if nameIsValid m.name = false then .error .EINVAL
  else if m.arch ≠ host.arch ∨ m.abi ≠ PKG_OS_ABI then .error .ENOEXEC
  else if m.base.op ≠ .any ∧ m.base.satisfied PKG_OS_VERSION = false then .error .ENOEXEC
  else if s.installed m.name then .error .EEXIST
  else if ∃ dep ∈ m.depends, host.provided s dep = false then .error .ENOENT
  else if ∃ dep ∈ m.conflicts, host.provided s dep then .error .EEXIST
  else
    match host.owners s with
    | none => .error .EINVAL
    | some own => checkEntries own s.tree m.toManifest m.entries

/-- What `preflight` has found when it lets the package pass. -/
structure Passed (host : Host) (m : PkgManifest) (s : State) : Prop where
  valid : nameIsValid m.name = true
  fresh : s.installed m.name = false
  depends : ∀ dep ∈ m.depends, host.provided s dep = true
  conflicts : ∀ dep ∈ m.conflicts, host.provided s dep = false
  entries : ∃ own, host.owners s = some own ∧ ∀ e ∈ m.entries, checkEntry own s.tree m.toManifest e = .ok ()

lemma checkEntries_ok (passed : checkEntries own t m es = .ok ()) : ∀ e ∈ es, checkEntry own t m e = .ok () := by
  induction es with
  | nil => nofun
  | cons e es ih =>
    rw [checkEntries] at passed
    cases first : checkEntry own t m e with
    | error err =>
      rw [first] at passed
      cases passed
    | ok =>
      rw [first] at passed
      exact List.forall_mem_cons.mpr ⟨first,ih passed⟩

lemma Host.preflight_passed (passed : host.preflight m s = .ok ()) : Passed host m s := by
  rw [Host.preflight] at passed
  split_ifs at passed with valid arch base fresh depends conflicts
  cases own : host.owners s with
  | none =>
    rw [own] at passed
    cases passed
  | some paths =>
    rw [own] at passed
    refine ⟨by simpa using valid,by simpa using fresh,fun dep inside => ?_,fun dep inside => ?_,paths,own,
      checkEntries_ok passed⟩
    · simpa using fun missing => depends ⟨dep,inside,missing⟩
    · simpa using fun there => conflicts ⟨dep,inside,there⟩

/-- What `checkEntry` has found when it lets the entry pass. -/
lemma checkEntry_ok (passed : checkEntry own t m e = .ok ()) : (usrLocal <+: e.path.val ∧ usrLocal ≠ e.path.val) ∧
    (∀ d ∈ parents e.path.val, ∀ a ∈ m.find d, a.type ≠ .link) ∧ throughSymlink t (parents e.path.val) = false ∧
    occupied t e = false := by
  rw [checkEntry] at passed
  split_ifs at passed with inside link way taken full
  exact ⟨inside,fun d above a found type => link ⟨d,above,a,found,type⟩,by simpa using way,by simpa using full⟩

lemma Passed.admitted (passed : Passed host m s) : Admitted s.tree m.toManifest := by
  obtain ⟨own,-,each⟩ := passed.entries
  have found e (member : e ∈ m.entries) := (checkEntry_ok (each e member)).2
  exact admitted_of_clear (fun e member => (found e member).1) (fun e member => (found e member).2.1)
    fun e member => (found e member).2.2

lemma Passed.inside (passed : Passed host m s) :
    ∀ e ∈ m.entries, usrLocal <+: e.path.val ∧ usrLocal ≠ e.path.val := by
  obtain ⟨own,-,each⟩ := passed.entries
  exact fun e member => (checkEntry_ok (each e member)).1

/-- What the reader hands out of a package file. -/
structure Archive where
  /-- the text of `+MANIFEST`, which must be the first member -/
  manifest : Except Errno Bytes
  members : List Member
  ending : Option Errno

def Archive.package (file : Archive) (txt : Bytes) (m : PkgManifest) : Package where
  manifest := m.toManifest
  manifestText := txt
  filesText := writeFiles m.toManifest
  members := file.members
  ending := file.ending

def usr : Path := [ascii "usr"]
def varDbPkg : Path := [ascii "var",ascii "db",ascii "pkg"]
def varLock : Path := [ascii "var",ascii "lock"]
def lockPath : Path := varLock ++ [ascii "pkg.lock"]

def makeEach : List Path → Code Unit
  | [] => ret ()
  | d :: rest => do
    match ← (perform (.mkdir d 0o755)).attempt with
    | .ok _ | .error .EEXIST => makeEach rest
    | .error e => fail e

def makeDirs (p : Path) : Code Unit := makeEach p.inits.tail

/-- The attempts of `lock_take`; each time the owner may be alive. -/
def lockTries (host : Host) : List Bool → Code (Path × Name)
  | [] => fail .EBUSY
  | alive :: rest => do
    match ← (perform (.create lockPath 0o644)).attempt with
    | .ok fd =>
      let _ ← (perform (.write fd host.pid)).attempt
      ret fd
    | .error .EEXIST =>
      if alive then fail .EBUSY
      else
        let _ ← (perform (.unlink lockPath)).attempt
        lockTries host rest
    | .error e => fail e

def lockTake (host : Host) : Code (Path × Name) := do
  makeDirs varLock
  lockTries host [host.alive.1,host.alive.2]

def lockDrop (fd : Path × Name) : Code Unit := do
  let _ ← (perform (.close fd)).attempt
  let _ ← (perform (.unlink lockPath)).attempt

def locked (host : Host) (body : Code Unit) : Code Unit := do
  let fd ← lockTake host
  let result ← body.attempt
  lockDrop fd
  match result with
  | .ok _ => ret ()
  | .error e => fail e

/-- `cmd_add` in the lock, from the point where the manifest has been parsed. -/
def addPackage (host : Host) (file : Archive) (txt : Bytes) (m : PkgManifest) : Code Unit := do
  perform (.check (host.preflight m))
  journalBegin addVerb m.name
  install host.toEnv.removing (file.package txt m)

/-- `cmd_add` in the lock; `signature` is what `verify_signature` finds. -/
def addBody (host : Host) (signature : Except Errno Unit) (file : Archive) : Code Unit := do
  makeDirs varDbPkg
  journalRecover host.toEnv.removing
  match signature with
  | .error e => fail e
  | .ok _ =>
    match file.manifest with
    | .error e => fail e
    | .ok txt =>
      match manifestParse txt with
      | none => fail .EINVAL
      | some m => addPackage host file txt m

/-- The failure of `cmd_del` when another package needs this one. -/
def Host.unneeded (host : Host) (name : Name) (s : State) : Except Errno Unit :=
  if host.findDependent name s then .error .EBUSY else .ok ()

inductive Command where
  | add (signature : Except Errno Unit) (file : Archive)
  | del (force : Bool) (name : Name)

/-- `cmd_add` and `cmd_del` -/
def Command.code (host : Host) : Command → Code Unit
  | .add signature file => locked host (addBody host signature file)
  | .del force name =>
    if nameIsValid name then locked host (delBody host.toEnv (perform (.check (host.unneeded name))) force name)
    else fail .EINVAL

end UbixOS.Pkg
