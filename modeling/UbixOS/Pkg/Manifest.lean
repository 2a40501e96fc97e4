import UbixOS.Pkg.Journal

/-! The manifest of a package: lines `key: value` (lib/libpkg/kv.c) and what they mean
(lib/libpkg/manifest.c). Every failure is `-EINVAL`. -/
namespace UbixOS.Pkg

open Library Library.Files List Option Text

def PKG_KV_KEY_MAX : Nat := 32
def PKG_VER_MAX : Nat := 64
def PKG_SHA256_LEN : Nat := 32
def MANIFEST_MAX_ENTRIES : Nat := 2 ^ 20

def ascii (s : String) : Bytes := s.toList.map fun c => UInt8.ofNat c.toNat

def isBlank (b : UInt8) : Bool := b = space ∨ b = 9 ∨ b = 13

/-- `pkg_kv_next`, on one line; `some none` is a blank line or a comment. -/
def kvLine (raw : Bytes) : Option (Option (Bytes × Bytes)) :=
  let line := (raw.dropWhile isBlank).rdropWhile isBlank
  if line = [] ∨ line.head? = some 35 then some none
  else if 58 ∈ line then
    let key := (line.takeWhile (· ≠ 58)).rdropWhile isBlank
    if key = [] ∨ key.length ≥ PKG_KV_KEY_MAX then none
    else some (some (cstr key,(line.dropWhile (· ≠ 58)).tail.dropWhile isBlank))
  else none

def kvCopy (size : Nat) (val : Bytes) : Option Bytes :=
  if val.length < size ∧ ∀ b ∈ val, 32 ≤ b ∧ b ≠ 127 then some val else none

def kvU64 (base : Nat) (val : Bytes) : Option Nat := if val = [] then none else number base (2 ^ 64 - 1) val

def nextToken (s : Bytes) : Bytes × Bytes :=
  let p := s.dropWhile isBlank
  (p.takeWhile fun b => !isBlank b,p.dropWhile fun b => !isBlank b)

inductive Op where
  | any
  | eq
  | ge
  | gt
  | le
  | lt
  deriving DecidableEq

structure Dep where
  name : Name
  op : Op
  version : Bytes
  deriving DecidableEq

/-- The operator in front of a version. -/
def depOp (tok : Bytes) : Option (Op × Bytes) :=
  let op := tok.takeWhile fun b => b = 60 ∨ b = 62 ∨ b = 61
  let rest := tok.drop op.length
  if op = ascii ">=" then some (.ge,rest)
  else if op = ascii "<=" then some (.le,rest)
  else if op = ascii ">" then some (.gt,rest)
  else if op = ascii "<" then some (.lt,rest)
  else if op = ascii "=" then some (.eq,rest)
  else none

/-- `pkg_dep_parse` after the name. -/
def depConstraint (name : Name) (tok s : Bytes) : Option Dep := do
  let (op,here) ← depOp tok
  let (version,s) := if here = [] then nextToken s else (here,s)
  if version = [] then none
  else
    let version ← kvCopy PKG_VER_MAX version
    if (nextToken s).1 = [] then some ⟨name,op,version⟩ else none

/-- `pkg_dep_parse` with a name. -/
def depParse (val : Bytes) : Option Dep := do
  let (tok,s) := nextToken val
  if tok = [] then none
  else
    let name ← kvCopy PKG_NAME_MAX tok
    let (tok,s) := nextToken s
    if tok = [] then some ⟨name,.any,[]⟩ else depConstraint name tok s

/-- `pkg_dep_parse` without a name, for `base:`. -/
def baseParse (val : Bytes) : Option Dep :=
  let (tok,s) := nextToken val
  if tok = [] then none else depConstraint [] tok s

def deplistParse (val : Bytes) : Option (List Dep) := (splitLines 44 val).mapM depParse

def hexVal (c : UInt8) : Option UInt8 :=
  if 48 ≤ c ∧ c ≤ 57 then some (c - 48)
  else if 97 ≤ c ∧ c ≤ 102 then some (c - 87)
  else if 65 ≤ c ∧ c ≤ 70 then some (c - 55)
  else none

def hexPairs : Bytes → Option Bytes
  | [] => some []
  | [_] => none
  | hi :: lo :: rest => do
    let hi ← hexVal hi
    let lo ← hexVal lo
    let rest ← hexPairs rest
    some ((hi * 16 + lo) :: rest)

def hexDecode (len : Nat) (hex : Bytes) : Option Bytes := if hex.length = 2 * len then hexPairs hex else none

def hexEncode (l : Bytes) : Bytes :=
  l.flatMap fun b => [b / 16,b % 16].map fun d => if d < 10 then 48 + d else 87 + d

def dupPath (s : Bytes) : Option Rel :=
  if s.length = 0 ∨ s.length ≥ PKG_PATH_MAX then none
  else
    let p := (cstr s).splitOn Tree.slash
    if safe : Safe p then some ⟨p,safe⟩ else none

def token (s : Bytes) : Bytes × Bytes :=
  let p := s.dropWhile (· = space)
  (p.takeWhile fun b => b ≠ space ∧ b ≠ 9,p.dropWhile fun b => b ≠ space ∧ b ≠ 9)

def arrow : Bytes := [32,45,62,32]

def noHash : Bytes := replicate PKG_SHA256_LEN 0

def parseLink (val : Bytes) : Option MEntry := do
  let (p,target) ← cut arrow val
  let path ← dupPath p
  if target = [] ∨ target.length ≥ PKG_PATH_MAX then none
  else some { type := .link, mode := 0, size := 0, sha256 := noHash, path := path, target := cstr target }

/-- The mode in front of a `dir:` or `file:` value. -/
def parseMode (val : Bytes) : Option (Nat × Bytes) := do
  let mode ← kvU64 8 (token val).1
  if mode > 0o7777 then none else some (mode,(token val).2)

def parseDir (val : Bytes) : Option MEntry := do
  let (mode,s) ← parseMode val
  let path ← dupPath (s.dropWhile (· = space))
  some { type := .dir, mode := mode, size := 0, sha256 := noHash, path := path, target := [] }

def parseFile (val : Bytes) : Option MEntry := do
  let (mode,s) ← parseMode val
  let size ← kvU64 10 (token s).1
  let s := (token s).2
  let sha256 ← hexDecode PKG_SHA256_LEN (token s).1
  let path ← dupPath ((token s).2.dropWhile (· = space))
  some { type := .file, mode := mode, size := size, sha256 := sha256, path := path, target := [] }

/-- The rest of `struct pkg_manifest`. -/
structure PkgManifest extends Manifest where
  version : Bytes
  revision : Nat
  arch : Bytes
  abi : Nat
  base : Dep
  depends : List Dep
  conflicts : List Dep

/-- The manifest while its lines are read; `none` where a required field is missing. -/
structure Draft where
  name : Bytes := []
  version : Bytes := []
  revision : Nat := 0
  arch : Bytes := []
  abi : Nat := 0
  base : Dep := ⟨[],.any,[]⟩
  depends : List Dep := []
  conflicts : List Dep := []
  entries : List MEntry := []
  hasName : Bool := false
  hasVersion : Bool := false
  hasArch : Bool := false
  hasAbi : Bool := false

def kvU32 (val : Bytes) : Option Nat := do
  let v ← kvU64 10 val
  if v > 2 ^ 32 - 1 then none else some v

def Draft.entry (d : Draft) (e : Option MEntry) : Option Draft :=
  if d.entries.length ≥ MANIFEST_MAX_ENTRIES then none else e.map fun e => { d with entries := d.entries ++ [e] }

inductive Key where
  | name
  | version
  | revision
  | arch
  | abi
  | base
  | comment
  | license
  | compression
  | installedSize
  | recipeHash
  | depends
  | conflicts
  | file
  | dir
  | link
  | conf

def keys : List (Bytes × Key) :=
  [(ascii "name",.name),(ascii "version",.version),(ascii "revision",.revision),(ascii "arch",.arch),(ascii "abi",.abi),
    (ascii "base",.base),(ascii "comment",.comment),(ascii "license",.license),(ascii "compression",.compression),
    (ascii "installed-size",.installedSize),(ascii "recipe-hash",.recipeHash),(ascii "depends",.depends),
    (ascii "conflicts",.conflicts),(ascii "file",.file),(ascii "dir",.dir),(ascii "link",.link),(ascii "conf",.conf)]

/-- The first pass of `pkg_manifest_parse`, for one line. -/
def Draft.pair (d : Draft) (kv : Bytes × Bytes) : Option Draft :=
  let val := kv.2
  match keys.lookup kv.1 with
  | some .name => (kvCopy PKG_NAME_MAX val).map fun v => { d with name := v, hasName := d.hasName || !val.isEmpty }
  | some .version => (kvCopy PKG_VER_MAX val).map fun v =>
    { d with version := v, hasVersion := d.hasVersion || !val.isEmpty }
  | some .revision => (kvU32 val).map fun v => { d with revision := v }
  | some .arch => (kvCopy 16 val).map fun v => { d with arch := v, hasArch := d.hasArch || !val.isEmpty }
  | some .abi => (kvU32 val).map fun v => { d with abi := v, hasAbi := true }
  | some .base => (baseParse val).map fun v => { d with base := v }
  | some .comment => (kvCopy 256 val).map fun _ => d
  | some .license => (kvCopy 128 val).map fun _ => d
  | some .compression => (kvCopy 16 val).map fun _ => d
  | some .installedSize => (kvU64 10 val).map fun _ => d
  | some .recipeHash => (kvCopy 65 val).map fun _ => d
  | some .depends => (deplistParse val).map fun v => { d with depends := d.depends ++ v }
  | some .conflicts => (deplistParse val).map fun v => { d with conflicts := d.conflicts ++ v }
  | some .file => d.entry (parseFile val)
  | some .dir => d.entry (parseDir val)
  | some .link => d.entry (parseLink val)
  | some .conf | none => some d

/-- The order of `entry_cmp`. -/
def MEntry.before (a b : MEntry) : Prop := text a.path.val ≤ text b.path.val

instance : DecidableRel MEntry.before := fun a b => inferInstanceAs (Decidable (text a.path.val ≤ text b.path.val))

/-- The second pass: a `conf:` line names a file. -/
def confNames (entries : List MEntry) (kv : Bytes × Bytes) : Bool :=
  kv.1 = ascii "conf" → (kvCopy PKG_PATH_MAX kv.2).isSome ∧ ∃ e ∈ entries, text e.path.val = kv.2 ∧ e.type = .file

def manifestParse (txt : Bytes) : Option PkgManifest := do
  let ls ← (splitLines newline txt).mapM kvLine
  let pairs := ls.reduceOption
  let d ← pairs.foldlM Draft.pair {}
  let entries := d.entries.insertionSort MEntry.before
  -- Equal paths are neighbours after the sort.
  if distinct : (entries.map MEntry.path).Nodup then
    if (∀ kv ∈ pairs, confNames entries kv) ∧ d.hasName ∧ d.hasVersion ∧ d.hasArch ∧ d.hasAbi then some {
      name := d.name, entries := entries, distinct := distinct, version := d.version, revision :=
        d.revision, arch := d.arch,
      abi := d.abi, base := d.base, depends := d.depends, conflicts := d.conflicts }
    else none
  else none

variable {d d' : Draft}

/-- What the parser has checked of an entry. -/
structure MEntry.Accepted (e : MEntry) : Prop where
  mode : e.mode ≤ 0o7777
  sha256 : e.sha256.length = PKG_SHA256_LEN
  plain : e.type ≠ .link → e.target = []
  link : e.type = .link → e.mode = 0 ∧ (∀ b a, text e.path.val = b ++ a → ¬arrow <+: a) ∧ newline ∉ e.target ∧
    0 ∉ e.target

lemma zero_notMem_cstr : (0 : UInt8) ∉ cstr txt := by
  intro member
  simpa using mem_takeWhile_imp member

lemma mem_cstr (member : b ∈ cstr txt) : b ∈ txt := ( takeWhile_prefix _).subset member

lemma text_splitOn (s : Bytes) : text (s.splitOn Tree.slash) = s := intercalate_splitOn ..

lemma dupPath_some (found : dupPath val = some r) : text r.val = cstr val := by
  rw [dupPath] at found
  split at found
  next => cases found
  next =>
    dsimp only at found
    split at found
    next => rw [← some.inj found,text_splitOn]
    next => cases found

lemma hexPairs_length : ∀ {hex out}, hexPairs hex = some out → hex.length = 2 * out.length
  | [],_,found => by
    cases found
    rfl
  | [_],_,found => by cases found
  | hi :: lo :: rest,out,found => by
    simp only [hexPairs,bind_eq_bind,bind_eq_some_iff] at found
    obtain ⟨_,-,_,-,tail,later,same⟩ := found
    cases same
    simp [hexPairs_length later]
    omega

lemma parseLink_accepted (clean : newline ∉ val) (found : parseLink val = some e) : e.Accepted := by
  simp only [parseLink,bind_eq_bind,bind_eq_some_iff] at found
  obtain ⟨⟨p,target⟩,cut,path,dup,found⟩ := found
  split at found
  next => cases found
  next =>
    cases found
    refine ⟨by simp,by simp [noHash],fun other => absurd rfl other,fun _ =>
      ⟨rfl,fun b a split here => ?_,fun member => ?_,zero_notMem_cstr⟩⟩
    · -- The path is the beginning of what stands before the first arrow.
      rw [dupPath_some dup] at split
      obtain ⟨rest,whole⟩ : cstr p <+: p := takeWhile_prefix _
      have more : a ≠ [] := by
        rintro rfl
        simp [arrow] at here
      refine cut_before cut b (a ++ rest) (by rw [← whole,split,append_assoc]) (by simp [more]) ?_
      exact (here.trans (prefix_append a rest)).trans (prefix_append _ _)
    · rw [cut_some cut] at clean
      exact clean (mem_append_right _ (mem_append_right _ (mem_cstr member)))

lemma parseMode_some (found : parseMode val = some (mode,s)) : mode ≤ 0o7777 := by
  simp only [parseMode,bind_eq_bind,bind_eq_some_iff] at found
  obtain ⟨v,-,found⟩ := found
  split at found
  next => cases found
  next small =>
    cases found
    exact Nat.le_of_not_lt small

lemma parseDir_accepted (found : parseDir val = some e) : e.Accepted := by
  simp only [parseDir,bind_eq_bind,bind_eq_some_iff] at found
  obtain ⟨⟨mode,s⟩,first,path,-,same⟩ := found
  cases same
  exact ⟨parseMode_some first,by simp [noHash],fun _ => rfl,nofun⟩

lemma parseFile_accepted (found : parseFile val = some e) : e.Accepted := by
  simp only [parseFile,bind_eq_bind,bind_eq_some_iff] at found
  obtain ⟨⟨mode,s⟩,first,size,-,sha,decoded,path,-,same⟩ := found
  cases same
  refine ⟨parseMode_some first,?_,fun _ => rfl,nofun⟩
  rw [hexDecode] at decoded
  split at decoded
  next length =>
    have twice := hexPairs_length decoded
    change sha.length = _
    omega
  next => cases decoded

lemma Draft.entry_some (found : d.entry e = some d') : ∃ a, e = some a ∧ d'.entries = d.entries ++ [a] := by
  rw [Draft.entry] at found
  split at found
  next => cases found
  next =>
    obtain ⟨a,rfl,rfl⟩ := map_eq_some_iff.mp found
    exact ⟨a,rfl,rfl⟩

/-- A line adds an entry that the parser accepts, or none. -/
lemma Draft.pair_entries (clean : newline ∉ kv.2) (found : d.pair kv = some d') :
    d'.entries = d.entries ∨ ∃ e, e.Accepted ∧ d'.entries = d.entries ++ [e] := by
  simp only [Draft.pair] at found
  generalize keys.lookup kv.1 = key at found
  cases key with
  | none =>
    cases found
    exact .inl rfl
  | some key =>
    cases key with
    | file =>
      obtain ⟨e,parsed,entries⟩ := entry_some found
      exact .inr ⟨e,parseFile_accepted parsed,entries⟩
    | dir =>
      obtain ⟨e,parsed,entries⟩ := entry_some found
      exact .inr ⟨e,parseDir_accepted parsed,entries⟩
    | link =>
      obtain ⟨e,parsed,entries⟩ := entry_some found
      exact .inr ⟨e,parseLink_accepted clean parsed,entries⟩
    | conf =>
      cases found
      exact .inl rfl
    | _ =>
      obtain ⟨v,-,rfl⟩ := map_eq_some_iff.mp found
      exact .inl rfl

lemma Draft.pairs_entries {pairs : List (Bytes × Bytes)} (clean : ∀ kv ∈ pairs, newline ∉ kv.2)
    (old : ∀ e ∈ d.entries, e.Accepted)
    (found : pairs.foldlM Draft.pair d = some d') : ∀ e ∈ d'.entries, e.Accepted := by
  induction pairs generalizing d with
  | nil =>
    cases found
    exact old
  | cons kv pairs ih =>
    rw [foldlM_cons,bind_eq_bind,bind_eq_some_iff] at found
    obtain ⟨next,step,rest⟩ := found
    refine ih (fun kv inside => clean kv (mem_cons_of_mem _ inside)) ?_ rest
    rcases pair_entries (clean kv mem_cons_self) step with same | ⟨e,accepted,more⟩
    · rw [same]
      exact old
    rw [more]
    intro a inside
    rcases mem_append.mp inside with before | last
    · exact old a before
    · rw [mem_singleton.mp last]
      exact accepted

lemma kvLine_some (found : kvLine raw = some (some kv)) : ∀ b ∈ kv.2, b ∈ raw := by
  simp only [kvLine] at found
  split at found
  next => cases found
  next =>
    split at found
    swap
    next => cases found
    next =>
      split at found
      next => cases found
      next =>
        cases found
        intro b member
        have line : b ∈ (raw.dropWhile isBlank).rdropWhile isBlank :=
          (dropWhile_suffix _).subset (mem_of_mem_tail ((dropWhile_suffix _).subset member))
        exact (dropWhile_suffix _).subset (( rdropWhile_prefix _ _).subset line)

lemma manifestParse_accepted (found : manifestParse txt = some m) : ∀ e ∈ m.entries, e.Accepted := by
  simp only [manifestParse,bind_eq_bind,bind_eq_some_iff] at found
  obtain ⟨ls,lines,d,folded,found⟩ := found
  split_ifs at found
  cases found
  intro e inside
  have clean : ∀ kv ∈ ls.reduceOption, newline ∉ kv.2 := by
    intro kv member mark
    have line : some kv ∈ ls := reduceOption_mem_iff.mp member
    obtain ⟨raw,member,parsed⟩ := (mapM_mem lines).1 _ line
    exact mem_splitLines member (kvLine_some parsed _ mark)
  exact Draft.pairs_entries clean (fun _ inside => absurd inside not_mem_nil) folded e ((mem_insertionSort _).mp inside)

end UbixOS.Pkg
