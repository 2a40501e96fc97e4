import UbixOS.Pkg.Commands

/-! The reader of a package file (lib/libpkg/archive.c), on the bytes that inflate gives, and what
`cmd_add` takes from it. -/
namespace UbixOS.Pkg

open Library Library.Files

def TAR_BLOCK : Nat := 512
def PAX_MAX : Nat := 8192
def manifestName : Bytes := ascii "+MANIFEST"

structure Entry where
  type : Kind
  path : Rel
  mode : Nat
  size : Nat
  mtime : Nat
  link : Bytes

structure Reader where
  rest : Bytes
  /-- the error for a read past the last byte -/
  overrun : Errno
  /-- `remaining + pad` -/
  skip : Nat
  first : Bool
  /-- `prefix` -/
  within : Option Bytes
  /-- `PKG_READ_ALLOW_SETID` -/
  allowSetid : Bool

def infRead (r : Reader) (n : Nat) : Except Errno (Bytes × Reader) :=
  if r.rest.length < n then .error r.overrun else .ok (r.rest.take n,{ r with rest := r.rest.drop n })

def slice (off n : Nat) (l : Bytes) : Bytes := (l.drop off).take n

def octal (f : Bytes) : Option Nat :=
  let f := f.dropWhile (· = space)
  let digits := f.takeWhile isOctal
  if digits = [] ∨ ∃ b ∈ f.dropWhile isOctal, b ≠ space ∧ b ≠ 0 then none else Text.number 8 (2 ^ 60 - 1) digits

/-- The sum of the bytes, with blanks for the field that holds it. -/
def checksum (blk : Bytes) : Nat := ((blk.take 148).map UInt8.toNat).sum + 8 * 32 + ((blk.drop 156).map UInt8.toNat).sum

structure Ustar where
  name : Bytes
  mode : Nat
  size : Nat
  mtime : Nat
  typ : UInt8
  link : Bytes
  pre : Bytes

def ustar (blk : Bytes) : Option Ustar := do
  let want ← octal (slice 148 8 blk)
  if want ≠ checksum blk ∨ slice 257 5 blk ≠ ascii "ustar" then none
  else
    let size ← octal (slice 124 12 blk)
    let mode ← octal (slice 100 8 blk)
    let mtime ← if slice 136 1 blk = [0] then some 0 else octal (slice 136 12 blk)
    some {
      name := cstr (slice 0 100 blk), mode := mode, size := size, mtime := mtime, typ := (slice 156 1 blk).headD 0
      link := cstr (slice 157 100 blk), pre := cstr (slice 345 155 blk) }

def padding (size : Nat) : Nat := (TAR_BLOCK - size % TAR_BLOCK) % TAR_BLOCK

/-- The length at the start of a record, how many digits it has, and what follows. -/
def paxLen : Nat → Nat → Bytes → Nat × Nat × Bytes
  | v, n, b :: rest => if isDigit b ∧ v < PAX_MAX then paxLen (v * 10 + (b.toNat - 48)) (n + 1) rest
    else (v,n,b :: rest)
  | v, n, [] => (v,n,[])

/-- One turn of `pax_parse`: the path, and the records that follow. -/
def paxRecord (buf : Bytes) : Option (Bytes × Bytes) :=
  let (len,digits,rest) := paxLen 0 0 buf
  if rest.head? ≠ some space ∨ len < digits + 4 ∨ len > buf.length then none
  else
    let record := buf.take len
    let body := (record.drop (digits + 1)).dropLast
    if record.getLast? ≠ some newline ∨ 61 ∉ body ∨ body.takeWhile (· ≠ 61) ≠ ascii "path" then none
    else (kvCopy PKG_PATH_MAX (body.drop 5)).map fun path => (path,buf.drop len)

def paxLoop : Nat → Bytes → Bytes → Option Bytes
  | 0, _, path => some path
  | fuel + 1, buf, path =>
    if buf = [] then some path
    else
      match paxRecord buf with
      | none => none
      | some (path,rest) => paxLoop fuel rest path

/-- `pax_parse`; the last path counts. -/
def paxParse (buf : Bytes) : Option Bytes := paxLoop buf.length buf []

def typeOf (typ : UInt8) : Except Errno Kind :=
  if typ = 103 ∨ typ = 76 ∨ typ = 75 then .error .EINVAL
  else if typ = 48 ∨ typ = 0 then .ok .file
  else if typ = 53 then .ok .dir
  else if typ = 50 then .ok .link
  else .error .EPERM

def Ustar.path (h : Ustar) (pax : Option Bytes) (type : Kind) : Bytes :=
  let p := pax.getD (if h.pre = [] then h.name else h.pre ++ [Tree.slash] ++ h.name)
  if type = .dir ∧ p.length > 1 ∧ p.getLast? = some Tree.slash then p.dropLast else p

def underPrefix (within : Option Bytes) (p : Bytes) : Bool :=
  match within with
  | none => true
  | some w => w <+: p ∨ w ≠ [] ∧ p = w.dropLast

/-- The policy of `pkg_reader_next` for a member. -/
def member (r : Reader) (h : Ustar) (pax : Option Bytes) : Except Errno (Entry × Reader) := do
  let type ← typeOf h.typ
  let path := h.path pax type
  let mode := h.mode % 2 ^ 12
  let size := if type = .file then h.size else 0
  if safe : Safe (path.splitOn Tree.slash) then
    if type = .link ∧ (h.link = [] ∨ kvCopy PKG_PATH_MAX h.link = none) then .error .EINVAL
    else if mode &&& 0o6000 ≠ 0 ∧ r.allowSetid = false then .error .EPERM
    else if (if r.first then type = .file ∧ path = manifestName else underPrefix r.within path) then
      .ok ({
        type := type, path := ⟨path.splitOn Tree.slash,safe⟩, mode := mode, size := size, mtime := h.mtime
        link := if type = .link then h.link else [] },{ r with skip := size + padding size, first := false })
    else .error .EPERM
  else .error .EPERM

/-- What a header stands for. -/
inductive Turn where
  | done
  | pax (path : Bytes)
  | member (e : Entry)

/-- One turn of the loop of `pkg_reader_next`. -/
def turn (r : Reader) (pax : Option Bytes) : Except Errno (Turn × Reader) := do
  let (blk,r) ← infRead r TAR_BLOCK
  if blk = List.replicate TAR_BLOCK 0 then
    let (blk,r) ← infRead r TAR_BLOCK
    if blk ≠ List.replicate TAR_BLOCK 0 then .error .EINVAL
    else if r.first then .error .EPERM
    else .ok (.done,r)
  else
    match ustar blk with
    | none => .error .EINVAL
    | some h =>
      if h.typ = 120 then
        if pax.isSome ∨ h.size = 0 ∨ h.size > PAX_MAX then .error .EINVAL
        else
          let (buf,r) ← infRead r h.size
          let (_,r) ← infRead r (padding h.size)
          match paxParse buf with
          | none => .error .EINVAL
          | some path => .ok (.pax path,r)
      else
        let (e,r) ← member r h pax
        .ok (.member e,r)

/-- `pkg_reader_next`; no member at the end of the archive. -/
def readerNext (r : Reader) : Except Errno (Option (Entry × Reader)) := do
  let (_,r) ← infRead r r.skip
  match ← turn { r with skip := 0 } none with
  | (.done,_) => .ok none
  | (.member e,r) => .ok (some (e,r))
  | (.pax path,r) =>
    match ← turn r (some path) with
    | (.member e,r) => .ok (some (e,r))
    | (.done,_) => .ok none
    | (.pax _,_) => .error .EINVAL

def pieces (n : Nat) : Nat → Bytes → List Bytes
  | 0, _ => []
  | fuel + 1, l => if l = [] then [] else l.take n :: pieces n fuel (l.drop n)

/-- The contents of a member, in pieces of 8192 bytes; a piece that is not there ends them. -/
def Entry.member (e : Entry) (r : Reader) : Member where
  type := e.type
  path := e.path
  link := e.link
  size := e.size
  chunks := if e.size ≤ r.rest.length then pieces 8192 e.size (r.rest.take e.size)
    else pieces 8192 e.size (r.rest.take (r.rest.length / 8192 * 8192))
  broken := if e.size ≤ r.rest.length then none else some r.overrun

def readMembers : Nat → Reader → List Member × Option Errno
  | 0, _ => ([],none)
  | fuel + 1, r =>
    match readerNext r with
    | .error e => ([],some e)
    | .ok none => ([],none)
    | .ok (some (e,r)) =>
      let (members,ending) := readMembers fuel r
      (e.member r :: members,ending)

def Entry.manifest (e : Entry) (r : Reader) : Except Errno Bytes :=
  if text e.path.val ≠ manifestName ∨ e.size > PKG_MANIFEST_MAX then .error .EINVAL
  else if e.size ≤ r.rest.length then .ok (r.rest.take e.size)
  else .error r.overrun

lemma infRead_ok (read : infRead r n = .ok (buf,r')) :
    n ≤ r.rest.length ∧ buf = r.rest.take n ∧ r' = { r with rest := r.rest.drop n } := by
  rw [infRead] at read
  split at read
  next => cases read
  next enough =>
    cases read
    exact ⟨Nat.le_of_not_lt enough,rfl,rfl⟩

lemma infRead_length (read : infRead r n = .ok (buf,r')) : r'.rest.length + n = r.rest.length := by
  obtain ⟨enough,-,rfl⟩ := infRead_ok read
  simp [enough]

lemma member_rest (found : member r h pax = .ok (e,r')) :
    r'.rest = r.rest := by
  obtain ⟨type,-,found⟩ := bind_ok found
  dsimp only at found
  split_ifs at found
  all_goals
    cases found
    rfl

lemma turn_length (found : turn r pax = .ok (t,r')) :
    r'.rest.length + TAR_BLOCK ≤ r.rest.length := by
  obtain ⟨⟨blk,r₁⟩,read,found⟩ := bind_ok found
  have block := infRead_length read
  dsimp only at found
  split at found
  next =>
    obtain ⟨⟨blk',r₂⟩,read',found⟩ := bind_ok found
    have block' := infRead_length read'
    dsimp only at found
    split_ifs at found
    cases found
    omega
  next =>
    split at found
    next => cases found
    next h _ =>
      split at found
      next =>
        split at found
        next => cases found
        next =>
          obtain ⟨⟨buf,r₂⟩,read₂,found⟩ := bind_ok found
          obtain ⟨⟨_,r₃⟩,read₃,found⟩ := bind_ok found
          have long := infRead_length read₂
          have pad := infRead_length read₃
          dsimp only at found long pad
          split at found
          next => cases found
          next =>
            cases found
            omega
      next =>
        obtain ⟨⟨e,r₂⟩,policy,found⟩ := bind_ok found
        cases found
        rw [member_rest policy]
        omega

lemma readerNext_length (found : readerNext r = .ok (some (e,r'))) : r'.rest.length + TAR_BLOCK ≤ r.rest.length := by
  obtain ⟨⟨_,r₁⟩,read,found⟩ := bind_ok found
  obtain ⟨⟨t,r₂⟩,first,found⟩ := bind_ok found
  have skipped := infRead_length read
  have one := turn_length first
  dsimp only at one
  cases t with
  | done => cases found
  | member e' =>
    cases found
    omega
  | pax path =>
    obtain ⟨⟨t',r₃⟩,second,found⟩ := bind_ok found
    have two := turn_length second
    cases t' with
    | member e' =>
      cases found
      omega
    | done | pax path' => cases found

lemma readMembers_enough (enough : r.rest.length < n) (enough' : r.rest.length < k) :
    readMembers n r = readMembers k r ∧ TAR_BLOCK * (readMembers n r).1.length ≤ r.rest.length := by
  induction n generalizing k r with
  | zero => exact absurd enough (Nat.not_lt_zero _)
  | succ n ih =>
    obtain ⟨k,rfl⟩ := Nat.exists_eq_succ_of_ne_zero (Nat.ne_zero_of_lt enough')
    simp only [readMembers]
    cases next : readerNext r with
    | error e => exact ⟨rfl,Nat.zero_le _⟩
    | ok found =>
      cases found with
      | none => exact ⟨rfl,Nat.zero_le _⟩
      | some pair =>
        obtain ⟨e,r'⟩ := pair
        have shorter := readerNext_length next
        have block : 0 < TAR_BLOCK := by decide
        obtain ⟨same,bound⟩ := ih (r := r') (k := k) (by omega) (by omega)
        dsimp only
        rw [← same,List.length_cons,Nat.mul_succ]
        exact ⟨rfl,by omega⟩

def Reader.members (r : Reader) : List Member × Option Errno := readMembers (r.rest.length + 1) r

/-- The loop over `pkg_reader_next` comes to its end on every stream, after a member for each block at most. -/
theorem archive_read_through (r : Reader) (more : Nat) :
    readMembers (r.rest.length + 1 + more) r = r.members ∧ TAR_BLOCK * r.members.1.length ≤ r.rest.length :=
  have small := Nat.lt_succ_self r.rest.length
  ⟨(readMembers_enough (Nat.lt_add_right more small) small).1,(readMembers_enough small small).2⟩

/-- The package that `cmd_add` sees. -/
def Archive.read (r : Reader) : Archive :=
  match readerNext r with
  | .error e => ⟨.error e,[],none⟩
  | .ok none => ⟨.error .EINVAL,[],none⟩
  | .ok (some (e,r)) =>
    ⟨e.manifest r,r.members.1,r.members.2⟩

/-- `pkg_reader_open` as `cmd_add` calls it. -/
def Reader.add (stream : Bytes) (overrun : Errno) : Reader :=
  { rest := stream, overrun := overrun, skip := 0, first := true,
    within := some (ascii "usr/local/"), allowSetid := false }

end UbixOS.Pkg
