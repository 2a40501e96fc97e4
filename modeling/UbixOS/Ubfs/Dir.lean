import UbixOS.Library.Prog
import UbixOS.Ubfs.Sparse

/-! Directories (`ubfs_dir.c`): a count and that many fixed-size entries in the data
of an object. The helpers are programs over DMU calls; on a store they read and
change the list of entries. -/
namespace UbixOS.Ubfs

open Dirent (layout)

open Library

abbrev FsProg := Prog Cmd Int

/-- `HDR`: the count before the entries. -/
abbrev dirHdr : Nat := 8

/-- The bytes of an entry's name up to its NUL. A name that fills the field is all of it. -/
def Dirent.text (e : Dirent) : List UInt8 := ((List.range 240).map e.name.toBuffer).takeWhile (· ≠ 0)

/-- `e.obj != 0 && strcmp(e.name, name) == 0` -/
def Dirent.names (e : Dirent) (name : List UInt8) : Bool := e.obj ≠ 0 ∧ e.text = name

def readCount (dirobj : Nat) : FsProg Nat := do
  let buf ← (Prog.perform (.read dirobj 0 8)).orFail (-1)
  return (Layout.u64.get buf).toNat

def readDirent (dirobj i : Nat) : FsProg Dirent := do
  let buf ← (Prog.perform (.read dirobj (dirHdr + i * direntSize) direntSize)).orFail (-1)
  return Dirent.layout.get buf

/-- The first slot from `i` on, of the `n` left, that `found` accepts. -/
def scanFrom (dirobj : Nat) (found : Dirent → Bool) : Nat → Nat → FsProg (Option (Nat × Dirent))
  | _, 0 => pure none
  | i, n+1 => do
    let e ← readDirent dirobj i
    if found e then return some (i,e) else scanFrom dirobj found (i + 1) n

def dirLookup (dirobj : Nat) (name : List UInt8) : FsProg (Nat × UInt8) := do
  let count ← readCount dirobj
  match ← scanFrom dirobj (·.names name) 0 count with
  | some (_,e) => return (e.obj.toNat,e.type)
  | none => Prog.fail (-1)

def direntOf (name : List UInt8) (obj : Nat) (type : UInt8) : Dirent :=
  ⟨UInt64.ofNat obj,type,UInt8.ofNat name.length,fun i => name.getD i.val 0⟩

def writeDirent (dirobj slot : Nat) (e : Dirent) : FsProg Unit :=
  Prog.perform (.write dirobj (dirHdr + slot * direntSize) (Dirent.layout.put e) direntSize)

/-- Reuses the first free slot, else appends. -/
def dirAdd (dirobj : Nat) (name : List UInt8) (obj : Nat) (type : UInt8) : FsProg Unit :=
  if 240 ≤ name.length then Prog.fail (-1)
  else do
    let count ← readCount dirobj
    let free ← scanFrom dirobj (·.obj = 0) 0 count
    let slot := (free.map (·.1)).getD count
    (writeDirent dirobj slot (direntOf name obj type)).orFail (-1)
    if slot = count then Prog.perform (.write dirobj 0 (Layout.u64.put (UInt64.ofNat (count + 1))) 8) else return ()

def dirRemove (dirobj : Nat) (name : List UInt8) : FsProg Unit := do
  let count ← readCount dirobj
  match ← scanFrom dirobj (·.names name) 0 count with
  | some (i,_) => writeDirent dirobj i Dirent.zero
  | none => Prog.fail (-1)

/-- Calls `cb` on each live entry until it returns something other than 0. -/
def foreachFrom (dirobj : Nat) (cb : β → List UInt8 → Nat → UInt8 → Int × β) : Nat → Nat → β → FsProg (Int × β)
  | _, 0, acc => pure (0,acc)
  | i, n+1, acc => do
    let e ← readDirent dirobj i
    if e.obj = 0 then foreachFrom dirobj cb (i + 1) n acc
    else
      let r := cb acc e.text e.obj.toNat e.type
      if r.1 ≠ 0 then return r else foreachFrom dirobj cb (i + 1) n r.2

def dirForeach (dirobj : Nat) (cb : β → List UInt8 → Nat → UInt8 → Int × β) (acc : β) : FsProg (Int × β) := do
  let count ← readCount dirobj
  foreachFrom dirobj cb 0 count acc

def countFrom (dirobj : Nat) : Nat → Nat → Nat → FsProg Nat
  | _, 0, live => pure live
  | i, n+1, live => do
    let e ← readDirent dirobj i
    countFrom dirobj (i + 1) n (if e.obj = 0 then live else live + 1)

def dirCount (dirobj : Nat) : FsProg Nat := do
  let count ← readCount dirobj
  countFrom dirobj 0 count 0

/-- A program on a machine whose calls all succeed. -/
def FsProg.on (x : FsProg α) (S : Store) : Except Int α × Store := (x.interp (Prog.total Cmd.eval)).run S

lemma FsProg.on_bind (x : FsProg α) (f : α → FsProg β) (S : Store) : FsProg.on (x >>= f) S = match FsProg.on x S with
    | (.ok a,T) => FsProg.on (f a) T
    | (.error e,T) => (.error e,T) := by
  rcases result : FsProg.on x S with ⟨e | a,T⟩
  · rw [FsProg.on,Prog.interp_bind]
    exact Fallible.run_bind_of_error result
  · rw [FsProg.on,Prog.interp_bind]
    exact Fallible.run_bind_of_ok result

@[simp] lemma FsProg.on_pure (a : α) (S : Store) : FsProg.on (pure a) S = (.ok a,S) := rfl
@[simp] lemma FsProg.on_fail (e : Int) (S : Store) : FsProg.on (Prog.fail e : FsProg α) S = (.error e,S) := rfl
@[simp] lemma FsProg.on_perform (c : Cmd α) (S : Store) :
    FsProg.on (Prog.perform c) S = (.ok (c.eval S).1,(c.eval S).2) := by
  rw [FsProg.on,Prog.interp_perform]
  rfl

lemma FsProg.on_orFail (x : FsProg α) (e : Int) (S : Store) : FsProg.on (x.orFail e) S = match FsProg.on x S with
    | (.ok a,T) => (.ok a,T)
    | (.error _,T) => (.error e,T) := by
  rcases result : FsProg.on x S with ⟨e' | a,T⟩
  · rw [FsProg.on,Prog.interp_orFail]
    exact Fallible.run_orFail_error.mpr ⟨rfl,e',result⟩
  · rw [FsProg.on,Prog.interp_orFail]
    exact Fallible.run_orFail_ok.mpr result

lemma FsProg.on_bind_ok (first : FsProg.on x S = (.ok a,T)) : FsProg.on (x >>= f) S = FsProg.on (f a) T := by
  rw [FsProg.on_bind,first]

lemma FsProg.on_orFail_ok (done : FsProg.on x S = (.ok a,T)) : FsProg.on (x.orFail e) S = (.ok a,T) := by
  rw [FsProg.on_orFail,done]

open FsProg (on on_bind_ok on_orFail_ok on_perform on_pure)

namespace Obj

def count (o : Obj) : Nat := (Layout.u64.get o.own).toNat

def entry (o : Obj) (i : Nat) : Dirent := Dirent.layout.get (Buffer.drop o.own (dirHdr + i * direntSize))

def find (o : Obj) (found : Dirent → Bool) : Option Nat := (List.range o.count).find? fun i => found (o.entry i)

end Obj

/-- An object that can be read as a directory: its slots lie within the reach of its tree. -/
structure DirOk (o : Obj) : Prop where
  wf : o.Wf
  size : o.info.recordSize = blockSize
  covered : (dirHdr + o.count * direntSize - 1) / blockSize < o.reach
  few : o.count < 2^55

namespace DirOk

variable (ok : DirOk o)
include ok

lemma near (low : b * blockSize < dirHdr + o.count * direntSize) : b < o.reach := by
  refine Nat.lt_of_le_of_lt ?_ ok.covered
  rw [Nat.le_div_iff_mul_le (by decide)]
  omega

lemma cleanRead (inside : off + len ≤ dirHdr + o.count * direntSize) : o.CleanRead off len := by
  intro b _ high
  rw [ok.size] at high
  exact Obj.direct_of_lt (ok.near (Nat.lt_of_lt_of_le high inside))

lemma read (inside : off + len ≤ dirHdr + o.count * direntSize) (low : j < len) :
    o.read off len j = o.own (off + j) := by
  have few := ok.few
  rw [Obj.read_byte (by simp only [dirHdr,direntSize] at inside; omega) (ok.cleanRead inside),if_pos low]

end DirOk

section Read

variable {S : Store} (ok : DirOk (S.obj d))
include ok

lemma readCount_on : on (readCount d) S = (.ok (S.obj d).count,S) := by
  have same : Layout.u64.get ((S.obj d).read 0 8) = Layout.u64.get (S.obj d).own :=
    Layout.u64.get_congr _ _ fun j (low : j < 8) => by rw [ok.read (by simp only [dirHdr]; omega) low,Nat.zero_add]
  rw [readCount,on_bind_ok (on_orFail_ok (on_perform _ _)),on_pure]
  simp only [Cmd.eval,same,Obj.count]

lemma readDirent_on (inside : i < (S.obj d).count) : on (readDirent d i) S = (.ok ((S.obj d).entry i),S) := by
  have same : layout.get ((S.obj d).read (dirHdr + i * direntSize) direntSize) = (S.obj d).entry i :=
    layout.get_congr _ _ fun j low => ok.read (by simp only [dirHdr,direntSize]; omega) low
  rw [readDirent,on_bind_ok (on_orFail_ok (on_perform _ _)),on_pure]
  simp only [Cmd.eval,same]

lemma scanFrom_on (found : Dirent → Bool) (i n : Nat) (inside : i + n = (S.obj d).count) :
    on (scanFrom d found i n) S =
      (.ok (((List.range' i n).find? fun k => found ((S.obj d).entry k)).map fun k => (k,(S.obj d).entry k)),S) := by
  induction n generalizing i with
  | zero => rfl
  | succ n ih =>
    rw [scanFrom,on_bind_ok (readDirent_on ok (by omega)),List.range'_succ,List.find?_cons]
    cases hit : found ((S.obj d).entry i) with
    | true => simp
    | false =>
      exact ih (i + 1) (by omega)

lemma scan_on (found : Dirent → Bool) : on (scanFrom d found 0 (S.obj d).count) S =
    (.ok (((S.obj d).find found).map fun k => (k,(S.obj d).entry k)),S) := by
  rw [scanFrom_on ok found 0 _ (Nat.zero_add _),Obj.find,List.range_eq_range']

lemma dirLookup_on (name : List UInt8) : on (dirLookup d name) S = (match (S.obj d).find (·.names name) with
      | some k => .ok (((S.obj d).entry k).obj.toNat,((S.obj d).entry k).type)
      | none => .error (-1),S) := by
  rw [dirLookup,on_bind_ok (readCount_on ok),on_bind_ok (scan_on ok _)]
  cases (S.obj d).find (·.names name) <;> rfl

end Read

lemma Obj.Wf.write_below {o : Obj} (wf : o.Wf) (fits : off + len ≤ 2^64) (some : 0 < len)
    (left : off % o.info.recordSize ≠ 0 → o.Direct (off / o.info.recordSize)) (buf : Buffer)
    (below : i < off + len) : (o.write off buf len).own i = if off ≤ i then buf (i - off) else o.own i := by
  rw [o.write_own,(wf.writeRecords len off buf len Nat.le.refl fits some left).2.2.2 i (by omega)]
  simp only [below,and_true]

lemma Obj.Wf.write_grows {o : Obj} (wf : o.Wf) {off len : Nat} (fits : off + len ≤ 2^64) (some : 0 < len)
    (left : off % o.info.recordSize ≠ 0 → o.Direct (off / o.info.recordSize)) (buf : Buffer) :
    o.reach ≤ (o.write off buf len).reach ∧ (off + len - 1) / o.info.recordSize < (o.write off buf len).reach := by
  rw [o.write_reach]
  obtain ⟨-,grows,reached,-⟩ := wf.writeRecords len off buf len Nat.le.refl fits some left
  exact ⟨grows,reached⟩

def Obj.writeEntry (o : Obj) (slot : Nat) (e : Dirent) : Obj :=
  o.write (dirHdr + slot * direntSize) (Dirent.layout.put e) direntSize

def Obj.writeCount (o : Obj) (n : Nat) : Obj := o.write 0 (Layout.u64.put (UInt64.ofNat n)) 8

section Change

variable (ok : DirOk o) (inside : slot ≤ o.count)
include ok inside

lemma DirOk.slot_left : (dirHdr + slot * direntSize) % o.info.recordSize ≠ 0 →
    o.Direct ((dirHdr + slot * direntSize) / o.info.recordSize) := by
  intro _
  rw [ok.size]
  refine Obj.direct_of_lt (ok.near ?_)
  simp only [dirHdr,direntSize,blockSize]
  omega

lemma DirOk.slot_fits : dirHdr + slot * direntSize + direntSize ≤ 2^64 := by
  have few := ok.few
  simp only [dirHdr,direntSize]
  omega

lemma DirOk.writeEntry_below (e : Dirent) {i : Nat} (below : i < dirHdr + slot * direntSize + direntSize) :
    (o.writeEntry slot e).own i = if dirHdr + slot * direntSize ≤ i
      then layout.put e (i - (dirHdr + slot * direntSize)) else o.own i :=
  ok.wf.write_below (ok.slot_fits inside) (by decide) (ok.slot_left inside) _ below

lemma DirOk.writeEntry_count (e : Dirent) : (o.writeEntry slot e).count = o.count := by
  have same : Layout.u64.get (o.writeEntry slot e).own = Layout.u64.get o.own :=
    Layout.u64.get_congr _ _ fun j (low : j < 8) => by
      rw [ok.writeEntry_below inside e (by simp only [dirHdr]; omega),if_neg (by simp only [dirHdr]; omega)]
  rw [Obj.count,Obj.count,same]

lemma DirOk.writeEntry_before (e : Dirent) (before : k ≤ slot) :
    (o.writeEntry slot e).entry k = if k = slot then e else o.entry k := by
  by_cases here : k = slot
  · subst here
    rw [if_pos rfl,Obj.entry,layout.get_congr _ (layout.put e),layout.get_put]
    intro j (low : j < 256)
    rw [Buffer.drop_apply,ok.writeEntry_below inside e (by simp only [direntSize]; omega),if_pos (by omega)]
    congr 1
    omega
  · rw [if_neg here]
    refine layout.get_congr _ _ fun j (low : j < 256) => ?_
    rw [Buffer.drop_apply,Buffer.drop_apply,ok.writeEntry_below inside e (by simp only [direntSize]; omega),
      if_neg (by simp only [direntSize]; omega)]

lemma DirOk.writeEntry_grows (e : Dirent) : o.reach ≤ (o.writeEntry slot e).reach ∧
    (dirHdr + (slot + 1) * direntSize - 1) / blockSize < (o.writeEntry slot e).reach := by
  obtain ⟨grows,reached⟩ := ok.wf.write_grows (ok.slot_fits inside) (by decide) (ok.slot_left inside)
    (layout.put e)
  refine ⟨grows,?_⟩
  have stop : dirHdr + (slot + 1) * direntSize - 1 = dirHdr + slot * direntSize + direntSize - 1 := by
    simp only [dirHdr,direntSize]
    omega
  rw [stop]
  rwa [ok.size] at reached

lemma DirOk.writeEntry (e : Dirent) : DirOk (o.writeEntry slot e) :=
  ⟨ok.wf.write _ _ _,(o.write_recordSize _ _ _).trans ok.size,
    by rw [ok.writeEntry_count inside]; exact Nat.lt_of_lt_of_le ok.covered (ok.writeEntry_grows inside e).1,
    by rw [ok.writeEntry_count inside]; exact ok.few⟩

end Change

lemma DirOk.writeEntry_entry (ok : DirOk o) (inside : slot < o.count) (e : Dirent) (k : Nat)
    (low : k < o.count) : (o.writeEntry slot e).entry k = if k = slot then e else o.entry k := by
  by_cases before : k ≤ slot
  · exact ok.writeEntry_before (Nat.le_of_lt inside) e before
  rw [if_neg (by omega)]
  refine layout.get_congr _ _ fun j (small : j < 256) => ?_
  rw [Buffer.drop_apply,Buffer.drop_apply]
  have fits := ok.slot_fits (Nat.le_of_lt inside)
  rw [Obj.writeEntry,ok.wf.write_bytes fits,if_neg (by simp only [direntSize]; omega)]
  -- every record up to the last slot is within reach
  have near {b : Nat} (b_low : b * blockSize < dirHdr + (slot + 1) * direntSize) : b < o.reach := by
    refine ok.near (Nat.lt_of_lt_of_le b_low ?_)
    simp only [dirHdr,direntSize]
    omega
  intro _
  refine ⟨ok.slot_left (Nat.le_of_lt inside),fun _ => ⟨fun _ => ?_,fun _ => .inl ?_⟩⟩
  · rw [ok.size]
    refine Obj.direct_of_lt (near ?_)
    simp only [dirHdr,direntSize,blockSize]
    omega
  · rw [ok.size]
    refine near ?_
    simp only [dirHdr,direntSize,blockSize]
    omega

section Count

variable (ok : DirOk o) (few : n < 2^55)
include ok few

lemma DirOk.writeCount_own (i : Nat) :
    (o.writeCount n).own i = if i < 8 then Layout.u64.put (UInt64.ofNat n) i else o.own i := by
  have zero : o.Direct 0 := Obj.direct_of_lt o.reach_pos
  have clean : o.CleanWrite 0 8 := by
    intro _
    refine ⟨fun aligned => absurd (Nat.zero_mod _) aligned,fun _ => ⟨fun _ => ?_,fun other => ?_⟩⟩
    · rwa [Nat.zero_div]
    · rw [ok.size] at other
      exact absurd rfl other
  rw [Obj.writeCount,ok.wf.write_bytes (by decide) clean]
  by_cases low : i < 8 <;> simp [low]

lemma DirOk.writeCount_count : (o.writeCount n).count = n := by
  have same : Layout.u64.get (o.writeCount n).own = UInt64.ofNat n := by
    rw [Layout.u64.get_congr _ (Layout.u64.put (UInt64.ofNat n)),Layout.u64.get_put]
    intro j (low : j < 8)
    rw [ok.writeCount_own few,if_pos low]
  rw [Obj.count,same,UInt64.toNat_ofNat_of_lt' (Nat.lt_trans few (by decide))]

lemma DirOk.writeCount_entry (k : Nat) : (o.writeCount n).entry k = o.entry k :=
  layout.get_congr _ _ fun j _ => by
    rw [Buffer.drop_apply,Buffer.drop_apply,ok.writeCount_own few,if_neg (by simp only [dirHdr]; omega)]

lemma DirOk.writeCount (covered : (dirHdr + n * direntSize - 1) / blockSize < o.reach) : DirOk (o.writeCount n) := by
  have grows := (ok.wf.write_grows (show 0 + 8 ≤ 2^64 by decide) (by decide)
    (fun aligned => absurd (Nat.zero_mod _) aligned) (Layout.u64.put (UInt64.ofNat n))).1
  refine ⟨ok.wf.write _ _ _,(o.write_recordSize _ _ _).trans ok.size,?_,?_⟩
  · rw [ok.writeCount_count few]
    exact Nat.lt_of_lt_of_le covered grows
  · rw [ok.writeCount_count few]
    exact few

end Count

def Obj.inode (o : Obj) : Inode := bonusInode o.info.bonus

/-- The same object with other data: its attributes stay, apart from the size of a POSIX object. -/
structure Obj.Alike (o o' : Obj) : Prop where
  info : ∃ nlevels maxblkid bonus, o'.info = { o.info with nlevels, maxblkid, bonus }
  bonus : o.info.bonustype ≠ btInode → o'.info.bonus = o.info.bonus
  inode : ∃ size, o'.inode = { o.inode with size }

namespace Obj.Alike

variable {o o' o'' : Obj}

lemma bonustype (same : o.Alike o') : o'.info.bonustype = o.info.bonustype := by
  obtain ⟨_,_,_,info⟩ := same.info
  rw [info]

lemma trans (first : o.Alike o') (second : o'.Alike o'') : o.Alike o'' := by
  obtain ⟨a,b,c,info⟩ := first.info
  obtain ⟨a',b',c',info'⟩ := second.info
  obtain ⟨size,inode⟩ := first.inode
  obtain ⟨size',inode'⟩ := second.inode
  refine ⟨⟨a',b',c',by rw [info',info]⟩,fun other => ?_,size',by rw [inode',inode]⟩
  rw [second.bonus (by rwa [first.bonustype]),first.bonus other]

end Obj.Alike

lemma growSize_inode (info : DnodeInfo) (size : UInt64) :
    ∃ size', bonusInode (info.growSize size).bonus = { bonusInode info.bonus with size := size' } ∧
      (size' = (bonusInode info.bonus).size ∨ size' = size ∧ (bonusInode info.bonus).size < size) := by
  rw [DnodeInfo.growSize]
  split
  next grows =>
    refine ⟨size,?_,.inr ⟨rfl,grows.2.2⟩⟩
    rw [bonusInode,Buffer.toBytes_toBuffer,Inode.layout.get_congr _
      (Inode.layout.put { bonusInode info.bonus with size }),
      Inode.layout.get_put]
    intro i (low : i < 112)
    rw [Buffer.take_apply,if_pos (by omega),Buffer.copy_apply,if_pos (by omega)]
    rfl
  next => exact ⟨_,rfl,.inl rfl⟩

lemma Obj.write_alike (o : Obj) (off : Nat) (buf : Buffer) (len : Nat) : o.Alike (o.write off buf len) := by
  obtain ⟨nlevels,maxblkid,info⟩ := writeRecords_info o.info.recordSize len off buf len o
  have shape : (o.write off buf len).info = ({ o.info with nlevels, maxblkid } : DnodeInfo).growSize
      (UInt64.ofNat (off + len)) := congrArg (fun i => DnodeInfo.growSize i (UInt64.ofNat (off + len))) info
  obtain ⟨bonus,grown⟩ := growSize_bonus { o.info with nlevels, maxblkid } (UInt64.ofNat (off + len))
  refine ⟨⟨nlevels,maxblkid,bonus,shape.trans grown⟩,fun other => ?_,?_⟩
  · rw [shape,DnodeInfo.growSize,if_neg fun posix => other posix.1]
  · obtain ⟨size,inode,-⟩ := growSize_inode { o.info with nlevels, maxblkid } (UInt64.ofNat (off + len))
    exact ⟨size,by rw [Obj.inode,shape,inode]; rfl⟩

def Obj.freeSlot (o : Obj) : Nat := (o.find (·.obj = 0)).getD o.count

/-- `o'` is `o` with entry `e` in the slot; a slot at the end makes the directory longer. -/
structure Obj.Put (o : Obj) (slot : Nat) (e : Dirent) (o' : Obj) : Prop where
  ok : DirOk o'
  alike : o.Alike o'
  count : o'.count = max o.count (slot + 1)
  entry : ∀ k < o'.count, o'.entry k = if k = slot then e else o.entry k

lemma Obj.find_lt {o : Obj} {found : Dirent → Bool} {k : Nat} (hit : o.find found = some k) :
    k < o.count ∧ found (o.entry k) := by
  rw [Obj.find] at hit
  exact ⟨List.mem_range.mp (List.mem_of_find?_eq_some hit),List.find?_some (p := fun i => found (o.entry i)) hit⟩

lemma Obj.freeSlot_le (o : Obj) : o.freeSlot ≤ o.count := by
  rw [Obj.freeSlot]
  cases free : o.find (·.obj = 0) with
  | none => exact Nat.le_refl _
  | some k => exact Nat.le_of_lt (Obj.find_lt free).1

lemma Store.set_set (S : Store) (d : Nat) (o o' : Obj) : (S.set d o).set d o' = S.set d o' := by
  simp only [Store.set,Store.mk.injEq,and_self,and_true]
  funext m
  split <;> rfl

@[simp] lemma Store.set_self (S : Store) (d : Nat) (o : Obj) : (S.set d o).obj d = o := by simp [Store.set]

lemma dirAdd_on (ok : DirOk (S.obj d)) (short : name.length < 240)
    (few : (S.obj d).count + 1 < 2^55) (obj : Nat) (type : UInt8) :
    ∃ o', on (dirAdd d name obj type) S = (.ok (),S.set d o') ∧
      (S.obj d).Put (S.obj d).freeSlot (direntOf name obj type) o' := by
  have le := (S.obj d).freeSlot_le
  have slot : (((S.obj d).find (·.obj = 0)).map fun k => (k,(S.obj d).entry k)).map (·.1) =
      (S.obj d).find (·.obj = 0) := by cases (S.obj d).find (·.obj = 0) <;> rfl
  rw [dirAdd,if_neg (by omega),on_bind_ok (readCount_on ok),on_bind_ok (scan_on ok _)]
  simp only [slot]
  have place : ((S.obj d).find (·.obj = 0)).getD (S.obj d).count = (S.obj d).freeSlot := rfl
  rw [place,writeDirent,on_bind_ok (on_orFail_ok (on_perform _ _))]
  generalize direntOf name obj type = e
  generalize (S.obj d).freeSlot = slot at *
  have write : ((Cmd.write d (dirHdr + slot * direntSize) (layout.put e) direntSize).eval S).2 =
      S.set d ((S.obj d).writeEntry slot e) := rfl
  have ok1 := ok.writeEntry le e
  have count1 := ok.writeEntry_count le e
  rw [write]
  by_cases append : slot = (S.obj d).count
  · rw [if_pos append,on_perform]
    have write' : ((Cmd.write d 0 (Layout.u64.put (UInt64.ofNat ((S.obj d).count + 1))) 8).eval
        (S.set d ((S.obj d).writeEntry slot e))).2 =
        (S.set d ((S.obj d).writeEntry slot e)).set d
          (((S.obj d).writeEntry slot e).writeCount ((S.obj d).count + 1)) := by
      simp only [Cmd.eval,Store.write,Store.set_self]
      rfl
    rw [write',Store.set_set]
    have count2 := ok1.writeCount_count few
    refine ⟨_,rfl,ok1.writeCount few ?_,(Obj.write_alike _ _ _ _).trans (Obj.write_alike _ _ _ _),?_,fun k low => ?_⟩
    · rw [← append]
      exact (ok.writeEntry_grows le e).2
    · rw [count2]
      omega
    · rw [count2] at low
      rw [ok1.writeCount_entry few,ok.writeEntry_before le e (by omega)]
  · rw [if_neg append,on_pure]
    refine ⟨_,rfl,ok1,Obj.write_alike _ _ _ _,by rw [count1]; omega,fun k low => ?_⟩
    rw [count1] at low
    exact ok.writeEntry_entry (by omega) e k low

def feed (cb : β → List UInt8 → Nat → UInt8 → Int × β) : List Dirent → β → Int × β
  | [], acc => (0,acc)
  | e :: rest, acc =>
    let r := cb acc e.text e.obj.toNat e.type
    if r.1 ≠ 0 then r else feed cb rest r.2

def Obj.live (o : Obj) : List Dirent := ((List.range o.count).map o.entry).filter (·.obj ≠ 0)

lemma foreachFrom_on (ok : DirOk (S.obj d)) (cb : β → List UInt8 → Nat → UInt8 → Int × β)
    (i n : Nat) (acc : β) (inside : i + n = (S.obj d).count) : on (foreachFrom d cb i n acc) S =
      (.ok (feed cb (((List.range' i n).map (S.obj d).entry).filter (·.obj ≠ 0)) acc),S) := by
  induction n generalizing i acc with
  | zero => rfl
  | succ n ih =>
    rw [foreachFrom,on_bind_ok (readDirent_on ok (by omega)),List.range'_succ,List.map_cons]
    by_cases free : ((S.obj d).entry i).obj = 0
    · rw [if_pos free,ih (i + 1) acc (by omega),List.filter_cons_of_neg (by simp [free])]
    rw [if_neg free,List.filter_cons_of_pos (by simp [free]),feed]
    dsimp only
    split
    · rfl
    · exact ih (i + 1) _ (by omega)

lemma dirForeach_on (ok : DirOk (S.obj d)) (cb : β → List UInt8 → Nat → UInt8 → Int × β)
    (acc : β) : on (dirForeach d cb acc) S = (.ok (feed cb (S.obj d).live acc),S) := by
  rw [dirForeach,on_bind_ok (readCount_on ok),foreachFrom_on ok cb 0 _ acc (Nat.zero_add _),Obj.live,
    List.range_eq_range']

end UbixOS.Ubfs
