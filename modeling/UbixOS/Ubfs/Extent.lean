import UbixOS.Vmm.Freshness

/-! The end of a file: what `ubfs_fs_read` copies and how far `ubfs_fs_write` moves it. Offsets and
lengths are 64-bit words, and the clamp of a read adds them without a check. -/
namespace UbixOS.Ubfs

open Library

open FsProg (on on_perform on_orFail on_orFail_ok on_bind_ok)

variable {T : Store}

/-- What `ubfs_fs_write` puts back after the DMU has written. -/
def Fs.written (fs : Fs) (inode : Inode) (reach : UInt64) : Inode :=
  { inode with size := if inode.size < reach then reach else inode.size, mtime := fs.now, ctime := fs.now }

lemma write_on (fs : Fs) (attributes : (T.obj obj).info.bonustype = btInode) (off : UInt64)
    (buf : Buffer) (len : UInt64) : on (fs.write obj off buf len) T =
      (.ok (),(T.write obj off.toNat buf len.toNat).update obj (setBonusInfo btInode 112
        (Fs.Inode.toBonus (fs.written ((T.obj obj).write off.toNat buf len.toNat).inode (off + len))))) := by
  have read : on ((Fs.inodeGet obj).orFail (-1)) (T.write obj off.toNat buf len.toNat) =
      (.ok ((T.write obj off.toNat buf len.toNat).obj obj).inode,T.write obj off.toNat buf len.toNat) := by
    rw [on_orFail,Fs.inodeGet_on,if_pos (by simp [Store.write,(Obj.write_alike ..).bonustype,attributes])]
  rw [Fs.write,on_bind_ok (on_orFail_ok (on_perform ..))]
  dsimp only [Cmd.eval]
  rw [on_bind_ok read,Store.write,Store.set_self]
  exact on_orFail_ok (on_perform ..)

/-- The count as the `int` that `ubfs_fs_read` returns. -/
def returned (n : UInt64) : Int := n.toUInt32.toInt32.toInt

/-- A read copies what the file has of the range, and returns how much that is. -/
structure ReadsExactly (S : Store) (obj : Nat) (off len : UInt64) (buf : Buffer) (n : UInt64) : Prop where
  done : FsProg.on (Fs.read obj off len) S = (.ok (buf,n),S)
  count : n.toNat = min len.toNat ((S.obj obj).inode.size.toNat - off.toNat)
  bytes : ∀ j < n.toNat, buf j = (S.obj obj).seen (off.toNat + j)
  result : n.toNat < 2^31 → returned n = n.toNat

lemma returned_small (small : n.toNat < 2^31) : returned n = n.toNat := by
  have word : n.toUInt32.toNat = n.toNat := by
    rw [UInt64.toNat_toUInt32]
    omega
  rw [returned,Int32.toInt,UInt32.toBitVec_toInt32,BitVec.toInt_eq_toNat_cond,UInt32.toNat_toBitVec,word]
  exact if_pos (by omega)

/-- The sum of the clamp wraps to less than the offset, so that nothing is cut off. -/
lemma readLen_wraps (inside : off < size) (wraps : 2^64 ≤ off.toNat + len.toNat) : Fs.readLen size off len = len := by
  rw [UInt64.lt_iff_toNat_lt] at inside
  have sum : (off + len).toNat = off.toNat + len.toNat - 2^64 := by
    have := off.toNat_lt
    have := len.toNat_lt
    rw [UInt64.toNat_add]
    omega
  have bound := len.toNat_lt
  have above : ¬size ≤ off := by
    rw [UInt64.le_iff_toNat_le]
    omega
  have below : ¬size < off + len := by
    rw [UInt64.lt_iff_toNat_lt,sum]
    omega
  rw [Fs.readLen,if_neg above,if_neg below]

lemma readLen_exact (size off len : UInt64) : (Fs.readLen size off len).toNat = min len.toNat (size.toNat - off.toNat) ↔
    (off < size → off.toNat + len.toNat < 2^64) := by
  by_cases fits : off.toNat + len.toNat < 2^64
  · rw [Vmm.Freshness.readLen_toNat size fits]
    exact ⟨fun _ _ => fits,fun _ => rfl⟩
  by_cases inside : off < size
  · rw [readLen_wraps inside (by omega)]
    have top := size.toNat_lt
    have below := UInt64.lt_iff_toNat_lt.mp inside
    exact ⟨fun equal => absurd equal (by omega),fun none => absurd (none inside) fits⟩
  · have past : size ≤ off := UInt64.not_lt.mp inside
    have none : size.toNat - off.toNat = 0 := Nat.sub_eq_zero_of_le (UInt64.le_iff_toNat_le.mp past)
    simp [Fs.readLen,past,none,inside]

lemma bonusInode_toBonus (inode : Inode) : bonusInode (Fs.Inode.toBonus inode) = inode := by
  rw [bonusInode,Fs.Inode.toBonus,Buffer.toBytes_toBuffer]
  refine (Inode.layout.get_congr _ (Inode.layout.put inode) fun i (low : i < 112) => ?_).trans (Inode.layout.get_put _)
  rw [Buffer.take_apply,if_pos (by omega),Buffer.take_apply,if_pos low]

lemma Obj.write_size (o : Obj) (off : Nat) (buf : Buffer) (len : Nat) :
    (o.write off buf len).inode.size = o.inode.size ∨
      (o.write off buf len).inode.size = UInt64.ofNat (off + len) ∧ o.inode.size < UInt64.ofNat (off + len) := by
  obtain ⟨nlevels,maxblkid,info⟩ := writeRecords_info o.info.recordSize len off buf len o
  obtain ⟨size,inode,grown⟩ := growSize_inode { o.info with nlevels, maxblkid } (UInt64.ofNat (off + len))
  have same : (o.write off buf len).inode.size = size := by
    change (bonusInode ((o.writeRecords o.info.recordSize len off buf len).info.growSize _).bonus).size = size
    rw [info,inode]
  rw [same]
  exact grown

lemma Fs.written_size (fs : Fs) (inode : Inode) (reach : UInt64) :
    (fs.written inode reach).size.toNat = max inode.size.toNat reach.toNat := by
  simp only [Fs.written,UInt64.lt_iff_toNat_lt]
  split <;> omega

/-- A write stores the larger of the old size and its own end. -/
lemma write_extends (fs : Fs) (S : Store) (attributes : (S.obj obj).info.bonustype = btInode)
    (buf : Buffer) (fits : off.toNat + len.toNat < 2^64) :
    ∃ T, FsProg.on (fs.write obj off buf len) S = (.ok (),T) ∧
      (T.obj obj).inode.size.toNat = max (S.obj obj).inode.size.toNat (off.toNat + len.toNat) := by
  refine ⟨_,write_on fs attributes ..,?_⟩
  have reach : (off + len).toNat = off.toNat + len.toNat := by rw [UInt64.toNat_add,Nat.mod_eq_of_lt fits]
  have same : UInt64.ofNat (off.toNat + len.toNat) = off + len := by rw [← reach,UInt64.ofNat_toNat]
  have grown := (S.obj obj).write_size off.toNat buf len.toNat
  rw [same,UInt64.lt_iff_toNat_lt,reach] at grown
  rw [Store.update,Store.set_self,Obj.inode,setBonusInfo,bonusInode_toBonus,Fs.written_size,reach]
  rcases grown with size | ⟨size,above⟩ <;> rw [size]
  omega

lemma readsExactly_iff (S : Store) (attributes : (S.obj obj).info.bonustype = btInode) (off len : UInt64) :
    (∃ buf n, ReadsExactly S obj off len buf n) ↔ (off < (S.obj obj).inode.size → off.toNat + len.toNat < 2^64) := by
  rw [← readLen_exact]
  have done := Fs.read_on S obj off len
  rw [if_pos attributes] at done
  constructor
  · rintro ⟨buf,n,exact⟩
    have same := Except.ok.inj (Prod.mk.inj (done.symm.trans exact.done)).1
    rw [(Prod.mk.inj same).2]
    exact exact.count
  · intro count
    refine ⟨_,_,done,count,fun j low => ?_,returned_small⟩
    rw [Obj.read_seen _ (by have := (S.obj obj).inode.size.toNat_lt; omega),if_pos low]

/-- A read of a file stays before its end exactly when the range does not wrap, and a write that
does not wrap moves the end as far as it reaches. -/
theorem extent_kept (S : Store) (obj : Nat) (attributes : (S.obj obj).info.bonustype = btInode) (off len : UInt64) :
    ((∃ buf n, ReadsExactly S obj off len buf n) ↔ (off < (S.obj obj).inode.size → off.toNat + len.toNat < 2^64)) ∧
    (off.toNat + len.toNat < 2^64 → ∀ (fs : Fs) (buf : Buffer), ∃ T, FsProg.on (fs.write obj off buf len) S =
    (.ok (),T) ∧
      (T.obj obj).inode.size.toNat = max (S.obj obj).inode.size.toNat (off.toNat + len.toNat)) :=
  ⟨readsExactly_iff S attributes off len,fun fits fs buf => write_extends fs S attributes buf fits⟩

/-- A file of five bytes as object 2. -/
def five : Store := (FsProg.on ((Fs.init 0).write 2 0 (fun _ => 97) 5) (FsProg.on (do
  (Fs.init 0).mkroot 0 0
  (Fs.init 0).create [slash,97] 0o644 0 0) Store.empty).2).2

lemma five_file : (five.obj 2).info.bonustype = btInode ∧ (five.obj 2).inode.size = 5 := by decide +kernel

theorem extent_kept_five : ∃ buf n, ReadsExactly five 2 1 4096 buf n :=
  (extent_kept five 2 five_file.1 1 4096).1.mpr fun _ => by decide

/-- A length of -1 passes the clamp: all of it is copied from a file of five bytes. -/
theorem read_past_end : (∃ buf, FsProg.on (Fs.read 2 1 0xffffffffffffffff) five = (.ok (buf,0xffffffffffffffff),five)) ∧
    ¬∃ buf n, ReadsExactly five 2 1 0xffffffffffffffff buf n := by
  have wraps : ¬((1 : UInt64) < (five.obj 2).inode.size → (1 : UInt64).toNat + (0xffffffffffffffff : UInt64).toNat <
    2^64) := by
    rw [five_file.2]
    decide
  refine ⟨⟨(five.obj 2).read 1 0xffffffffffffffff,?_⟩,(readsExactly_iff five five_file.1 ..).not.mpr wraps⟩
  rw [Fs.read_on,if_pos five_file.1,five_file.2]
  rfl

end UbixOS.Ubfs
