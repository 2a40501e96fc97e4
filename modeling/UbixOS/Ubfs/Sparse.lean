import UbixOS.Library.Run
import UbixOS.Ubfs.Store

/-! Objects as sparse byte arrays. Each record has its own bytes; the radix walk
finds them as long as the record lies within the reach of the tree, and reads
another record's bytes otherwise. -/
namespace UbixOS.Ubfs

open Library Obj

lemma needHeight_reach (blkid fuel cap : Nat) (enough : blkid < cap * fanout^fuel) :
    blkid < cap * fanout^(needHeight blkid fuel cap) ∧ needHeight blkid fuel cap ≤ fuel := by
  induction fuel generalizing cap with
  | zero => exact ⟨enough,Nat.le_refl 0⟩
  | succ fuel ih =>
    rw [needHeight]
    split
    · obtain ⟨reach,few⟩ := ih (cap * fanout) (by rw [Nat.mul_assoc,← Nat.pow_succ']; exact enough)
      exact ⟨by rw [Nat.pow_succ',← Nat.mul_assoc]; exact reach,by omega⟩
    · exact ⟨by simp; omega,by omega⟩

lemma grownLevels_toNat (few : nlevels.toNat ≤ 14) (reach : blkid < 2^64) :
    (grownLevels nlevels blkid).toNat = max nlevels.toNat (needHeight blkid 13 1 + 1) := by
  have most := (needHeight_reach blkid 13 1 (by simp only [fanout]; omega)).2
  rw [grownLevels,UInt8.toNat_add,UInt8.toNat_ofNat']
  omega

lemma mergeRecord_size (o : Obj) (blkid : Nat) (src : Buffer) (inside : boff + chunk ≤ rsz)
    (some : 0 < chunk) (le : ∀ k, (o.recs k).1 ≤ rsz) :
    0 < (o.mergeRecord rsz boff chunk blkid src).2 ∧ (o.mergeRecord rsz boff chunk blkid src).2 ≤ rsz := by
  rw [mergeRecord]
  split
  · exact ⟨by dsimp only; omega,Nat.le_refl _⟩
  have := le (blkid % o.reach)
  simp only [readRec]
  omega

lemma growSize_bonus (info : DnodeInfo) (size : UInt64) : ∃ bonus, info.growSize size = { info with bonus } := by
  rw [DnodeInfo.growSize]
  split
  · exact ⟨_,rfl⟩
  · exact ⟨info.bonus,rfl⟩

lemma writeRecords_info (rsz fuel : Nat) (off : Nat) (src : Buffer) (len : Nat) (o : Obj) :
    ∃ nlevels maxblkid, (o.writeRecords rsz fuel off src len).info = { o.info with nlevels, maxblkid } := by
  induction fuel generalizing off src len o with
  | zero => exact ⟨_,_,rfl⟩
  | succ fuel ih =>
    rw [writeRecords]
    split
    · exact ⟨_,_,rfl⟩
    · obtain ⟨nlevels,maxblkid,same⟩ := ih _ _ _ (o.setRec (off % 2^64 / rsz) _)
      exact ⟨nlevels,maxblkid,same⟩

/-- What holds of every allocated object: records end at their logical size and lie within the tree's reach. -/
structure Obj.Wf (o : Obj) : Prop where
  some : 1 ≤ o.info.nlevels.toNat
  few : o.info.nlevels.toNat ≤ 14
  size : ∀ k, (o.recs k).1 ≤ o.info.recordSize
  short : ∀ k i, (o.recs k).1 ≤ i → (o.recs k).2 i = 0
  far : ∀ k, o.reach ≤ k → o.recs k = (0,Buffer.zero)

/-- The byte that record `i / recordSize` itself holds for position `i`. -/
def Obj.own (o : Obj) (i : Nat) : UInt8 := (o.recs (i / o.info.recordSize)).2 (i % o.info.recordSize)

/-- The walk to record `b` finds the bytes of record `b`. -/
def Obj.Direct (o : Obj) (b : Nat) : Prop := (o.readRec b).2 = (o.recs b).2

lemma Obj.reach_pos (o : Obj) : 0 < o.reach := Nat.pow_pos (by decide)

lemma Obj.direct_of_lt {o : Obj} (inside : b < o.reach) : o.Direct b := by
  rw [Obj.Direct,readRec,Nat.mod_eq_of_lt inside]

/-- The byte a read finds at position `i`. -/
def Obj.seen (o : Obj) (i : Nat) : UInt8 := (o.readRec (i / o.info.recordSize)).2 (i % o.info.recordSize)

lemma Obj.readRecords_seen (o : Obj) (fuel off len : Nat) (enough : len ≤ fuel) (fits : off + len ≤ 2^64) (j : Nat) :
    o.readRecords fuel off len j = if j < len then o.seen (off + j) else 0 := by
  have pos := recordSize_pos o.info
  induction fuel generalizing off len j with
  | zero => rw [readRecords,if_neg (by omega)]; rfl
  | succ fuel ih =>
    rw [readRecords]
    by_cases none : len = 0
    · rw [if_pos none,if_neg (by omega)]
      rfl
    rw [if_neg none]
    rw [Nat.mod_eq_of_lt (by omega : off < 2^64)]
    generalize size : o.info.recordSize = rsz at *
    have here := Nat.div_add_mod off rsz
    have inside := Nat.mod_lt off pos
    rw [Buffer.cat_apply]
    by_cases near : j < min (rsz - off % rsz) len
    · have sum : off % rsz + j < rsz := by omega
      have place : off + j = rsz * (off / rsz) + (off % rsz + j) := by omega
      rw [if_pos near,if_pos (by omega),Buffer.drop_apply,seen,size,place,
        Nat.mul_add_div pos,Nat.mul_add_mod,Nat.div_eq_of_lt sum,Nat.mod_eq_of_lt sum,Nat.add_zero]
    rw [if_neg near]
    have later := ih (off + min (rsz - off % rsz) len) (len - min (rsz - off % rsz) len) (by omega) (by omega)
      (j - min (rsz - off % rsz) len)
    rw [later]
    by_cases far : j < len
    · rw [if_pos (by omega),if_pos far]
      congr 1
      omega
    · rw [if_neg (by omega),if_neg far]

lemma Obj.read_seen (o : Obj) (fits : off + len ≤ 2^64) (j : Nat) :
    o.read off len j = if j < len then o.seen (off + j) else 0 :=
  o.readRecords_seen len off len Nat.le.refl fits j

/-- The records that `[off, off + len)` touches are all found at their own place. -/
def Obj.CleanRead (o : Obj) (off len : Nat) : Prop :=
  ∀ b, off / o.info.recordSize ≤ b → b * o.info.recordSize < off + len → o.Direct b

lemma Obj.read_byte {o : Obj} (fits : off + len ≤ 2^64) (clean : o.CleanRead off len) (j : Nat) :
    o.read off len j = if j < len then o.own (off + j) else 0 := by
  rw [o.read_seen fits]
  split
  · have direct : o.Direct ((off + j) / o.info.recordSize) := by
      refine clean _ (Nat.div_le_div_right (Nat.le_add_right _ _)) ?_
      have below := Nat.div_mul_le_self (off + j) o.info.recordSize
      omega
    rw [seen,direct,own]
  · rfl

section SetRec

variable {o : Obj} (wf : o.Wf) (bound : b < 2^64)
include wf bound

lemma Obj.Wf.setRec_reach (record : Nat × Buffer) :
    (o.setRec b record).reach = max o.reach (fanout^(needHeight b 13 1)) := by
  have levels := grownLevels_toNat wf.few bound
  have height : (o.setRec b record).info.height = max o.info.height (needHeight b 13 1) := by
    rw [DnodeInfo.height,DnodeInfo.height]
    exact (congrArg (· - 1) levels).trans (by omega)
  rw [reach,reach,height]
  rcases Nat.le_total o.info.height (needHeight b 13 1) with less | more
  · rw [Nat.max_eq_right less,Nat.max_eq_right (Nat.pow_le_pow_right (by decide) less)]
  · rw [Nat.max_eq_left more,Nat.max_eq_left (Nat.pow_le_pow_right (by decide) more)]

lemma Obj.Wf.setRec_lt (record : Nat × Buffer) : b < (o.setRec b record).reach := by
  have enough := (needHeight_reach b 13 1 (by simp only [fanout]; omega)).1
  rw [wf.setRec_reach bound]
  omega

lemma Obj.Wf.setRec (fits : n ≤ o.info.recordSize) (buf : Buffer) : (o.setRec b (n,buf.take n)).Wf := by
  have levels := grownLevels_toNat wf.few bound
  have most := (needHeight_reach b 13 1 (by simp only [fanout]; omega)).2
  have reach := wf.setRec_reach bound (n,buf.take n)
  have lt := wf.setRec_lt bound (n,buf.take n)
  have few := wf.few
  refine ⟨?_,?_,fun k => ?_,fun k i => ?_,fun k far => ?_⟩
  · exact levels ▸ (by omega)
  · exact levels ▸ (by omega)
  · simp only [Obj.setRec]
    split
    · exact fits
    · exact wf.size k
  · simp only [Obj.setRec]
    split
    · intro after
      exact if_neg (Nat.not_lt.mpr after)
    · exact wf.short k i
  · simp only [Obj.setRec]
    rw [if_neg (by omega)]
    exact wf.far k (by omega)

end SetRec

/-- The part of a write that falls into its first record. -/
def Obj.writeFirst (o : Obj) (rsz off : Nat) (src : Buffer) (len : Nat) : Obj :=
  let record := o.mergeRecord rsz (off % rsz) (min (rsz - off % rsz) len) (off / rsz) src
  o.setRec (off / rsz) (record.2,record.1.take record.2)

section WriteFirst

variable {o : Obj} (wf : o.Wf) (fits : off + len ≤ 2^64) (some : 0 < len)
include wf fits some

lemma Obj.Wf.writeFirst (src : Buffer) : (o.writeFirst o.info.recordSize off src len).Wf ∧
    off / o.info.recordSize < (o.writeFirst o.info.recordSize off src len).reach ∧
    o.reach ≤ (o.writeFirst o.info.recordSize off src len).reach := by
  have pos := recordSize_pos o.info
  have inside := Nat.mod_lt off pos
  have bound : off / o.info.recordSize < 2^64 := Nat.lt_of_le_of_lt (Nat.div_le_self _ _) (by omega)
  have size := (mergeRecord_size o (off / o.info.recordSize) src
    (show off % o.info.recordSize + min (o.info.recordSize - off % o.info.recordSize) len ≤ o.info.recordSize by omega)
    (by omega) wf.size).2
  refine ⟨wf.setRec bound size _,wf.setRec_lt bound _,?_⟩
  rw [Obj.writeFirst,wf.setRec_reach bound]
  omega

/-- The bytes written are there; the rest of the record is what the walk to it found. -/
lemma Obj.Wf.writeFirst_own (src : Buffer) (i : Nat) : (o.writeFirst o.info.recordSize off src len).own i =
      if off ≤ i ∧ i < off + min (o.info.recordSize - off % o.info.recordSize) len then src (i - off)
      else if i / o.info.recordSize = off / o.info.recordSize then
        (o.readRec (off / o.info.recordSize)).2 (i % o.info.recordSize)
      else o.own i := by
  have pos := recordSize_pos o.info
  have same : (o.writeFirst o.info.recordSize off src len).info.recordSize = o.info.recordSize := rfl
  rw [Obj.own,same,Obj.writeFirst]
  have short (k : Nat) := wf.short (k % o.reach)
  simp only [Obj.own,Obj.setRec]
  generalize o.info.recordSize = rsz at *
  have here := Nat.div_add_mod off rsz
  have there := Nat.div_add_mod i rsz
  have inside' := Nat.mod_lt i pos
  by_cases record : i / rsz = off / rsz
  · have place : off ≤ i ∧ i < off + min (rsz - off % rsz) len ↔
        off % rsz ≤ i % rsz ∧ i % rsz < off % rsz + min (rsz - off % rsz) len := by
      rw [record] at there
      omega
    have byte : off % rsz ≤ i % rsz → i % rsz - off % rsz = i - off := by
      rw [record] at there
      omega
    rw [if_pos record,if_pos record,Obj.mergeRecord]
    by_cases full : off % rsz = 0 ∧ min (rsz - off % rsz) len = rsz
    · rw [if_pos full]
      dsimp only
      rw [Buffer.take_take,Nat.min_self,Buffer.take_apply,if_pos inside',if_pos (place.mpr (by omega))]
      congr 1
      omega
    rw [if_neg full]
    dsimp only
    rw [Buffer.take_apply,Buffer.copy_apply]
    by_cases written : off % rsz ≤ i % rsz ∧ i % rsz < off % rsz + min (rsz - off % rsz) len
    · rw [if_pos (by omega),if_pos written,if_pos (place.mpr written),byte written.1]
    rw [if_neg written,if_neg (fun range => written (place.mp range))]
    by_cases stored : i % rsz < max (o.readRec (off / rsz)).1 (off % rsz + min (rsz - off % rsz) len)
    · rw [if_pos stored]
    · rw [if_neg stored]
      exact (short (off / rsz) _ (by rw [Obj.readRec] at stored; omega)).symm
  · have outside : ¬(off ≤ i ∧ i < off + min (rsz - off % rsz) len) := by
      rintro ⟨low,high⟩
      apply record
      refine Nat.le_antisymm ?_ (Nat.div_le_div_right low)
      refine Nat.lt_succ_iff.mp (Nat.div_lt_of_lt_mul ?_)
      rw [Nat.mul_succ]
      omega
    rw [if_neg record,if_neg record,if_neg outside]

end WriteFirst

/-- The walk to the last record of a write finds that record by the time the write gets to it: the first record at
once, a later one unless it is just past a full tree. -/
def Obj.CleanEnd (o : Obj) (off len : Nat) : Prop :=
  let first := off / o.info.recordSize
  let last := (off + len - 1) / o.info.recordSize
  (last = first → o.Direct first) ∧ (last ≠ first → last < o.reach ∨ ∀ k, last ≠ fanout^k)

lemma Obj.writeRecords_step (o : Obj) (rsz fuel off : Nat) (src : Buffer) (some : 0 < len)
    (fits : off + len ≤ 2^64) : o.writeRecords rsz (fuel + 1) off src len =
      (o.writeFirst rsz off src len).writeRecords rsz fuel (off + min (rsz - off % rsz) len)
        (src.drop (min (rsz - off % rsz) len)) (len - min (rsz - off % rsz) len) := by
  rw [writeRecords,if_neg (by omega),Nat.mod_eq_of_lt (by omega : off < 2^64)]
  rfl

lemma Obj.writeRecords_none (o : Obj) (rsz fuel off : Nat) (src : Buffer) : o.writeRecords rsz fuel off src 0 = o := by
  cases fuel <;> simp [writeRecords]

/-- A write puts its bytes in place. What else is in its first and last record stays if the walk finds them. -/
lemma Obj.Wf.writeRecords {o : Obj} (wf : o.Wf) (fuel off : Nat) (src : Buffer) (len : Nat) (enough : len ≤ fuel)
    (fits : off + len ≤ 2^64) (some : 0 < len)
    (left : off % o.info.recordSize ≠ 0 → o.Direct (off / o.info.recordSize)) :
    (o.writeRecords o.info.recordSize fuel off src len).Wf ∧
      o.reach ≤ (o.writeRecords o.info.recordSize fuel off src len).reach ∧
      (off + len - 1) / o.info.recordSize < (o.writeRecords o.info.recordSize fuel off src len).reach ∧
      ∀ i, (off + len ≤ i → i / o.info.recordSize = (off + len - 1) / o.info.recordSize → o.CleanEnd off len) →
        (o.writeRecords o.info.recordSize fuel off src len).own i =
          if off ≤ i ∧ i < off + len then src (i - off) else o.own i := by
  induction fuel generalizing o off src len with
  | zero => omega
  | succ fuel ih =>
    have pos := recordSize_pos o.info
    have inside := Nat.mod_lt off pos
    have here := Nat.div_add_mod off o.info.recordSize
    obtain ⟨wf1,reached,grown⟩ := wf.writeFirst fits some src
    have own1 := wf.writeFirst_own fits some src
    have size1 : (o.writeFirst o.info.recordSize off src len).info.recordSize = o.info.recordSize := rfl
    rw [o.writeRecords_step _ fuel off src some fits]
    generalize o.writeFirst o.info.recordSize off src len = o1 at *
    generalize chunk : min (o.info.recordSize - off % o.info.recordSize) len = n at *
    have kept (i : Nat) (outside : ¬(off ≤ i ∧ i < off + n)) (tail : off ≤ i →
        i / o.info.recordSize = off / o.info.recordSize → o.Direct (off / o.info.recordSize)) : o1.own i = o.own i := by
      rw [own1,if_neg outside]
      split
      next record =>
        have direct : o.Direct (off / o.info.recordSize) := by
          by_cases before : off ≤ i
          · exact tail before record
          refine left fun zero => before ?_
          have there := Nat.div_add_mod i o.info.recordSize
          rw [record] at there
          omega
        rw [direct,← record]
        rfl
      · rfl
    by_cases last : n = len
    · -- the write ends in this record
      subst last
      rw [Nat.sub_self,writeRecords_none]
      have same : (off + n - 1) / o.info.recordSize = off / o.info.recordSize := by
        refine Nat.le_antisymm (Nat.lt_succ_iff.mp (Nat.div_lt_of_lt_mul ?_)) (Nat.div_le_div_right (by omega))
        rw [Nat.mul_succ]
        omega
      refine ⟨wf1,grown,same ▸ reached,fun i clean => ?_⟩
      by_cases written : off ≤ i ∧ i < off + n
      · rw [own1,if_pos written,if_pos written]
      rw [if_neg written]
      refine kept i written fun after record => ?_
      exact (clean (by omega) (record.trans same.symm)).1 same
    -- the rest starts at a record boundary
    have next : off + n = o.info.recordSize * (off / o.info.recordSize + 1) := by
      rw [Nat.mul_succ]
      omega
    have start : (off + n) % o.info.recordSize = 0 := by rw [next,Nat.mul_mod_right]
    have block : (off + n) / o.info.recordSize = off / o.info.recordSize + 1 := by
      rw [next,Nat.mul_div_cancel_left _ pos]
    have stop : off + n + (len - n) - 1 = off + len - 1 := by omega
    have rest := ih wf1 (off + n) (src.drop n) (len - n) (by omega) (by omega) (by omega)
      (fun aligned => absurd start (size1 ▸ aligned))
    rw [size1,stop] at rest
    obtain ⟨wf2,grown2,reached2,own2⟩ := rest
    refine ⟨wf2,Nat.le_trans grown grown2,reached2,fun i clean => ?_⟩
    have later : off / o.info.recordSize < (off + len - 1) / o.info.recordSize := by
      rw [← Nat.succ_le_iff,Nat.succ_eq_add_one,← block]
      exact Nat.div_le_div_right (by omega)
    rw [own2 i fun after record => ?_]
    · by_cases second : off + n ≤ i ∧ i < off + n + (len - n)
      · rw [if_pos second,if_pos (by omega),Buffer.drop_apply]
        congr 1
        omega
      rw [if_neg second]
      by_cases first : off ≤ i ∧ i < off + n
      · rw [own1,if_pos first,if_pos (by omega)]
      rw [if_neg (by omega)]
      refine kept i first fun after record => ?_
      have there := Nat.div_add_mod i o.info.recordSize
      have small := Nat.mod_lt i pos
      rw [record] at there
      rw [Nat.mul_succ] at next
      omega
    · have clean := (clean (by omega) record).2 (by omega)
      simp only [Obj.CleanEnd,size1,block,stop]
      refine ⟨fun same => ?_,fun _ => clean.imp_left fun low => Nat.lt_of_lt_of_le low grown⟩
      refine direct_of_lt ?_
      rcases clean with low | power
      · omega
      have := power o1.info.height
      have : o1.reach = fanout^o1.info.height := rfl
      omega

lemma Obj.write_own (o : Obj) (off : Nat) (buf : Buffer) (len i : Nat) :
    (o.write off buf len).own i = (o.writeRecords o.info.recordSize len off buf len).own i := by
  obtain ⟨bonus,same⟩ := growSize_bonus (o.writeRecords o.info.recordSize len off buf len).info
    (UInt64.ofNat (off + len))
  simp only [write,own,same]
  rfl

lemma Obj.write_recordSize (o : Obj) (off : Nat) (buf : Buffer) (len : Nat) :
    (o.write off buf len).info.recordSize = o.info.recordSize := by
  obtain ⟨bonus,same⟩ := growSize_bonus (o.writeRecords o.info.recordSize len off buf len).info
    (UInt64.ofNat (off + len))
  obtain ⟨nlevels,maxblkid,info⟩ := writeRecords_info o.info.recordSize len off buf len o
  exact (congrArg DnodeInfo.recordSize same).trans (congrArg DnodeInfo.recordSize info :)

lemma Obj.write_reach (o : Obj) (off : Nat) (buf : Buffer) (len : Nat) :
    (o.write off buf len).reach = (o.writeRecords o.info.recordSize len off buf len).reach := by
  obtain ⟨bonus,same⟩ := growSize_bonus (o.writeRecords o.info.recordSize len off buf len).info
    (UInt64.ofNat (off + len))
  simp only [write,reach,same]
  rfl

lemma Obj.Wf.write {o : Obj} (wf : o.Wf) (off : Nat) (buf : Buffer) (len : Nat) : (o.write off buf len).Wf := by
  have loop (fuel : Nat) : ∀ (o : Obj) (off : Nat) (src : Buffer) (len : Nat), o.Wf →
      (o.writeRecords o.info.recordSize fuel off src len).Wf := by
    induction fuel with
    | zero => exact fun o off src len wf => wf
    | succ fuel ih =>
      intro o off src len wf
      rw [Obj.writeRecords]
      split
      · exact wf
      have pos := recordSize_pos o.info
      have inside := Nat.mod_lt (off % 2^64) pos
      have bound : off % 2^64 / o.info.recordSize < 2^64 :=
        Nat.lt_of_le_of_lt (Nat.div_le_self _ _) (Nat.mod_lt _ (by decide))
      have size := (mergeRecord_size o (off % 2^64 / o.info.recordSize) src
        (show off % 2^64 % o.info.recordSize + min (o.info.recordSize - off % 2^64 % o.info.recordSize) len ≤
          o.info.recordSize by omega) (by omega) wf.size).2
      exact ih _ _ _ _ (wf.setRec bound size _)
  have written := loop len o off buf len wf
  obtain ⟨bonus,same⟩ := growSize_bonus (o.writeRecords o.info.recordSize len off buf len).info
    (UInt64.ofNat (off + len))
  rw [Obj.write,same]
  exact ⟨written.some,written.few,written.size,written.short,written.far⟩

/-- The records a write covers in part are found at their own place when the write reads them back. -/
def Obj.CleanWrite (o : Obj) (off len : Nat) : Prop := 0 < len →
  (off % o.info.recordSize ≠ 0 → o.Direct (off / o.info.recordSize)) ∧
  ((off + len) % o.info.recordSize ≠ 0 → o.CleanEnd off len)

lemma Obj.Wf.write_bytes {o : Obj} (wf : o.Wf) (fits : off + len ≤ 2^64)
    (clean : o.CleanWrite off len) (buf : Buffer) (i : Nat) :
    (o.write off buf len).own i = if off ≤ i ∧ i < off + len then buf (i - off) else o.own i := by
  rw [o.write_own]
  rcases Nat.eq_zero_or_pos len with rfl | some
  · rw [writeRecords_none,if_neg (by omega)]
  obtain ⟨left,right⟩ := clean some
  refine (wf.writeRecords len off buf len Nat.le.refl fits some left).2.2.2 i fun after record => right fun whole => ?_
  -- a write that ends at a record boundary leaves nothing of its last record
  have pos := recordSize_pos o.info
  generalize o.info.recordSize = rsz at *
  obtain ⟨c,eq⟩ := Nat.dvd_of_mod_eq_zero whole
  have high : c ≤ i / rsz := by
    rw [Nat.le_div_iff_mul_le pos,Nat.mul_comm]
    omega
  have low : (off + len - 1) / rsz < c := Nat.div_lt_of_lt_mul (by omega)
  omega

end UbixOS.Ubfs
