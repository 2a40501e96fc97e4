import UbixOS.Kern.Elf64
import UbixOS.Library.Memory

/-! What a page of a segment holds, by the eager loader and by the parts that the demand
loader makes of the segment. -/
namespace UbixOS.Kern.Elf64

open UInt64 (toNat_and toNat_add le_iff_toNat_le lt_iff_toNat_lt toNat_sub_of_le toNat)

open Library Vmm UInt64 Phdr Buffer

lemma pageDown_toNat (x : UInt64) : (pageDown x).toNat = x.toNat / 4096 * 4096 := by
  rw [pageDown,toNat_and]
  exact and_highMask (k := 12) (w := 64) (by decide) x.toNat_lt

lemma pageUp_toNat (fits : x.toNat + 4095 < 2^64) : (pageUp x).toNat = (x.toNat + 4095) / 4096 * 4096 := by
  have sum : (x + 4096 - 1).toNat = x.toNat + 4095 := by
    have same : x + 4096 - 1 = x + 4095 := by grind
    rw [same,toNat_add]
    exact Nat.mod_eq_of_lt fits
  rw [pageUp,toNat_and,sum]
  exact and_highMask (k := 12) (w := 64) (by decide) fits

lemma pageDown_le (x : UInt64) : (pageDown x).toNat ≤ x.toNat := by
  rw [pageDown_toNat]
  omega

/-- A segment of user memory whose file part starts at the same place in its page. -/
structure Fits (base : UInt64) (ph : Phdr) : Prop where
  aligned : base.toNat % 4096 = 0
  congruent : ph.offset.toNat % 4096 = ph.vaddr.toNat % 4096
  filesz : ph.filesz.toNat ≤ ph.memsz.toNat
  user : base.toNat + ph.vaddr.toNat + ph.memsz.toNat ≤ 2^63
  offset : ph.offset.toNat + ph.filesz.toNat ≤ 2^63

def Phdr.Has (base : UInt64) (ph : Phdr) (a : UInt64) : Prop := ph.segVaddr base ≤ a ∧ a < ph.memEnd base

/-- The byte of a segment at an address, if its file part comes from `source`. -/
def Phdr.byte (source : Nat → UInt8) (base : UInt64) (ph : Phdr) (a : UInt64) : UInt8 :=
  if a < ph.fileEnd base then source (ph.offset.toNat + (a.toNat - (ph.segVaddr base).toNat)) else 0

section

variable (fits : Fits base ph)
include fits

lemma Fits.segVaddr : (ph.segVaddr base).toNat = base.toNat + ph.vaddr.toNat := by
  have user := fits.user
  rw [Phdr.segVaddr,toNat_add,Nat.mod_eq_of_lt (by omega)]

lemma Fits.fileEnd : (ph.fileEnd base).toNat = (ph.segVaddr base).toNat + ph.filesz.toNat := by
  have user := fits.user
  have filesz := fits.filesz
  rw [Phdr.fileEnd,toNat_add,fits.segVaddr,Nat.mod_eq_of_lt (by omega)]

lemma Fits.memEnd : (ph.memEnd base).toNat = (ph.segVaddr base).toNat + ph.memsz.toNat := by
  have user := fits.user
  rw [Phdr.memEnd,toNat_add,fits.segVaddr,Nat.mod_eq_of_lt (by omega)]

lemma Fits.memEnd_le : (ph.memEnd base).toNat ≤ 2^63 := by
  rw [fits.memEnd,fits.segVaddr]
  exact fits.user

lemma Fits.fileEnd_le : (ph.fileEnd base).toNat ≤ (ph.memEnd base).toNat := by
  rw [fits.fileEnd,fits.memEnd]
  exact Nat.add_le_add_left fits.filesz _

lemma Fits.place : ph.offset.toNat % 4096 = (ph.segVaddr base).toNat % 4096 := by
  have aligned := fits.aligned
  have congruent := fits.congruent
  rw [fits.segVaddr]
  omega

lemma Fits.pageUp_memEnd : (pageUp (ph.memEnd base)).toNat = ((ph.memEnd base).toNat + 4095) / 4096 * 4096 :=
  pageUp_toNat (Nat.lt_of_le_of_lt (Nat.add_le_add_right fits.memEnd_le _) (by decide))

lemma Fits.pageUp_fileEnd : (pageUp (ph.fileEnd base)).toNat = ((ph.fileEnd base).toNat + 4095) / 4096 * 4096 :=
  pageUp_toNat (Nat.lt_of_le_of_lt (Nat.add_le_add_right (Nat.le_trans fits.fileEnd_le fits.memEnd_le) _) (by decide))

lemma Fits.segmentPage (image : Buffer) (has : ph.Has base a) :
    (segmentPage image base ph (pageDown a)).toBuffer (a.toNat % 4096) = ph.byte image base a := by
  obtain ⟨low,high⟩ := has
  have page := pageDown_toNat a
  have offset := fits.offset
  have top := fits.memEnd_le
  rw [le_iff_toNat_le] at low
  rw [lt_iff_toNat_lt] at high
  have next : (pageDown a + 4096).toNat = (pageDown a).toNat + 4096 := by
    rw [toNat_add,show (4096 : UInt64).toNat = 4096 from rfl]
    exact Nat.mod_eq_of_lt (by omega)
  rw [Elf64.segmentPage]
  generalize lo : (if ph.segVaddr base < pageDown a then pageDown a else ph.segVaddr base) = copyLo
  generalize hi : (if pageDown a + 4096 < ph.fileEnd base then pageDown a + 4096 else ph.fileEnd base) = copyHi
  have lo : copyLo.toNat = max (pageDown a).toNat (ph.segVaddr base).toNat := by
    rw [← lo]
    simp only [lt_iff_toNat_lt]
    split <;> omega
  have hi : copyHi.toNat = min ((pageDown a).toNat + 4096) (ph.fileEnd base).toNat := by
    rw [← hi]
    simp only [lt_iff_toNat_lt,next]
    split <;> omega
  have start : (copyLo - pageDown a).toNat = copyLo.toNat - (pageDown a).toNat :=
    toNat_sub_of_le _ _ (by rw [le_iff_toNat_le]; omega)
  have skipped : (copyLo - ph.segVaddr base).toNat = copyLo.toNat - (ph.segVaddr base).toNat :=
    toNat_sub_of_le _ _ (by rw [le_iff_toNat_le]; omega)
  by_cases some : copyLo < copyHi
  · rw [lt_iff_toNat_lt] at some
    have count : (copyHi - copyLo).toNat = copyHi.toNat - copyLo.toNat :=
      toNat_sub_of_le _ _ (by rw [le_iff_toNat_le]; omega)
    have source : (ph.offset + (copyLo - ph.segVaddr base)).toNat =
        ph.offset.toNat + (copyLo.toNat - (ph.segVaddr base).toNat) := by
      rw [toNat_add,skipped]
      exact Nat.mod_eq_of_lt (by omega)
    rw [if_pos (lt_iff_toNat_lt.mpr some),toBytes_toBuffer,take_apply,if_pos (Nat.mod_lt _ (by decide)),
      copy_apply,start,count,byte]
    by_cases inside : a.toNat < (ph.fileEnd base).toNat
    · rw [if_pos (by omega),if_pos (lt_iff_toNat_lt.mpr inside),drop_apply,source]
      exact congrArg image (by omega)
    · rw [if_neg (by omega),if_neg (fun before => inside (lt_iff_toNat_lt.mp before))]
      rfl
  · rw [if_neg some,Bytes.zero_toBuffer,byte,if_neg]
    · rfl
    intro inside
    rw [lt_iff_toNat_lt] at inside some
    omega

end

namespace File

lemma pread_apply (f : File) (off : UInt64) (len j : Nat) :
    (f.pread off len).2 j = if j < len then f.get (off.toNat + j) else 0 := by
  change take (fun i => f.byte (off.toNat + i)) (min len (f.size - off.toNat)) j = _
  rw [take_apply,File.get]
  by_cases inside : j < len
  · rw [if_pos inside]
    by_cases here : off.toNat + j < f.size
    · rw [if_pos (by omega),if_pos here]
    · rw [if_neg (by omega),if_neg here]
  · rw [if_neg (by omega),if_neg inside]

lemma pread_page (f : File) (fits : off.toNat + n * 4096 < 2^64) (low : i < n) :
    ((f.pread off (n * 4096)).2.drop (i * 4096)).toBytes 4096 = f.page (off + ofNat (i * 4096)) := by
  have below : (i + 1) * 4096 ≤ n * 4096 := Nat.mul_le_mul_right _ low
  funext j
  have inside : i * 4096 + j.val < n * 4096 :=
    Nat.lt_of_lt_of_le (by rw [Nat.succ_mul]; exact Nat.add_lt_add_left j.isLt _) below
  rw [page,add_pages_toNat fits low]
  change (f.pread off (n * 4096)).2 (i * 4096 + j.val) = _
  rw [pread_apply,if_pos inside,Nat.add_assoc]

end File

lemma toBuffer_mod (page : Page) (a : Nat) : page.toBuffer (a % 4096) = page ⟨a % 4096,Nat.mod_lt _ (by decide)⟩ :=
  dif_pos (Nat.mod_lt _ (by decide))

section

variable (fits : Fits base ph) (f : File) (has : ph.Has base a)
include fits has

/-- Where the bytes of the page of `a` are in the file. -/
lemma Fits.source (page : (pageDown (ph.segVaddr base)).toNat ≤ (pageDown a).toNat) (inside : a < ph.fileEnd base) :
    (pageDown ph.offset + (pageDown a - pageDown (ph.segVaddr base))).toNat + a.toNat % 4096 =
      ph.offset.toNat + (a.toNat - (ph.segVaddr base).toNat) := by
  have low := le_iff_toNat_le.mp has.1
  have high := lt_iff_toNat_lt.mp inside
  have place := fits.place
  have fileEnd := fits.fileEnd
  have offset := fits.offset
  have difference : (pageDown a - pageDown (ph.segVaddr base)).toNat =
    (pageDown a).toNat - (pageDown (ph.segVaddr base)).toNat :=
    toNat_sub_of_le _ _ (le_iff_toNat_le.mpr page)
  rw [toNat_add,difference]
  rw [pageDown_toNat,pageDown_toNat] at page
  rw [pageDown_toNat,pageDown_toNat,pageDown_toNat,Nat.mod_eq_of_lt] <;> omega

omit fits in
lemma page_low : (pageDown (ph.segVaddr base)).toNat ≤ (pageDown a).toNat := by
  rw [pageDown_toNat,pageDown_toNat]
  exact Nat.mul_le_mul_right _ (Nat.div_le_div_right (le_iff_toNat_le.mp has.1))

lemma Fits.filePage (before : pageDown a < pageDown (ph.fileEnd base)) :
    (f.page (pageDown ph.offset + (pageDown a - pageDown (ph.segVaddr base)))).toBuffer (a.toNat % 4096) =
      ph.byte f.get base a := by
  have inside : a < ph.fileEnd base := by
    rw [lt_iff_toNat_lt,pageDown_toNat,pageDown_toNat] at before
    rw [lt_iff_toNat_lt]
    omega
  rw [toBuffer_mod,File.page,byte,if_pos inside]
  exact congrArg f.get (fits.source has (page_low has) inside)

lemma Fits.boundaryPage (here : pageDown a = pageDown (ph.fileEnd base)) :
    (boundaryPage f base ph).toBuffer (a.toNat % 4096) = ph.byte f.get base a := by
  have page := congrArg toNat here
  rw [pageDown_toNat,pageDown_toNat] at page
  have count : (ph.fileEnd base - pageDown (ph.fileEnd base)).toNat = (ph.fileEnd base).toNat % 4096 := by
    rw [toNat_sub_of_le _ _ (le_iff_toNat_le.mpr (pageDown_le _)),pageDown_toNat]
    omega
  rw [toBuffer_mod,Elf64.boundaryPage]
  change (f.pread _ _).2 (a.toNat % 4096) = _
  rw [File.pread_apply,count,byte,← here]
  by_cases inside : a < ph.fileEnd base
  · have before := lt_iff_toNat_lt.mp inside
    rw [if_pos (by omega),if_pos inside]
    exact congrArg f.get (fits.source has (page_low has) inside)
  · have after : ¬ a.toNat < (ph.fileEnd base).toNat := fun before => inside (lt_iff_toNat_lt.mpr before)
    rw [if_neg (by omega),if_neg inside]

omit has in
lemma Fits.bssPage (after : pageUp (ph.fileEnd base) ≤ pageDown a) : (Bytes.zero : Page).toBuffer (a.toNat % 4096) =
    ph.byte f.get base a := by
  rw [le_iff_toNat_le,fits.pageUp_fileEnd,pageDown_toNat] at after
  rw [Bytes.zero_toBuffer,byte,if_neg]
  · rfl
  intro inside
  rw [lt_iff_toNat_lt] at inside
  omega

lemma Fits.parts : pageDown a < pageDown (ph.fileEnd base) ∨
    pageDown a = pageDown (ph.fileEnd base) ∧ pageDown (ph.fileEnd base) < ph.fileEnd base ∨
    pageUp (ph.fileEnd base) ≤ pageDown a ∧ pageDown a < pageUp (ph.memEnd base) := by
  have high := lt_iff_toNat_lt.mp has.2
  simp only [← UInt64.toNat_inj,lt_iff_toNat_lt,le_iff_toNat_le,pageDown_toNat,fits.pageUp_fileEnd,
    fits.pageUp_memEnd]
  omega

end

end UbixOS.Kern.Elf64
