import UbixOS.Vfs.Bcache

/-! The slot table of the block cache: what its chains hold, and what each operation
does to the sectors that are cached. -/
namespace UbixOS.Bcache

open Library Function

namespace Cache

structure Owns (c : Cache) (i : Nat) (dev : Dev) (lba : UInt32) : Prop where
  inside : i < bcacheSlots
  valid : (c.slots i).valid = true
  dev : (c.slots i).dev = dev
  lba : (c.slots i).lba = lba

def Holds (c : Cache) (dev : Dev) (lba : UInt32) (data : Sector) : Prop :=
  ∃ i, c.Owns i dev lba ∧ (c.slots i).data = data

/-- The chains hold exactly the valid slots, each in its sector's bucket, and no sector has two slots. -/
structure Ok (c : Cache) (nodes : Nat → List Nat) : Prop where
  linked : c.chains.Linked nodes
  member : ∀ b i, i ∈ nodes b ↔ i < bcacheSlots ∧ (c.slots i).valid = true ∧ (c.slots i).bucket = b
  unique : ∀ i j dev lba, c.Owns i dev lba → c.Owns j dev lba → i = j
  hand : c.hand < bcacheSlots

lemma init_ok : init.Ok fun _ => [] where
  linked := Chains.linked_empty
  member := by simp [init]
  unique := fun i _ _ _ owns => by simpa [init] using owns.valid
  hand := by decide

/-- Nothing but reference bits and data changed from `c` to `d`, and some slots may have been dropped. -/
structure Less (c d : Cache) : Prop where
  dev : ∀ i, (d.slots i).dev = (c.slots i).dev
  lba : ∀ i, (d.slots i).lba = (c.slots i).lba
  data : ∀ i, (d.slots i).data = (c.slots i).data
  valid : ∀ i, (d.slots i).valid = true → (c.slots i).valid = true

lemma Less.refl (c : Cache) : c.Less c := ⟨fun _ => rfl,fun _ => rfl,fun _ => rfl,fun _ => id⟩

lemma Less.trans {c d e : Cache} (first : c.Less d) (second : d.Less e) : c.Less e where
  dev i := (second.dev i).trans (first.dev i)
  lba i := (second.lba i).trans (first.lba i)
  data i := (second.data i).trans (first.data i)
  valid i valid := first.valid i (second.valid i valid)

lemma Less.owns {c d : Cache} (less : c.Less d) {i : Nat} {dev : Dev} {lba : UInt32} (owns : d.Owns i dev lba) :
    c.Owns i dev lba where
  inside := owns.inside
  valid := less.valid i owns.valid
  dev := (less.dev i).symm.trans owns.dev
  lba := (less.lba i).symm.trans owns.lba

lemma Less.holds {c d : Cache} (less : c.Less d) {dev : Dev} {lba : UInt32} {data : Sector}
    (holds : d.Holds dev lba data) : c.Holds dev lba data := by
  obtain ⟨i,owns,same⟩ := holds
  exact ⟨i,less.owns owns,(less.data i).symm.trans same⟩

lemma advance_less (c : Cache) : c.Less c.advance := ⟨fun _ => rfl,fun _ => rfl,fun _ => rfl,fun _ => id⟩

lemma slotUnlink_less (c : Cache) (i : Nat) : c.Less (c.slotUnlink i) := by
  constructor <;> intro j <;> by_cases here : j = i <;> simp [slotUnlink,here]

section Table

variable {c : Cache} (ok : c.Ok nodes)
include ok

lemma Ok.length_le (b : Nat) : (nodes b).length ≤ bcacheSlots := by
  have subset : nodes b ⊆ List.range bcacheSlots := fun i member =>
    List.mem_range.mpr ((ok.member b i).mp member).1
  have bound := (List.subperm_of_subset (ok.linked.nodup b) subset).length_le
  rwa [List.length_range] at bound

lemma Ok.slotFind_iff : c.slotFind dev lba = some i ↔ c.Owns i dev lba := by
  have owns {j : Nat} {b : Nat} (member : j ∈ nodes b) : c.Owns j (c.slots j).dev (c.slots j).lba := by
    obtain ⟨inside,valid,_⟩ := (ok.member b j).mp member
    exact ⟨inside,valid,rfl,rfl⟩
  refine (c.chains.search_iff (fun i => ((c.slots i).dev,(c.slots i).lba)) (v := (dev,lba)) (ok.linked.path _)
    (ok.length_le _) fun x here y there same => ?_).trans ?_
  · obtain ⟨sameDev,sameLba⟩ := Prod.mk.inj same
    exact ok.unique x y _ _ (owns here) (sameDev ▸ sameLba ▸ owns there)
  · rw [ok.member,Prod.mk.injEq]
    constructor
    · rintro ⟨⟨inside,valid,_⟩,sameDev,sameLba⟩
      exact ⟨inside,valid,sameDev,sameLba⟩
    · intro here
      exact ⟨⟨here.inside,here.valid,by rw [Slot.bucket,here.dev,here.lba]⟩,here.dev,here.lba⟩

lemma Ok.slotFind_none (missing : c.slotFind dev lba = none) (i : Nat) :
    ¬c.Owns i dev lba := by
  intro owns
  have found := ok.slotFind_iff.mpr owns
  rw [missing] at found
  cases found

/-- A change of reference bits, data or the hand leaves the table as it is. -/
lemma Ok.same {d : Cache} (chains : d.chains = c.chains) (hand : d.hand < bcacheSlots)
    (slots : ∀ i, (d.slots i).valid = (c.slots i).valid ∧ (d.slots i).dev = (c.slots i).dev ∧
      (d.slots i).lba = (c.slots i).lba) : d.Ok nodes := by
  have back {i : Nat} {dev : Dev} {lba : UInt32} (owns : d.Owns i dev lba) : c.Owns i dev lba := by
    obtain ⟨valid,sameDev,sameLba⟩ := slots i
    exact ⟨owns.inside,valid ▸ owns.valid,sameDev ▸ owns.dev,sameLba ▸ owns.lba⟩
  refine ⟨chains ▸ ok.linked,fun b i => ?_,fun i j dev lba first second => ?_,hand⟩
  · obtain ⟨valid,sameDev,sameLba⟩ := slots i
    rw [ok.member,Slot.bucket,Slot.bucket,valid,sameDev,sameLba]
  · exact ok.unique i j dev lba (back first) (back second)

lemma Ok.advance : c.advance.Ok nodes :=
  ok.same rfl (Nat.mod_lt _ (by decide)) fun _ => ⟨rfl,rfl,rfl⟩

lemma Ok.setSlot {i : Nat} {s : Slot} (valid : s.valid = (c.slots i).valid) (dev : s.dev = (c.slots i).dev)
    (lba : s.lba = (c.slots i).lba) : (c.setSlot i s).Ok nodes := by
  refine ok.same (d := c.setSlot i s) rfl ok.hand fun j => ?_
  by_cases here : j = i
  · subst here
    simp [Cache.setSlot,valid,dev,lba]
  · simp [Cache.setSlot,here]

lemma Ok.slotUnlink {i : Nat} (inside : i < bcacheSlots) (valid : (c.slots i).valid = true) :
    ∃ fewer, (c.slotUnlink i).Ok fewer := by
  have here : i ∈ nodes (c.slots i).bucket := (ok.member _ i).mpr ⟨inside,valid,rfl⟩
  refine ⟨_,ok.linked.unlink here (ok.length_le _),fun b j => ?_,fun j k dev lba first second => ?_,ok.hand⟩
  · have kept (other : j ≠ i) : (c.slotUnlink i).slots j = c.slots j := by simp [Cache.slotUnlink,other]
    have dropped : ((c.slotUnlink i).slots i).valid = false := by simp [Cache.slotUnlink]
    by_cases bucket : b = (c.slots i).bucket
    · subst bucket
      rw [update_self,(ok.linked.nodup _).mem_erase_iff,ok.member]
      by_cases other : j = i
      · subst other
        simp [dropped]
      · rw [kept other]
        simp [other]
    · rw [update_of_ne bucket,ok.member]
      by_cases other : j = i
      · subst other
        simp [dropped,Ne.symm bucket]
      · rw [kept other]
  · exact ok.unique j k dev lba ((c.slotUnlink_less i).owns first) ((c.slotUnlink_less i).owns second)

omit ok in
/-- What eviction leaves: a slot outside every chain, and the rest of the table. -/
structure Evicted (c : Cache) (result : Cache × Nat) : Prop where
  ok : ∃ nodes, result.1.Ok nodes
  less : c.Less result.1
  inside : result.2 < bcacheSlots
  unused : (result.1.slots result.2).valid = false

lemma Ok.unlinkHand (valid : (c.slots c.hand).valid = true) : c.Evicted (c.advance.slotUnlink c.hand,c.hand) where
  ok := ok.advance.slotUnlink ok.hand valid
  less := c.advance_less.trans (c.advance.slotUnlink_less c.hand)
  inside := ok.hand
  unused := by simp [Cache.slotUnlink]

lemma Ok.freeHand (unused : (c.slots c.hand).valid = false) : c.Evicted (c.advance,c.hand) where
  ok := ⟨nodes,ok.advance⟩
  less := c.advance_less
  inside := ok.hand
  unused := unused

omit ok in
lemma setRef_less (c : Cache) (i : Nat) (ref : Bool) : c.Less (c.setSlot i { c.slots i with ref }) := by
  constructor <;> intro j <;> by_cases here : j = i <;> simp [Cache.setSlot,here]

omit ok in
lemma setRef_more (c : Cache) (i : Nat) (ref : Bool) : (c.setSlot i { c.slots i with ref }).Less c := by
  constructor <;> intro j <;> by_cases here : j = i <;> simp [Cache.setSlot,here]

lemma Ok.evictFrom (tries : Nat) : c.Evicted (c.evictFrom tries) := by
  induction tries generalizing c with
  | zero =>
    rw [Cache.evictFrom]
    cases valid : (c.slots c.hand).valid with
    | false => exact ok.freeHand valid
    | true => exact ok.unlinkHand valid
  | succ tries ih =>
    rw [Cache.evictFrom]
    cases valid : (c.slots c.hand).valid with
    | false => exact ok.freeHand valid
    | true =>
      cases (c.slots c.hand).ref with
      | false => exact ok.unlinkHand valid
      | true =>
        have later := ih (ok.advance.setSlot (i := c.hand) (s := { c.slots c.hand with ref := false }) rfl rfl rfl)
        have less := c.advance_less.trans (c.advance.setRef_less c.hand false)
        exact ⟨later.ok,less.trans later.less,later.inside,later.unused⟩

/-- A sector that had no slot gets one; the others keep theirs or lose it. -/
lemma Ok.slotNew {dev : Dev} (missing : c.slotFind dev lba = none) :
    (∃ more, (c.slotNew dev lba).1.Ok more) ∧ (c.slotNew dev lba).1.Owns (c.slotNew dev lba).2 dev lba ∧
      ∀ j, j ≠ (c.slotNew dev lba).2 → ∀ dev' lba', (c.slotNew dev lba).1.Owns j dev' lba' →
        c.Owns j dev' lba' ∧ ((c.slotNew dev lba).1.slots j).data = (c.slots j).data := by
  have evicted : c.Evicted c.slotEvict := ok.evictFrom _
  obtain ⟨rest,okRest⟩ := evicted.ok
  have absent := ok.slotFind_none missing
  rcases result : c.slotEvict with ⟨d,i⟩
  rw [result] at evicted okRest
  simp only [Cache.slotNew,result]
  have kept {j : Nat} (other : j ≠ i) {dev' : Dev} {lba' : UInt32}
      (owns : Owns { d with
        slots := update d.slots i { d.slots i with dev, lba, valid := true }
        chains := d.chains.push (bcacheHash dev lba) i } j dev' lba') : d.Owns j dev' lba' := by
    obtain ⟨inside,valid,sameDev,sameLba⟩ := owns
    simp only [update_of_ne other] at valid sameDev sameLba
    exact ⟨inside,valid,sameDev,sameLba⟩
  have fresh (b : Nat) : i ∉ rest b := fun member => by
    have valid := ((okRest.member b i).mp member).2.1
    rw [evicted.unused] at valid
    cases valid
  refine ⟨⟨_,okRest.linked.push _ fresh,fun b j => ?_,fun j k dev' lba' first second => ?_,okRest.hand⟩,?_,?_⟩
  · by_cases other : j = i
    · subst other
      by_cases bucket : b = bcacheHash dev lba
      · subst bucket
        simp [evicted.inside,Slot.bucket]
      · rw [update_of_ne bucket]
        simp [fresh b,Slot.bucket,Ne.symm bucket]
    · by_cases bucket : b = bcacheHash dev lba
      · subst bucket
        rw [update_self,List.mem_cons,or_iff_right other,okRest.member]
        simp [other]
      · rw [update_of_ne bucket,okRest.member]
        simp [other]
  · -- The new slot's sector had no slot, so only the new slot owns it.
    by_cases firstNew : j = i <;> by_cases secondNew : k = i
    · rw [firstNew,secondNew]
    · subst firstNew
      have sameDev : dev = dev' := by simpa using first.dev
      have sameLba : lba = lba' := by simpa using first.lba
      exact absurd (evicted.less.owns (kept secondNew second)) (sameDev ▸ sameLba ▸ absent k)
    · subst secondNew
      have sameDev : dev = dev' := by simpa using second.dev
      have sameLba : lba = lba' := by simpa using second.lba
      exact absurd (evicted.less.owns (kept firstNew first)) (sameDev ▸ sameLba ▸ absent j)
    · exact okRest.unique j k dev' lba' (kept firstNew first) (kept secondNew second)
  · exact ⟨evicted.inside,by simp,by simp,by simp⟩
  · intro j other dev' lba' owns
    refine ⟨evicted.less.owns (kept other owns),?_⟩
    simpa [other] using evicted.less.data j

end Table

lemma Ok.setData {c : Cache} (ok : c.Ok nodes) (owns : c.Owns i dev lba) (data : Sector) :
    (c.setSlot i { c.slots i with ref := true, data }).Ok nodes ∧
      ∀ dev' lba' data', (c.setSlot i { c.slots i with ref := true, data }).Holds dev' lba' data' →
        (dev' = dev ∧ lba' = lba ∧ data' = data) ∨
          ¬(dev' = dev ∧ lba' = lba) ∧ ∃ j, j ≠ i ∧ c.Owns j dev' lba' ∧ (c.slots j).data = data' := by
  refine ⟨ok.setSlot rfl rfl rfl,fun dev' lba' data' ⟨j,owner,same⟩ => ?_⟩
  obtain ⟨inside,valid,sameDev,sameLba⟩ := owner
  by_cases here : j = i
  · subst here
    simp only [Cache.setSlot,update_self] at sameDev sameLba same
    exact .inl ⟨sameDev.symm.trans owns.dev,sameLba.symm.trans owns.lba,same.symm⟩
  simp only [Cache.setSlot,update_of_ne here] at valid sameDev sameLba same
  have other : c.Owns j dev' lba' := ⟨inside,valid,sameDev,sameLba⟩
  refine .inr ⟨fun ⟨equalDev,equalLba⟩ => here ?_,j,here,other,same⟩
  exact ok.unique j i dev lba (equalDev ▸ equalLba ▸ other) owns

lemma Ok.slotStore {c : Cache} (ok : c.Ok nodes) (dev : Dev) (lba : UInt32) (data : Sector) :
    (∃ after, (c.slotStore dev lba data).Ok after) ∧
      ∀ dev' lba' data', (c.slotStore dev lba data).Holds dev' lba' data' →
        (dev' = dev ∧ lba' = lba ∧ data' = data) ∨ ¬(dev' = dev ∧ lba' = lba) ∧ c.Holds dev' lba' data' := by
  unfold Cache.slotStore
  cases found : c.slotFind dev lba with
  | some i =>
    obtain ⟨after,holds⟩ := ok.setData (ok.slotFind_iff.mp found) data
    refine ⟨⟨nodes,after⟩,fun dev' lba' data' held => ?_⟩
    rcases holds dev' lba' data' held with here | ⟨other,j,_,owns,same⟩
    · exact .inl here
    · exact .inr ⟨other,j,owns,same⟩
  | none =>
    obtain ⟨⟨more,okNew⟩,owns,kept⟩ := ok.slotNew found
    obtain ⟨after,holds⟩ := okNew.setData owns data
    refine ⟨⟨more,after⟩,fun dev' lba' data' held => ?_⟩
    rcases holds dev' lba' data' held with here | ⟨other,j,away,owner,same⟩
    · exact .inl here
    · obtain ⟨before,sameData⟩ := kept j away dev' lba' owner
      exact .inr ⟨other,j,before,sameData ▸ same⟩

lemma sector_iff (bound : n < 2^32) : x = sector lba n ↔ (x - lba).toNat = n := by
  have back : UInt32.ofNat n = x - lba ↔ (x - lba).toNat = n := by
    rw [← UInt32.toNat_inj,UInt32.toNat_ofNat_of_lt' bound]
    exact eq_comm
  rw [← back,sector]
  constructor
  · rintro rfl
    rw [UInt32.add_comm,UInt32.add_sub_cancel]
  · intro offset
    rw [offset,UInt32.add_comm,UInt32.sub_add_cancel]

lemma sector_self (lba x : UInt32) : sector lba (x - lba).toNat = x :=
  ((sector_iff (UInt32.toNat_lt _)).mpr rfl).symm

lemma before_succ (other : ¬(same ∧ k = n)) : same ∧ k < n + 1 ↔ same ∧ k < n := by
  rw [Nat.lt_succ_iff_lt_or_eq,and_or_left,or_iff_left other]

section Runs

variable {c : Cache} (ok : c.Ok nodes) (dev : Dev) (lba : UInt32)
include ok

lemma Ok.fill (out : Nat → Sector) {n : Nat} (bound : n ≤ 2^32) : (∃ after, (c.fill dev lba out n).Ok after) ∧
      ∀ dev' x data, (c.fill dev lba out n).Holds dev' x data →
        (dev' = dev ∧ (x - lba).toNat < n) ∧ data = out (x - lba).toNat ∨
          ¬(dev' = dev ∧ (x - lba).toNat < n) ∧ c.Holds dev' x data := by
  induction n with
  | zero => exact ⟨⟨nodes,ok⟩,fun dev' x data held => .inr ⟨by simp,held⟩⟩
  | succ n ih =>
    obtain ⟨⟨mid,okMid⟩,before⟩ := ih (by omega)
    obtain ⟨after,last⟩ := okMid.slotStore dev (sector lba n) (out n)
    refine ⟨after,fun dev' x data held => ?_⟩
    rcases last dev' x data held with ⟨sameDev,here,same⟩ | ⟨other,held⟩
    · have index := (sector_iff (by omega)).mp here
      exact .inl ⟨⟨sameDev,by omega⟩,by rw [index,same]⟩
    rw [sector_iff (by omega)] at other
    rcases before dev' x data held with ⟨⟨sameDev,early⟩,same⟩ | ⟨away,held⟩
    · exact .inl ⟨⟨sameDev,by omega⟩,same⟩
    · exact .inr ⟨mt (before_succ other).mp away,held⟩

lemma Ok.refresh (data : Nat → Sector) {n : Nat} (bound : n ≤ 2^32) : (c.refresh dev lba data n).Ok nodes ∧
      ∀ dev' x held, (c.refresh dev lba data n).Holds dev' x held →
        ∃ before, c.Holds dev' x before ∧
          held = if dev' = dev ∧ (x - lba).toNat < n then data (x - lba).toNat else before := by
  induction n with
  | zero => exact ⟨ok,fun dev' x held holds => ⟨held,holds,by simp⟩⟩
  | succ n ih =>
    obtain ⟨okMid,before⟩ := ih (by omega)
    rw [Cache.refresh]
    cases found : (c.refresh dev lba data n).slotFind dev (sector lba n) with
    | none =>
      refine ⟨okMid,fun dev' x held holds => ?_⟩
      obtain ⟨old,holdsOld,same⟩ := before dev' x held holds
      refine ⟨old,holdsOld,?_⟩
      obtain ⟨i,owns,_⟩ := holds
      have other : ¬(dev' = dev ∧ x = sector lba n) := by
        rintro ⟨rfl,rfl⟩
        exact okMid.slotFind_none found i owns
      rw [sector_iff (by omega)] at other
      rw [same]
      exact if_congr (before_succ other).symm rfl rfl
    | some i =>
      have owner := okMid.slotFind_iff.mp found
      obtain ⟨after,last⟩ := okMid.setData owner (data n)
      refine ⟨after,fun dev' x held holds => ?_⟩
      rcases last dev' x held holds with ⟨sameDev,here,same⟩ | ⟨other,j,_,owns,same⟩
      · obtain ⟨old,holdsOld,_⟩ := before dev (sector lba n) _ ⟨i,owner,rfl⟩
        have index := (sector_iff (by omega)).mp here
        refine ⟨old,sameDev ▸ here ▸ holdsOld,?_⟩
        rw [if_pos ⟨sameDev,by omega⟩,index,same]
      obtain ⟨old,holdsOld,same⟩ := before dev' x held ⟨j,owns,same⟩
      rw [sector_iff (by omega)] at other
      refine ⟨old,holdsOld,?_⟩
      rw [same]
      exact if_congr (before_succ other).symm rfl rfl

lemma Ok.copyOut (n : Nat) :
    (c.copyOut dev lba n).1.Ok nodes ∧ c.Less (c.copyOut dev lba n).1 ∧ (c.copyOut dev lba n).1.Less c ∧
      ∀ i, i < n → (c.slotFind dev (sector lba i)).isSome → c.Holds dev (sector lba i) ((c.copyOut dev lba n).2 i) := by
  induction n with
  | zero => exact ⟨ok,Less.refl c,Less.refl c,nofun⟩
  | succ n ih =>
    rcases mid : c.copyOut dev lba n with ⟨d,out⟩
    rw [mid] at ih
    obtain ⟨okMid,less,more,copied⟩ := ih
    simp only [Cache.copyOut,mid]
    cases found : d.slotFind dev (sector lba n) with
    | none =>
      refine ⟨okMid,less,more,fun i inside cached => ?_⟩
      have early : i < n := by
        rcases Nat.lt_succ_iff_lt_or_eq.mp inside with early | rfl
        · exact early
        · obtain ⟨j,found'⟩ := Option.isSome_iff_exists.mp cached
          exact absurd (more.owns (ok.slotFind_iff.mp found')) (okMid.slotFind_none found j)
      exact copied i early cached
    | some j =>
      refine ⟨okMid.setSlot rfl rfl rfl,less.trans (d.setRef_less j true),(d.setRef_more j true).trans more,
        fun i inside cached => ?_⟩
      dsimp only
      rcases Nat.lt_succ_iff_lt_or_eq.mp inside with early | rfl
      · rw [update_of_ne (by omega)]
        exact copied i early cached
      · rw [update_self]
        exact less.holds ⟨j,okMid.slotFind_iff.mp found,rfl⟩

lemma Ok.dropDevice {n : Nat} (bound : n ≤ bcacheSlots) :
    (∃ fewer, (c.dropDevice dev n).Ok fewer) ∧ c.Less (c.dropDevice dev n) := by
  induction n with
  | zero => exact ⟨⟨nodes,ok⟩,Less.refl c⟩
  | succ n ih =>
    obtain ⟨⟨mid,okMid⟩,less⟩ := ih (by omega)
    rw [Cache.dropDevice]
    by_cases valid : ((c.dropDevice dev n).slots n).valid = true
    · by_cases same : ((c.dropDevice dev n).slots n).dev = dev
      · simp only [valid,same,beq_self_eq_true,Bool.and_self,if_true]
        exact ⟨okMid.slotUnlink bound valid,less.trans (slotUnlink_less _ n)⟩
      · simp only [beq_false_of_ne same,Bool.and_false]
        exact ⟨⟨mid,okMid⟩,less⟩
    · simp only [valid,Bool.false_and]
      exact ⟨⟨mid,okMid⟩,less⟩

end Runs

lemma evictFrom_valid (tries : Nat) (c : Cache) (other : j ≠ (c.evictFrom tries).2) :
    ((c.evictFrom tries).1.slots j).valid = (c.slots j).valid := by
  have unlinked (c : Cache) (away : j ≠ c.hand) : ((c.advance.slotUnlink c.hand).slots j).valid =
    (c.slots j).valid := by
    simp [slotUnlink,advance,away]
  induction tries generalizing c with
  | zero =>
    rw [evictFrom] at other ⊢
    split
    · exact unlinked c other
    · rfl
  | succ tries ih =>
    rw [evictFrom] at other ⊢
    split_ifs at other ⊢ with unused idle
    · rfl
    · exact unlinked c other
    rw [ih _ other]
    by_cases here : j = c.hand <;> simp [setSlot,advance,here]

end Cache

/-- What a step does to the slot table is one of the operations above, or nothing. -/
lemma step_table (table : ∃ nodes, s.cache.Ok nodes) (e : Event) : ∃ nodes, (step s e).cache.Ok nodes := by
  obtain ⟨nodes,ok⟩ := table
  cases e with
  | readStart req =>
    rw [step,Sys.readStart]
    split_ifs
    · exact ⟨nodes,ok⟩
    · exact ⟨nodes,(ok.copyOut req.dev req.lba req.count.toNat).1⟩
    · exact ⟨nodes,ok⟩
  | readTransfer done =>
    rw [step]
    split
    · cases done <;> exact ⟨nodes,ok⟩
    · exact ⟨nodes,ok⟩
  | readFill =>
    rw [step]
    split
    next req buf _ _ => exact (ok.fill req.dev req.lba buf req.count.toNat_lt.le).1
    · exact ⟨nodes,ok⟩
  | writeStart req data =>
    rw [step]
    split_ifs
    · exact ⟨nodes,ok⟩
    · exact ⟨nodes,(ok.refresh req.dev req.lba data req.count.toNat_lt.le).1⟩
  | writeTransfer i | writeFails i written =>
    rw [step]
    split <;> exact ⟨nodes,ok⟩
  | invalidate dev =>
    rw [step,Cache.invalidate]
    split_ifs
    · exact ⟨nodes,ok⟩
    · obtain ⟨after,_⟩ := ok.dropDevice dev (Nat.le_refl bcacheSlots)
      simpa only using after

/-- After any calls, in any interleaving and with any answers of the devices, the chains partition the valid
slots by bucket, a search finds exactly the slot that holds the pair, and eviction gives up one slot only. -/
theorem table_partitioned (disk : Disk) (events : List Event) :
    ∃ chain, (Run.after step (Sys.boot disk) events).cache.Ok chain ∧
      (∀ dev lba i, (Run.after step (Sys.boot disk) events).cache.slotFind dev lba = some i ↔
        (Run.after step (Sys.boot disk) events).cache.Owns i dev lba) ∧
      ∀ d i, (Run.after step (Sys.boot disk) events).cache.slotEvict = (d,i) →
        i < bcacheSlots ∧ (∃ rest, d.Ok rest ∧ ∀ b, i ∉ rest b) ∧
        (Run.after step (Sys.boot disk) events).cache.Less d ∧
        ∀ j, j ≠ i → (d.slots j).valid = ((Run.after step (Sys.boot disk) events).cache.slots j).valid := by
  obtain ⟨chain,ok⟩ := Run.after_invariant (s := Sys.boot disk) (I := fun s => ∃ nodes, s.cache.Ok nodes)
    (fun _ e table => step_table table e) ⟨_,Cache.init_ok⟩ events
  refine ⟨chain,ok,fun _ _ _ => ok.slotFind_iff,fun d i result => ?_⟩
  have evicted := ok.evictFrom (bcacheSlots * 2)
  have others := fun j => Cache.evictFrom_valid (j := j) (bcacheSlots * 2) (Run.after step (Sys.boot disk) events).cache
  rw [Cache.slotEvict] at result
  rw [result] at evicted others
  obtain ⟨rest,okRest⟩ := evicted.ok
  refine ⟨evicted.inside,⟨rest,okRest,fun b member => ?_⟩,evicted.less,others⟩
  have valid := ((okRest.member b i).mp member).2.1
  rw [evicted.unused] at valid
  cases valid

end UbixOS.Bcache
