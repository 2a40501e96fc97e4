import UbixOS.Library.Run
import UbixOS.Vmm.Balance
import UbixOS.Vmm.Pmap

/-! The frames that page tables hold, over every run of allocations, forks, faults, unmaps
and exits. -/
namespace UbixOS.Vmm

open Multiset (cons_add count count_add singleton_add mem_add)

open Library Function

variable {child' l1' parent parent' : L1} {pte : Pte}

namespace Table

variable {α : Type} {M : Type} [AddCommMonoid M]

/-- The sum over the used slots. -/
@[irreducible] def total (weight : α → M) (t : Table α) : M := (t.slots.map fun x => weight x.2).sum

lemma total_eq_sum (weight : α → M) (t : Table α) : t.total weight = ∑ i, (t.slot i).elim 0 weight := by
  unfold total slots
  rw [Fin.sum_univ_def]
  induction List.finRange 512 with
  | nil => rfl
  | cons i rest ih => cases slot : t.slot i <;> simp [slot,ih]

@[simp] lemma total_new (weight : α → M) (frame : Nat) : (new frame : Table α).total weight = 0 := by
  simp [total_eq_sum,new]

lemma total_put (weight : α → M) (t : Table α) (i : Idx) (x : Option α) :
    (t.put i x).total weight + (t.slot i).elim 0 weight = t.total weight + x.elim 0 weight := by
  rw [total_eq_sum,total_eq_sum,← Finset.add_sum_erase _ _ (Finset.mem_univ i),
    ← Finset.add_sum_erase _ (fun j => (t.slot j).elim 0 weight) (Finset.mem_univ i)]
  have rest : ∑ j ∈ Finset.univ.erase i, ((t.put i x).slot j).elim 0 weight =
      ∑ j ∈ Finset.univ.erase i, (t.slot j).elim 0 weight := by
    apply Finset.sum_congr rfl
    intro j member
    simp only [put,update_of_ne (Finset.ne_of_mem_erase member)]
  have here : (t.put i x).slot i = x := update_self ..
  rw [rest,here]
  abel

/-- A table's own frame and what its slots use. -/
def uses (weight : α → Uses) (t : Table α) : Uses := (t.frame,false) ::ₘ t.total weight

lemma uses_put (weight : α → Uses) (t : Table α) (i : Idx) (x : Option α) :
    (t.put i x).uses weight + (t.slot i).elim 0 weight = t.uses weight + x.elim 0 weight := by
  have total := t.total_put weight i x
  rw [uses,uses,cons_add,cons_add,← total]
  rfl

lemma uses_new (weight : α → Uses) (frame : Nat) : (new frame : Table α).uses weight = {(frame,false)} := by
  rw [uses,total_new]
  rfl

end Table

def Pte.use (pte : Pte) : Nat × Bool := (pte.frame,pte.cow)

def L3.uses (l3 : L3) : Uses := Table.uses (fun pte => {pte.use}) l3
def L2.uses (l2 : L2) : Uses := Table.uses L3.uses l2
def L1.uses (l1 : L1) : Uses := Table.uses L2.uses l1

def pteUses (pte : Option Pte) : Uses := pte.elim 0 fun pte => {pte.use}

@[simp] lemma pteUses_none : pteUses none = 0 := rfl
@[simp] lemma pteUses_some (pte : Pte) : pteUses (some pte) = {pte.use} := rfl

namespace L1

variable {l1 : L1}

lemma pte_eq (l1 : L1) (va : Va) :
    l1.pte va = (l1.slot va.i1).bind fun l2 => (l2.slot va.i2).bind fun l3 => l3.slot va.i3 := by
  rw [L1.pte]
  cases l1.slot va.i1 with
  | none => rfl
  | some l2 => cases second : l2.slot va.i2 <;> simp [second]

/-- A path rewritten down to one descriptor, where the tables on it held what the old path held. -/
lemma pte_put {l2 : L2} {l3 : L3} (second : ∀ j, l2.slot j = (l1.slot va.i1).bind (·.slot j))
    (third : ∀ j, l3.slot j = (l2.slot va.i2).bind (·.slot j)) (x : Option Pte) (w : Va) :
    L1.pte (l1.put va.i1 (some (l2.put va.i2 (some (l3.put va.i3 x))))) w = if w = va then x else l1.pte w := by
  rw [pte_eq,pte_eq]
  obtain ⟨i1,i2,i3⟩ := va
  obtain ⟨j1,j2,j3⟩ := w
  simp only [Table.put] at second third ⊢
  by_cases first : j1 = i1
  · subst first
    by_cases same : j2 = i2
    · subst same
      by_cases here : j3 = i3
      · simp [here]
      · simp [here,third,second,Option.bind_assoc]
    · simp [same,second,Option.bind_assoc]
  · simp [first]

/-- The descriptor of `va` can be written without a new table. -/
def HasTables (l1 : L1) (va : Va) : Prop := ∃ l2 l3, l1.slot va.i1 = some l2 ∧ l2.slot va.i2 = some l3

lemma hasTables_of_pte (mapped : l1.pte va = some pte) : l1.HasTables va := by
  rw [pte_eq] at mapped
  obtain ⟨l2,first,mapped⟩ := Option.bind_eq_some_iff.mp mapped
  obtain ⟨l3,second,_⟩ := Option.bind_eq_some_iff.mp mapped
  exact ⟨l2,l3,first,second⟩

lemma putPte_pte (tables : l1.HasTables va) (x : Option Pte) (w : Va) :
    (l1.putPte va x).pte w = if w = va then x else l1.pte w := by
  obtain ⟨l2,l3,first,second⟩ := tables
  simp only [putPte,first,second]
  exact pte_put (by simp [first]) (by simp [second]) x w

lemma uses_path (l1 : L1) (l2 : L2) (l3 : L3) (va : Va) (x : Option Pte) :
    L1.uses (l1.put va.i1 (some (l2.put va.i2 (some (l3.put va.i3 x))))) + (l1.slot va.i1).elim 0 L2.uses +
        (l2.slot va.i2).elim 0 L3.uses + pteUses (l3.slot va.i3) =
      L1.uses l1 + L2.uses l2 + L3.uses l3 + pteUses x := by
  have third := Table.uses_put (fun pte => ({pte.use} : Uses)) l3 va.i3 x
  have inner := Table.uses_put L3.uses l2 va.i2 (some (l3.put va.i3 x))
  have outer := Table.uses_put L2.uses l1 va.i1 (some (l2.put va.i2 (some (l3.put va.i3 x))))
  ext use
  have third := congrArg (count use) third
  have inner := congrArg (count use) inner
  have outer := congrArg (count use) outer
  simp only [count_add,Option.elim_some,L1.uses,L2.uses,L3.uses,pteUses] at third inner outer ⊢
  omega

lemma uses_putPte (tables : l1.HasTables va) (x : Option Pte) :
    L1.uses (l1.putPte va x) + pteUses (l1.pte va) = L1.uses l1 + pteUses x := by
  obtain ⟨l2,l3,first,second⟩ := tables
  have path := uses_path l1 l2 l3 va x
  simp only [putPte,pte,first,second,Option.elim_some] at path ⊢
  ext use
  have path := congrArg (count use) path
  simp only [count_add] at path ⊢
  omega

end L1

section

variable (balanced : Balanced first vm uses)
include balanced

/-- `extra` is the frame of a table that had to be allocated. -/
lemma Balanced.tableNext (run : (tableNext t i).run vm = (.ok next,vm')) :
    ∃ extra, Balanced first vm' (extra + uses) ∧ vm.SameRest vm' ∧
      (∀ weight, next.uses weight = extra + (t.slot i).elim 0 (Table.uses weight)) ∧
      ∀ j, next.slot j = (t.slot i).bind (·.slot j) := by
  rw [Vmm.tableNext] at run
  cases slot : t.slot i with
  | some old =>
    simp only [slot,Fallible.run_pure] at run
    cases run
    exact ⟨0,by rwa [zero_add],.refl vm,by simp,by simp⟩
  | none =>
    simp only [slot] at run
    obtain ⟨frame,mid,found,run⟩ := Fallible.run_bind_ok.mp run
    cases frame with
    | none => cases run
    | some frame =>
      cases run
      obtain ⟨after,_,same⟩ := balanced.find found
      exact ⟨{(frame,false)},after,same,fun weight => by simp [Table.uses_new],fun j => rfl⟩

lemma Balanced.mapPage {l1 : L1} (run : (pmapMapPage l1 va pte).run vm = (.ok l1',vm')) :
    ∃ extra, Balanced first vm' (extra + uses) ∧ vm.SameRest vm' ∧
      L1.uses l1' + pteUses (l1.pte va) = extra + L1.uses l1 + {pte.use} ∧
      ∀ w, l1'.pte w = if w = va then some pte else l1.pte w := by
  obtain ⟨l2,mid,outer,run⟩ := Fallible.run_bind_ok.mp run
  obtain ⟨l3,last,inner,run⟩ := Fallible.run_bind_ok.mp run
  cases run
  obtain ⟨extra1,balanced1,same1,uses1,slots1⟩ := balanced.tableNext outer
  obtain ⟨extra2,balanced2,same2,uses2,slots2⟩ := balanced1.tableNext inner
  refine ⟨extra2 + extra1,by rwa [add_assoc],same1.trans same2,?_,L1.pte_put slots1 slots2 (some pte)⟩
  have old : l1.pte va = l3.slot va.i3 := by
    rw [L1.pte_eq,slots2,slots1,Option.bind_assoc]
  have path := L1.uses_path l1 l2 l3 va (some pte)
  have table1 : L2.uses l2 = extra1 + (l1.slot va.i1).elim 0 L2.uses := uses1 L3.uses
  have table2 : L3.uses l3 = extra2 + (l2.slot va.i2).elim 0 L3.uses := uses2 fun pte => {pte.use}
  rw [old]
  ext use
  have path := congrArg (count use) path
  have table1 := congrArg (count use) table1
  have table2 := congrArg (count use) table2
  simp only [count_add,pteUses_some] at path table1 table2 ⊢
  omega

end

namespace Table

lemma mem_slots {t : Table α} {i : Idx} {x : α} : (i,x) ∈ t.slots ↔ t.slot i = some x := by
  simp only [slots,List.mem_filterMap,List.mem_finRange,true_and]
  constructor
  · rintro ⟨j,found⟩
    obtain ⟨y,slot,same⟩ := Option.map_eq_some_iff.mp found
    cases same
    exact slot
  · intro slot
    exact ⟨i,by rw [slot]; rfl⟩

lemma slots_nodup (t : Table α) : (t.slots.map Prod.fst).Nodup := by
  have sublist : (t.slots.map Prod.fst).Sublist (List.finRange 512) := by
    unfold slots
    induction List.finRange 512 with
    | nil => exact .slnil
    | cons i rest ih =>
      cases slot : t.slot i with
      | none => simpa [slot] using ih.cons i
      | some x => simpa [slot] using ih.cons_cons i
  exact sublist.nodup (List.nodup_finRange 512)

end Table

lemma L1.mem_entries {l1 : L1} {va : Va} : (va,pte) ∈ l1.entries ↔ l1.pte va = some pte := by
  obtain ⟨i1,i2,i3⟩ := va
  simp only [L1.entries,List.mem_flatMap,List.mem_map,Prod.exists,Prod.mk.injEq,Va.mk.injEq,L1.pte_eq,
    Option.bind_eq_some_iff,Table.mem_slots]
  constructor
  · rintro ⟨j1,l2,first,j2,l3,second,j3,found,third,⟨rfl,rfl,rfl⟩,rfl⟩
    exact ⟨l2,first,l3,second,third⟩
  · rintro ⟨l2,first,l3,second,third⟩
    exact ⟨i1,l2,first,i2,l3,second,i3,pte,third,⟨rfl,rfl,rfl⟩,rfl⟩

lemma nodup_flatMap_keys {α β κ : Type} {xs : List (κ × α)} {f : κ × α → List β} (key : β → κ)
    (keys : (xs.map Prod.fst).Nodup) (each : ∀ x ∈ xs, (f x).Nodup) (under : ∀ x ∈ xs, ∀ y ∈ f x, key y = x.1) :
    (xs.flatMap f).Nodup := by
  induction xs with
  | nil => exact List.nodup_nil
  | cons x xs ih =>
    obtain ⟨other,keys⟩ := List.nodup_cons.mp keys
    rw [List.flatMap_cons,List.nodup_append]
    refine ⟨each x List.mem_cons_self,ih keys (fun y member => each y (.tail x member))
      fun y member => under y (.tail x member),fun y first z second => ?_⟩
    rintro rfl
    obtain ⟨x',member,inside⟩ := List.mem_flatMap.mp second
    have same := (under x List.mem_cons_self y first).symm.trans (under x' (.tail x member) y inside)
    exact other (List.mem_map.mpr ⟨x',member,same.symm⟩)

lemma L1.entries_nodup (l1 : L1) : (l1.entries.map Prod.fst).Nodup := by
  simp only [L1.entries,List.map_flatMap,List.map_map]
  refine nodup_flatMap_keys Va.i1 l1.slots_nodup (fun (i1,l2) _ => ?_) ?_
  · refine nodup_flatMap_keys Va.i2 l2.slots_nodup (fun (i2,l3) _ => ?_) ?_
    · apply List.Nodup.of_map Va.i3
      simpa [Function.comp_def] using l3.slots_nodup
    simp only [List.mem_map,Prod.exists,forall_exists_index,and_imp]
    rintro _ _ _ _ _ _ rfl
    rfl
  · simp only [List.mem_map,List.mem_flatMap,Prod.exists,forall_exists_index,and_imp]
    rintro _ _ _ _ _ _ _ _ _ rfl
    rfl

/-- A page of the process itself: read-only exactly while it is shared with a relative. -/
structure Pte.Private (pte : Pte) : Prop where
  shared : pte.shared = false
  wired : pte.wired = false
  ro : pte.ro = pte.cow

def L1.Private (l1 : L1) : Prop := ∀ va pte, l1.pte va = some pte → pte.Private

lemma L1.Private.put {l1 : L1} (own : l1.Private) {va : Va} {new : Option Pte}
    (pages : ∀ w, l1'.pte w = if w = va then new else l1.pte w) (ownNew : ∀ pte, new = some pte → pte.Private) :
    l1'.Private := by
  intro w pte here
  rw [pages] at here
  split at here
  · exact ownNew pte here
  · exact own w pte here

lemma Pte.Private.marked (own : pte.Private) : pte.marked.Private := ⟨own.shared,own.wired,rfl⟩

lemma Balanced.setPage (balanced : Balanced first vm uses) (i : Nat)
    (page : Page) : Balanced first (vm.setPage i page) uses :=
  ⟨balanced.counter,balanced.sole,balanced.apart,balanced.usable,balanced.avail,balanced.free,balanced.small,
    balanced.noFiles,balanced.cursor⟩

lemma Vm.SameRest.adjust (vm : Vm) (i : Nat) (adjustment : Int) : vm.SameRest (vm.adjustCowCounter i adjustment) := by
  simp only [Vm.adjustCowCounter]
  split
  · exact .refl vm
  · split <;> exact ⟨rfl,rfl,rfl⟩

lemma Vm.SameRest.freePage (vm : Vm) (i : Nat) : vm.SameRest (vm.freePage i) := by
  rw [Vm.freePage]
  split
  · exact .refl vm
  split
  · exact ⟨rfl,rfl,rfl⟩
  · exact .adjust vm i (-1)

lemma Pte.Private.release (own : pte.Private) (vm : Vm) : vm.release pte = vm.freePage pte.frame := by
  simp [Vm.release,own.shared,own.wired]

lemma L1.uses_of_pte (mapped : l1.pte va = some pte) : L1.uses l1 = pte.use ::ₘ L1.uses (l1.putPte va none) := by
  have change := L1.uses_putPte (L1.hasTables_of_pte mapped) none
  rw [mapped,pteUses_none,pteUses_some,add_zero] at change
  rw [← change,← singleton_add,add_comm]

open L1 (pte uses pte_eq uses_of_pte)

lemma L1.uses_replace {l1 : L1} (mapped : l1.pte va = some pte) (new : Pte) :
    uses (l1.putPte va (some new)) = new.use ::ₘ uses (l1.putPte va none) := by
  have change := L1.uses_putPte (L1.hasTables_of_pte mapped) (some new)
  rw [uses_of_pte mapped,mapped,pteUses_some,pteUses_some] at change
  ext use
  have change := congrArg (count use) change
  simp only [count_add,Multiset.count_cons,Multiset.count_singleton] at change ⊢
  omega

section

lemma Balanced.unmap (balanced : Balanced first vm (uses l1 + rest)) (own : l1.Private)
    (run : (mdUnmapUserPage l1 va).run vm = (.ok l1',vm')) :
    Balanced first vm' (uses l1' + rest) ∧ vm.SameRest vm' ∧ ∀ w, l1'.pte w = if w = va then none else l1.pte w := by
  rw [mdUnmapUserPage] at run
  cases mapped : l1.pte va with
  | none =>
    simp only [mapped] at run
    cases run
    refine ⟨balanced,.refl vm,fun w => ?_⟩
    split
    next here => rw [here,mapped]
    · rfl
  | some pte =>
    simp only [mapped,(own va pte mapped).release] at run
    cases run
    refine ⟨?_,.freePage vm pte.frame,L1.putPte_pte (L1.hasTables_of_pte mapped) none⟩
    apply balanced.freePage (b := pte.cow)
    rw [uses_of_pte mapped,cons_add]
    rfl

lemma Balanced.create (balanced : Balanced first vm rest)
    (run : pmapCreateUserSpace.run vm = (.ok l1,vm')) :
    Balanced first vm' (uses l1 + rest) ∧ vm.SameRest vm' ∧ ∀ w, l1.pte w = none := by
  obtain ⟨frame,mid,found,run⟩ := Fallible.run_bind_ok.mp run
  cases frame with
  | none => cases run
  | some frame =>
    cases run
    obtain ⟨after,_,same⟩ := balanced.find found
    refine ⟨?_,same,fun w => rfl⟩
    rw [uses,Table.uses_new]
    exact after

lemma Balanced.forkPage
    (balanced : Balanced first vm (uses parent + uses child + rest)) (mapped : parent.pte va = some pte)
    (own : pte.Private) (unmapped : child.pte va = none)
    (run : (forkPage (parent,child) (va,pte)).run vm = (.ok (parent',child'),vm')) :
    Balanced first vm' (uses parent' + uses child' + rest) ∧ vm.SameRest vm' ∧
      (∀ w, parent'.pte w = if w = va then some pte.marked else parent.pte w) ∧
      ∀ w, child'.pte w = if w = va then some pte.marked else child.pte w := by
  have member : (pte.frame,pte.cow) ∈ uses parent + uses child + rest := by
    rw [uses_of_pte mapped,cons_add,cons_add]
    exact Multiset.mem_cons_self _ _
  have inside := (balanced.usable pte.frame pte.cow member).2
  simp only [Vmm.forkPage,Fallible.run_get_bind,own.wired,Bool.false_eq_true,Nat.not_le.mpr inside,own.shared,
    or_self,if_false] at run
  cases cow : pte.cow with
  | true =>
    have same : pte.marked = pte := by
      rw [Pte.marked,← cow]
      nth_rewrite 1 [← own.ro]
      rfl
    simp only [cow,if_true] at run
    obtain ⟨new,mid,mapping,run⟩ := Fallible.run_bind_ok.mp run
    cases run
    obtain ⟨extra,after,rest1,uses1,pages⟩ := balanced.mapPage mapping
    rw [cow] at member
    have shared := after.addCow (mem_add.mpr (.inr member))
    refine ⟨?_,rest1.trans (.adjust ..),fun w => ?_,by rwa [same]⟩
    · rw [unmapped,pteUses_none,add_zero] at uses1
      have regroup : uses parent + uses child' + rest =
          (pte.frame,true) ::ₘ (extra + (uses parent + uses child + rest)) := by
        rw [uses1,Pte.use,cow,← singleton_add]
        abel
      rw [regroup]
      exact shared
    · split
      next here => rw [here,mapped,same]
      · rfl
  | false =>
    simp only [cow,Bool.false_eq_true,if_false] at run
    obtain ⟨new,mid,mapping,run⟩ := Fallible.run_bind_ok.mp run
    cases run
    obtain ⟨extra,after,rest1,uses1,pages⟩ := balanced.mapPage mapping
    have tables := L1.hasTables_of_pte mapped
    refine ⟨?_,rest1.trans (.adjust ..),L1.putPte_pte tables (some pte.marked),pages⟩
    rw [unmapped,pteUses_none,add_zero] at uses1
    have before : extra + (uses parent + uses child + rest) =
        (pte.frame,false) ::ₘ (extra + (uses (parent.putPte va none) + uses child + rest)) := by
      rw [uses_of_pte mapped,Pte.use,cow,← singleton_add,← singleton_add]
      abel
    have regroup : uses (parent.putPte va (some pte.marked)) + uses child' + rest =
        (pte.frame,true) ::ₘ (pte.frame,true) ::ₘ (extra + (uses (parent.putPte va none) + uses child + rest)) := by
      rw [L1.uses_replace mapped,uses1]
      simp only [Pte.use,Pte.marked,← singleton_add]
      abel
    have shared := after.share before
    rw [← regroup] at shared
    exact shared

/-- The pages still to be shared are mapped in the parent only; those done are marked in both. -/
lemma Balanced.forkPages {pages : List (Va × Pte)} {child : L1}
    (balanced : Balanced first vm (uses parent + uses child + rest)) (distinct : (pages.map Prod.fst).Nodup)
    (mapped : ∀ page ∈ pages, parent.pte page.1 = some page.2 ∧ page.2.Private ∧ child.pte page.1 = none)
    (run : (pages.foldlM Vmm.forkPage (parent,child)).run vm = (.ok (parent',child'),vm')) :
    Balanced first vm' (uses parent' + uses child' + rest) ∧ vm.SameRest vm' ∧
      (∀ page ∈ pages, parent'.pte page.1 = some page.2.marked ∧ child'.pte page.1 = some page.2.marked) ∧
      ∀ w, w ∉ pages.map Prod.fst → parent'.pte w = parent.pte w ∧ child'.pte w = child.pte w := by
  induction pages generalizing vm parent child with
  | nil =>
    cases run
    exact ⟨balanced,.refl _,nofun,fun w _ => ⟨rfl,rfl⟩⟩
  | cons page pages ih =>
    obtain ⟨va,pte⟩ := page
    obtain ⟨⟨parent1,child1⟩,mid,once,run⟩ := Fallible.run_bind_ok.mp run
    obtain ⟨here,own,absent⟩ := mapped _ List.mem_cons_self
    obtain ⟨fresh,distinct⟩ := List.nodup_cons.mp distinct
    obtain ⟨after,same1,parentPages,childPages⟩ := balanced.forkPage here own absent once
    have away {page : Va × Pte} (member : page ∈ pages) : page.1 ≠ va := fun same =>
      fresh (List.mem_map.mpr ⟨page,member,same⟩)
    obtain ⟨final,same2,done,others⟩ := ih after distinct (fun page member => by
      obtain ⟨before,ownPage,free⟩ := mapped page (.tail _ member)
      rw [parentPages,childPages,if_neg (away member),if_neg (away member)]
      exact ⟨before,ownPage,free⟩) run
    refine ⟨final,same1.trans same2,fun page member => ?_,fun w outside => ?_⟩
    · rcases List.mem_cons.mp member with rfl | member
      · obtain ⟨inParent,inChild⟩ := others va fresh
        exact ⟨(inParent.trans (parentPages va)).trans (if_pos rfl),(inChild.trans (childPages va)).trans (if_pos rfl)⟩
      · exact done page member
    · rw [List.map_cons,List.mem_cons,not_or] at outside
      obtain ⟨inParent,inChild⟩ := others w outside.2
      rw [inParent,inChild,parentPages,childPages,if_neg outside.1,if_neg outside.1]
      exact ⟨rfl,rfl⟩

/-- After a fork parent and child map the same pages, all copy-on-write. -/
lemma Balanced.forkCopy (balanced : Balanced first vm (uses parent + rest))
    (own : parent.Private) (run : (pmapForkCopy parent).run vm = (.ok (parent',child'),vm')) :
    Balanced first vm' (uses parent' + uses child' + rest) ∧ vm.SameRest vm' ∧
      ∀ w, parent'.pte w = (parent.pte w).map Pte.marked ∧ child'.pte w = (parent.pte w).map Pte.marked := by
  obtain ⟨child,mid,create,run⟩ := Fallible.run_bind_ok.mp run
  obtain ⟨created,same1,empty⟩ := balanced.create create
  rw [← add_assoc,add_comm (uses child)] at created
  obtain ⟨final,same2,done,others⟩ := created.forkPages parent.entries_nodup (fun (va,pte) member => by
    have here := L1.mem_entries.mp member
    exact ⟨here,own va pte here,empty va⟩) run
  refine ⟨final,same1.trans same2,fun w => ?_⟩
  cases here : parent.pte w with
  | some pte => exact done (w,pte) (L1.mem_entries.mpr here)
  | none =>
    have outside : w ∉ parent.entries.map Prod.fst := fun member => by
      obtain ⟨⟨w',pte⟩,inside,same⟩ := List.mem_map.mp member
      cases same
      rw [L1.mem_entries.mp inside] at here
      cases here
    obtain ⟨inParent,inChild⟩ := others w outside
    rw [inParent,inChild,here,empty]
    exact ⟨rfl,rfl⟩

section
variable (balanced : Balanced first vm (L1.uses l1 + rest)) (own : l1.Private)
include balanced own

/-- A fault on a copy-on-write page gives the writer a frame of its own with the same bytes; any
other fault changes nothing that is mapped. -/
lemma Balanced.cowFault (run : (pmapCowFault l1 va pid).run vm = (.ok (retry,l1'),vm')) :
    Balanced first vm' (uses l1' + rest) ∧ vm'.numPages = vm.numPages ∧
      ((l1' = l1 ∧ vm'.mem = vm.mem ∧ (retry = true → ∃ pte, l1.pte va = some pte ∧ pte.ro = false)) ∨
        ∃ pte neu, retry = true ∧ l1.pte va = some pte ∧ pte.cow = true ∧ (∀ b, (neu,b) ∉ uses l1 + rest) ∧
          vm'.mem = update vm.mem neu (vm.mem pte.frame) ∧
          ∀ w, l1'.pte w = if w = va then some (pte.copied neu) else l1.pte w) := by
  obtain ⟨frame,mid,found,run⟩ := Fallible.run_bind_ok.mp run
  cases frame with
  | none =>
    cases run
    cases balanced.find_none found
    exact ⟨balanced,rfl,.inl ⟨rfl,rfl,nofun⟩⟩
  | some neu =>
    obtain ⟨taken,unused,same⟩ := balanced.find found
    have returned : Balanced first (mid.freePage neu) (uses l1 + rest) := taken.freePage rfl
    have kept := same.trans (.freePage mid neu)
    cases mapped : l1.pte va with
    | none =>
      simp only [mapped] at run
      cases run
      exact ⟨returned,kept.numPages,.inl ⟨rfl,kept.mem,nofun⟩⟩
    | some pte =>
      have private_ := own va pte mapped
      cases cow : pte.cow with
      | false =>
        simp only [mapped,cow,private_.shared] at run
        cases run
        exact ⟨returned,kept.numPages,.inl ⟨rfl,kept.mem,fun _ => ⟨pte,rfl,private_.ro.trans cow⟩⟩⟩
      | true =>
        simp only [mapped,cow,private_.shared,Bool.not_true,Bool.false_and,Bool.false_eq_true,if_false,
          Fallible.run_modify_bind] at run
        cases run
        have counted : Balanced first (mid.setPage neu (mid.mem pte.frame))
            ((pte.frame,true) ::ₘ (neu,false) ::ₘ (uses (l1.putPte va none) + rest)) := by
          rw [uses_of_pte mapped,Pte.use,cow,cons_add,Multiset.cons_swap] at taken
          exact taken.setPage neu _
        have moved := counted.dropCow rfl
        rw [← cons_add] at moved
        refine ⟨?_,?_,.inr ⟨pte,neu,rfl,rfl,cow,unused,?_,?_⟩⟩
        · rw [L1.uses_replace mapped]
          exact moved
        · exact (Vm.SameRest.adjust ..).numPages.trans same.numPages
        · refine (Vm.SameRest.adjust ..).mem.trans ?_
          rw [← same.mem]
          rfl
        · exact L1.putPte_pte (L1.hasTables_of_pte mapped) _

/-- A new page takes the place of what was mapped, in a frame nobody used. -/
lemma Balanced.mapNewPage (run : (mapNewPage l1 va page executable pid).run vm = (.ok (done,l1'),vm')) :
    Balanced first vm' (uses l1' + rest) ∧
      ((done = false ∧ l1' = l1 ∧ vm'.mem = vm.mem) ∨
        ∃ frame, done = true ∧ (∀ b, (frame,b) ∉ uses l1 + rest) ∧
          vm'.mem = update vm.mem frame page ∧
          ∀ w, l1'.pte w = if w = va then some ⟨frame,executable,false,false,false,false⟩ else l1.pte w) := by
  obtain ⟨frame,mid,found,run⟩ := Fallible.run_bind_ok.mp run
  cases frame with
  | none =>
    cases run
    cases balanced.find_none found
    exact ⟨balanced,.inl ⟨rfl,rfl,rfl⟩⟩
  | some frame =>
    obtain ⟨taken,unused,same1⟩ := balanced.find found
    rw [← Multiset.add_cons] at taken
    obtain ⟨cleared,mid2,unmap,run⟩ := Fallible.run_bind_ok.mp run
    obtain ⟨unmapped,same2,pages2⟩ := taken.unmap own unmap
    rw [Fallible.run_modify_bind] at run
    obtain ⟨filled,mid3,map,run⟩ := Fallible.run_bind_ok.mp run
    cases run
    obtain ⟨extra,mapped,same3,uses3,pages3⟩ := (unmapped.setPage frame page).mapPage map
    refine ⟨?_,.inr ⟨frame,rfl,unused,?_,fun w => ?_⟩⟩
    · rw [pages2,if_pos rfl,pteUses_none,add_zero] at uses3
      rw [uses3]
      convert mapped using 1
      rw [← singleton_add]
      simp only [Pte.use]
      abel
    · rw [same3.mem,← same1.mem,← same2.mem]
      rfl
    · rw [pages3,pages2]
      split <;> rfl

/-- A store either does not happen, is made in a frame that only this page uses, or goes to
a fresh copy of a shared page. -/
lemma Balanced.userStore (run : (userStore l1 va off byte pid).run vm = (.ok (done,l1'),vm')) :
    Balanced first vm' (uses l1' + rest) ∧
      ((done = false ∧ l1' = l1 ∧ vm'.mem = vm.mem) ∨
        (∃ pte, done = true ∧ l1.pte va = some pte ∧ pte.cow = false ∧ l1' = l1 ∧
          vm'.mem = update vm.mem pte.frame (update (vm.mem pte.frame) off byte)) ∨
        ∃ pte neu, done = true ∧ l1.pte va = some pte ∧ (∀ b, (neu,b) ∉ uses l1 + rest) ∧
          vm'.mem = update vm.mem neu (update (vm.mem pte.frame) off byte) ∧
          ∀ w, l1'.pte w = if w = va then some (pte.copied neu) else l1.pte w) := by
  rw [Vmm.userStore] at run
  cases mapped : l1.pte va with
  | none =>
    simp only [mapped] at run
    cases run
    exact ⟨balanced,.inl ⟨rfl,rfl,rfl⟩⟩
  | some pte =>
    have ownPage := own va pte mapped
    simp only [mapped] at run
    cases ro : pte.ro with
    | false =>
      simp only [ro,Bool.false_eq_true,if_false,Fallible.run_modify_bind] at run
      cases run
      exact ⟨balanced.setPage ..,.inr (.inl ⟨pte,rfl,rfl,ownPage.ro.symm.trans ro,rfl,rfl⟩)⟩
    | true =>
      simp only [ro,if_true] at run
      obtain ⟨⟨retry,l2⟩,mid,fault,run⟩ := Fallible.run_bind_ok.mp run
      obtain ⟨after,_,unchanged | ⟨pte',neu,rfl,mapped',cow,unused,mem,pages⟩⟩ := balanced.cowFault own fault
      · obtain ⟨rfl,mem,resolved⟩ := unchanged
        cases retry with
        | false =>
          cases run
          exact ⟨after,.inl ⟨rfl,rfl,mem⟩⟩
        | true =>
          obtain ⟨pte',mapped',writable⟩ := resolved rfl
          rw [mapped] at mapped'
          cases mapped'
          rw [ro] at writable
          cases writable
      · rw [mapped] at mapped'
        cases mapped'
        have here : l2.pte va = some (pte.copied neu) := (pages va).trans (if_pos rfl)
        simp only [here,Fallible.run_modify_bind] at run
        cases run
        refine ⟨after.setPage ..,.inr (.inr ⟨pte,neu,rfl,rfl,unused,?_,pages⟩)⟩
        simp [Vm.storeByte,Vm.setPage,Pte.copied,mem]

end

/-- Tearing a table down: what its slots use is given back one by one, then the table's own frame. -/
lemma Balanced.freeTable {α : Type} {weight : α → Uses} {act : Vm → α → Vm} {Own : α → Prop}
    (step : ∀ vm x rest, Own x → Balanced first vm (weight x + rest) →
      Balanced first (act vm x) rest ∧ vm.SameRest (act vm x))
    {t : Table α} (own : ∀ i x, t.slot i = some x → Own x) (balanced : Balanced first vm (t.uses weight + rest)) :
    Balanced first ((t.slots.foldl (fun vm x => act vm x.2) vm).freePage t.frame) rest ∧
      vm.SameRest ((t.slots.foldl (fun vm x => act vm x.2) vm).freePage t.frame) := by
  have all : ∀ x ∈ t.slots, Own x.2 := fun (i,x) member => own i x (Table.mem_slots.mp member)
  unfold Table.uses Table.total at balanced
  suffices slots : Balanced first (t.slots.foldl (fun vm x => act vm x.2) vm) ((t.frame,false) ::ₘ rest) ∧
      vm.SameRest (t.slots.foldl (fun vm x => act vm x.2) vm) from
    ⟨slots.1.freePage rfl,slots.2.trans (.freePage ..)⟩
  generalize t.slots = slots at balanced all ⊢
  induction slots generalizing vm with
  | nil => exact ⟨by simpa using balanced,.refl vm⟩
  | cons x slots ih =>
    have regroup : (t.frame,false) ::ₘ ((x :: slots).map fun x => weight x.2).sum + rest =
        weight x.2 + ((t.frame,false) ::ₘ (slots.map fun x => weight x.2).sum + rest) := by
      rw [List.map_cons,List.sum_cons,← singleton_add,← singleton_add]
      abel
    rw [regroup] at balanced
    obtain ⟨after,same⟩ := step vm x.2 _ (all x List.mem_cons_self) balanced
    obtain ⟨final,same'⟩ := ih after fun y member => all y (.tail x member)
    exact ⟨final,same.trans same'⟩

lemma Balanced.freeSpace {l1 : L1} (balanced : Balanced first vm (uses l1 + rest)) (own : l1.Private)
    (run : (pmapFreeUserSpace l1).run vm = (.ok (),vm')) : Balanced first vm' rest ∧ vm.SameRest vm' := by
  rw [pmapFreeUserSpace,Fallible.run_modify,Prod.mk.injEq] at run
  obtain ⟨_,rfl⟩ := run
  have page (vm : Vm) (pte : Pte) (rest : Uses) (own : pte.Private) (balanced : Balanced first vm ({pte.use} + rest)) :
      Balanced first (vm.release pte) rest ∧ vm.SameRest (vm.release pte) := by
    rw [own.release]
    exact ⟨balanced.freePage rfl,.freePage ..⟩
  have third (vm : Vm) (l3 : L3) (rest : Uses) (own : ∀ i pte, l3.slot i = some pte → pte.Private)
      (balanced : Balanced first vm (L3.uses l3 + rest)) :
      Balanced first (vm.freeL3 l3) rest ∧ vm.SameRest (vm.freeL3 l3) := freeTable page own balanced
  have second (vm : Vm) (l2 : L2) (rest : Uses)
      (own : ∀ i (l3 : L3), l2.slot i = some l3 → ∀ j pte, l3.slot j = some pte → pte.Private)
      (balanced : Balanced first vm (L2.uses l2 + rest)) :
      Balanced first (vm.freeL2 l2) rest ∧ vm.SameRest (vm.freeL2 l2) := freeTable third own balanced
  refine freeTable second (fun i1 l2 first i2 l3 second i3 pte third => own ⟨i1,i2,i3⟩ pte ?_) balanced
  simp [pte_eq,first,second,third]

end

end UbixOS.Vmm
