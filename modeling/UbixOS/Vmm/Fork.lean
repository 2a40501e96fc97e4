import UbixOS.Vmm.Spaces

/-! Copy-on-write against copying: what a process reads is what it would read if a fork
had duplicated every page. -/
namespace UbixOS.Vmm

open Multiset (mem_cons_self mem_add cons_add)

open Library Function

variable {pte : Pte}

/-- The pages of a process that shares nothing. -/
abbrev Copy := Va → Option Page

/-- Processes in which a fork duplicates every page. -/
structure Copies where
  spaces : List (Option Copy)

namespace Copies

def space (c : Copies) (i : Nat) : Option Copy := c.spaces[i]?.join

def edit (c : Copies) (i : Nat) (f : Copy → Option Copy) : Copies :=
  match c.space i with
  | some copy => ⟨c.spaces.set i (f copy)⟩
  | none => c

def add (c : Copies) (copy : Copy) : Copies := ⟨c.spaces ++ [some copy]⟩

def load (c : Copies) (i : Nat) (va : Va) (off : Fin pageSize) : Option UInt8 :=
  (c.space i).bind fun copy => (copy va).map fun page => page off

/-- An event that was carried out. A fault by itself changes nothing. -/
def step (c : Copies) : Event → Copies
  | .create => c.add fun _ => none
  | .alloc i va page _ _ => c.edit i fun copy => some (update copy va (some page))
  | .fork i => match c.space i with
    | some copy => c.add copy
    | none => c
  | .cowFault _ _ _ => c
  | .store i va off byte _ => c.edit i fun copy =>
      some (update copy va ((copy va).map fun page => update page off byte))
  | .unmap i va => c.edit i fun copy => some (update copy va none)
  | .exit i => c.edit i fun _ => none

lemma edit_some (c : Copies) (i : Nat) : c.edit i some = c := by
  rw [edit]
  cases live : c.space i with
  | none => rfl
  | some copy =>
    obtain ⟨inside,here⟩ := List.getElem?_eq_some_iff.mp (Option.join_eq_some_iff.mp live)
    simp only [← here,List.set_getElem_self]

end Copies

def Vm.view (vm : Vm) (l1 : L1) : Copy := fun va => (l1.pte va).map fun pte => vm.mem pte.frame

namespace Sys

def load (s : Sys) (i : Nat) (va : Va) (off : Fin pageSize) : Option UInt8 :=
  (s.space i).bind fun l1 => (l1.pte va).map fun pte => s.vm.mem pte.frame off

def copies (s : Sys) : Copies := ⟨s.spaces.map (Option.map s.vm.view)⟩

/-- A call on a live space returns, and returns what `ok` asks for. -/
def succeeds (s : Sys) (i : Nat) (x : L1 → VmM α) (ok : α → Bool) : Bool :=
  match s.space i with
  | none => false
  | some l1 =>
    match ((x l1).run s.vm).1 with
    | .ok a => ok a
    | .error _ => false

/-- Whether the kernel carries the event out: the space is live, there is memory, and a
stored-to page is mapped. -/
def completes (s : Sys) (e : Event) : Bool :=
  !s.stopped &&
    match e with
    | .create => (pmapCreateUserSpace.run s.vm).1.isOk
    | .alloc i va page executable pid => s.succeeds i (fun l1 => mapNewPage l1 va page executable pid) Prod.fst
    | .fork i => s.succeeds i pmapForkCopy fun _ => true
    | .cowFault i va pid => s.succeeds i (fun l1 => pmapCowFault l1 va pid) fun _ => true
    | .store i va off byte pid => s.succeeds i (fun l1 => userStore l1 va off byte pid) Prod.fst
    | .unmap i va => s.succeeds i (fun l1 => mdUnmapUserPage l1 va) fun _ => true
    | .exit i => s.succeeds i pmapFreeUserSpace fun _ => true

end Sys

/-- The same events with copies: those that the kernel carries out. -/
def stepBoth (both : Sys × Copies) (e : Event) : Sys × Copies :=
  (step both.1 e,if both.1.completes e then both.2.step e else both.2)

lemma L1.use_mem (mapped : l1.pte va = some pte) : (pte.frame,pte.cow) ∈ L1.uses l1 := by
  rw [L1.uses_of_pte mapped]
  exact mem_cons_self _ _

lemma Vm.view_update {vm vm' : Vm} {l1 : L1} (unused : ∀ b, (frame,b) ∉ L1.uses l1)
    (mem : vm'.mem = update vm.mem frame page) : vm'.view l1 = vm.view l1 := by
  funext va
  rw [Vm.view,Vm.view]
  cases mapped : l1.pte va with
  | none => rfl
  | some pte =>
    have other : pte.frame ≠ frame := fun same => unused pte.cow (same ▸ L1.use_mem mapped)
    simp [mem,other]

lemma mem_sum_map {α β : Type} {weight : α → Multiset β} {xs : List α} {x : α} {b : β} (member : x ∈ xs)
    (inside : b ∈ weight x) : b ∈ (xs.map weight).sum := by
  induction xs with
  | nil => cases member
  | cons y ys ih =>
    rw [List.map_cons,List.sum_cons,mem_add]
    rcases List.mem_cons.mp member with rfl | member
    · exact .inl inside
    · exact .inr (ih member)

namespace Sys

variable {s : Sys}

lemma others_mem {j : Nat} (live : s.space j = some l1) (other : j ≠ i) {use : Nat × Bool} (used : use ∈ L1.uses l1) :
    use ∈ s.others i := by
  obtain ⟨inside,here⟩ := List.getElem?_eq_some_iff.mp (space_get live)
  have member : some l1 ∈ s.spaces.eraseIdx i := List.mem_eraseIdx_iff_getElem.mpr ⟨j,inside,other,here⟩
  exact mem_sum_map member used

lemma copies_space (s : Sys) (i : Nat) : s.copies.space i = (s.space i).map s.vm.view := by
  rw [Copies.space,copies,space,List.getElem?_map]
  cases s.spaces[i]? with
  | none => rfl
  | some space => cases space <;> rfl

lemma copies_load (s : Sys) (i : Nat) (va : Va) (off : Fin pageSize) : s.copies.load i va off = s.load i va off := by
  rw [Copies.load,copies_space,load]
  cases s.space i with
  | none => rfl
  | some l1 => cases mapped : l1.pte va <;> simp [Vm.view,mapped]

def Elsewhere (s : Sys) (i : Nat) (vm' : Vm) : Prop :=
  ∀ j l2, j ≠ i → s.space j = some l2 → vm'.view l2 = s.vm.view l2

lemma elsewhere_mem (same : vm'.mem = s.vm.mem) : s.Elsewhere i vm' := by
  intro j l2 _ _
  unfold Vm.view
  rw [same]

lemma elsewhere_update (unused : ∀ b, (frame,b) ∉ s.others i)
    (mem : vm'.mem = update s.vm.mem frame page) : s.Elsewhere i vm' :=
  fun _ _ other live => Vm.view_update (fun b used => unused b (others_mem live other used)) mem

section
variable (live : s.space i = some l1) (elsewhere : s.Elsewhere i vm')
include live elsewhere

omit live in
lemma copies_put (x : Option L1) :
    (({ s with vm := vm' } : Sys).put i x).copies = ⟨s.copies.spaces.set i (x.map vm'.view)⟩ := by
  simp only [copies,put,Copies.mk.injEq]
  apply List.ext_getElem?
  intro j
  rw [List.getElem?_map,List.getElem?_set,List.getElem?_set,List.length_map]
  by_cases here : i = j
  · simp [here]
  rw [if_neg here,if_neg here,List.getElem?_map]
  cases found : s.spaces[j]? with
  | none => rfl
  | some space =>
    cases space with
    | none => rfl
    | some l2 =>
      have same := elsewhere j l2 (Ne.symm here) (by rw [Sys.space,found]; rfl)
      simp [same]

lemma copies_edit (here : x.map vm'.view = f (s.vm.view l1)) :
    (({ s with vm := vm' } : Sys).put i x).copies = s.copies.edit i f := by
  rw [copies_put elsewhere,Copies.edit,copies_space,live,here]
  rfl

lemma copies_same
    (here : vm'.view l1' = s.vm.view l1) : (({ s with vm := vm' } : Sys).put i (some l1')).copies = s.copies := by
  have edited : (({ s with vm := vm' } : Sys).put i (some l1')).copies = s.copies.edit i some :=
    copies_edit live elsewhere (by rw [Option.map_some,here])
  rw [edited,Copies.edit_some]

end

end Sys

namespace Vm

variable {vm vm' : Vm}

lemma view_clear (mem : vm'.mem = vm.mem) (pages : ∀ w, l1'.pte w = if w = va then none else l1.pte w) :
    vm'.view l1' = update (vm.view l1) va none := by
  funext w
  unfold view
  rw [pages,mem]
  by_cases here : w = va
  · subst here
    simp
  · simp [here]

lemma view_marked (mem : vm'.mem = vm.mem) (pages : ∀ w, l1'.pte w = (l1.pte w).map Pte.marked) :
    vm'.view l1' = vm.view l1 := by
  funext w
  unfold view
  rw [pages,mem,Option.map_map]
  rfl

lemma view_fresh (unused : ∀ b, (frame,b) ∉ L1.uses l1)
    (mem : vm'.mem = update vm.mem frame page) (there : pte.frame = frame)
    (pages : ∀ w, l1'.pte w = if w = va then some pte else l1.pte w) :
    vm'.view l1' = update (vm.view l1) va (some page) := by
  funext w
  have others := congrFun (view_update unused mem) w
  by_cases here : w = va
  · subst here
    simp [view,pages,mem,there]
  · rw [update_of_ne here,← others]
    simp [view,pages,here]

lemma view_store (balanced : Balanced first vm (L1.uses l1 + rest))
    (mapped : l1.pte va = some pte) (single : pte.cow = false) (mem : vm'.mem = update vm.mem pte.frame page) :
    vm'.view l1 = update (vm.view l1) va (some page) ∧ ∀ b, (pte.frame,b) ∉ rest := by
  have use : pte.use = (pte.frame,false) := by rw [Pte.use,single]
  rw [L1.uses_of_pte mapped,use] at balanced
  have sole := balanced.sole pte.frame
  rw [cons_add,Multiset.count_cons_self] at sole
  have away (b : Bool) : (pte.frame,b) ∉ L1.uses (l1.putPte va none) + rest := by
    cases b with
    | false => exact Multiset.count_eq_zero.mp (by omega)
    | true =>
      have apart := balanced.apart pte.frame (by rw [cons_add]; exact mem_cons_self _ _)
      rw [cons_add] at apart
      exact fun member => apart (Multiset.mem_cons_of_mem member)
  have cleared := L1.putPte_pte (L1.hasTables_of_pte mapped) none
  refine ⟨?_,fun b member => away b (mem_add.mpr (.inr member))⟩
  have restored (w : Va) : l1.pte w = if w = va then some pte else (l1.putPte va none).pte w := by
    rw [cleared]
    by_cases here : w = va
    · rw [if_pos here,here,mapped]
    · rw [if_neg here,if_neg here]
  have fresh := view_fresh (fun b member => away b (mem_add.mpr (.inl member))) mem rfl restored
  rw [fresh,view_clear rfl cleared,update_idem]

end Vm

section Steps

variable (good : Good first s)
include good

omit good in
/-- A call on one space shows as an edit of one copy when it succeeds, and not at all otherwise. -/
lemma Sys.copies_onSpace (x : L1 → VmM α) (shows : ∀ l1 a vm', s.space i = some l1 → (x l1).run s.vm = (.ok a,vm') →
      (done a { s with vm := vm' }).copies = if ok a then after else s.copies) :
    (s.onSpace i x done).copies = if s.succeeds i x ok then after else s.copies := by
  rw [Sys.onSpace,Sys.succeeds]
  cases live : s.space i with
  | none => rfl
  | some l1 =>
    obtain ⟨result,run⟩ : ∃ result, (x l1).run s.vm = result := ⟨_,rfl⟩
    simp only [Sys.finish,run]
    rcases result with ⟨_ | a,vm'⟩
    · rfl
    · exact shows l1 a vm' live run

section
variable (live : s.space i = some l1)
include live

lemma Good.shows_alloc (run : (mapNewPage l1 va page executable pid).run s.vm = (.ok r,vm')) :
    (({ s with vm := vm' } : Sys).put i (some r.2)).copies =
      if r.1 then s.copies.step (.alloc i va page executable pid) else s.copies := by
  obtain ⟨done,l1'⟩ := r
  obtain ⟨_,⟨rfl,rfl,mem⟩ | ⟨frame,rfl,unused,mem,pages⟩⟩ := (good.alone live).mapNewPage (good.own i l1 live) run
  · refine Sys.copies_same live (Sys.elsewhere_mem mem) ?_
    unfold Vm.view
    rw [mem]
  · refine Sys.copies_edit live (Sys.elsewhere_update (fun b used => unused b (mem_add.mpr (.inr used))) mem) ?_
    exact congrArg some (Vm.view_fresh (fun b used => unused b (mem_add.mpr (.inl used))) mem rfl pages)

lemma Good.shows_store (run : (userStore l1 va off byte pid).run s.vm = (.ok r,vm')) :
    (({ s with vm := vm' } : Sys).put i (some r.2)).copies =
      if r.1 then s.copies.step (.store i va off byte pid) else s.copies := by
  obtain ⟨done,l1'⟩ := r
  have alone := good.alone live
  have page {pte : Pte} (mapped : l1.pte va = some pte) :
      some (update (s.vm.mem pte.frame) off byte) =
        (s.vm.view l1 va).map fun page => update page off byte := by
    simp [Vm.view,mapped]
  obtain ⟨_,⟨rfl,rfl,mem⟩ | ⟨pte,rfl,mapped,single,rfl,mem⟩ | ⟨pte,neu,rfl,mapped,unused,mem,pages⟩⟩ :=
    alone.userStore (good.own i l1 live) run
  · refine Sys.copies_same live (Sys.elsewhere_mem mem) ?_
    unfold Vm.view
    rw [mem]
  · obtain ⟨view,unused⟩ := Vm.view_store alone mapped single mem
    refine Sys.copies_edit live (Sys.elsewhere_update unused mem) ?_
    rw [Option.map_some,view,page mapped]
  · refine Sys.copies_edit live (Sys.elsewhere_update (fun b used => unused b (mem_add.mpr (.inr used))) mem) ?_
    have view := Vm.view_fresh (fun b used => unused b (mem_add.mpr (.inl used))) mem rfl pages
    rw [Option.map_some,view,page mapped]

lemma Good.shows_cowFault (run : (pmapCowFault l1 va pid).run s.vm = (.ok r,vm')) :
    (({ s with vm := vm' } : Sys).put i (some r.2)).copies = s.copies := by
  obtain ⟨retry,l1'⟩ := r
  obtain ⟨_,_,⟨rfl,mem,-⟩ | ⟨pte,neu,-,mapped,-,unused,mem,pages⟩⟩ :=
    (good.alone live).cowFault (good.own i l1 live) run
  · refine Sys.copies_same live (Sys.elsewhere_mem mem) ?_
    unfold Vm.view
    rw [mem]
  refine Sys.copies_same live (Sys.elsewhere_update (fun b used => unused b (mem_add.mpr (.inr used))) mem) ?_
  rw [Vm.view_fresh (fun b used => unused b (mem_add.mpr (.inl used))) mem rfl pages]
  apply update_eq_self_iff.mpr
  simp [Vm.view,mapped]

lemma Good.shows_fork (run : (pmapForkCopy l1).run s.vm = (.ok r,vm')) :
    ((({ s with vm := vm' } : Sys).put i (some r.1)).add r.2).copies = s.copies.step (.fork i) := by
  obtain ⟨parent,child⟩ := r
  obtain ⟨_,same,pages⟩ := (good.alone live).forkCopy (good.own i l1 live) run
  have shared := Sys.copies_same live (Sys.elsewhere_mem same.mem) (Vm.view_marked same.mem fun w => (pages w).1)
  have copy : vm'.view child = s.vm.view l1 := Vm.view_marked same.mem fun w => (pages w).2
  have appended : ((({ s with vm := vm' } : Sys).put i (some parent)).add child).copies =
      (({ s with vm := vm' } : Sys).put i (some parent)).copies.add (vm'.view child) := by
    simp [Sys.copies,Sys.add,Sys.put,Copies.add]
  rw [appended,shared,copy,Copies.step,Sys.copies_space,live]
  rfl

end

/-- Each event shows in the processes as it would with copies. -/
lemma Good.copies_step (e : Event) : (step s e).copies = if s.completes e then s.copies.step e else s.copies := by
  unfold step Sys.completes
  cases stopped : s.stopped with
  | true => rfl
  | false =>
    simp only [Bool.false_eq_true,if_false,Bool.not_false,Bool.true_and]
    cases e with
    | create =>
      rw [Sys.finish]
      rcases run : pmapCreateUserSpace.run s.vm with ⟨_ | l1,vm'⟩
      · rfl
      obtain ⟨_,same,empty⟩ := good.balanced.create run
      have view : vm'.view = s.vm.view := by
        funext l2 w
        rw [Vm.view,Vm.view,same.mem]
      have new : s.vm.view l1 = fun _ => none := by
        funext w
        rw [Vm.view,empty]
        rfl
      simp [Sys.copies,Sys.add,Copies.step,Copies.add,view,new,Except.isOk,Except.toBool]
    | alloc i va page executable pid => exact s.copies_onSpace _ fun l1 r vm' live run => good.shows_alloc live run
    | fork i => exact s.copies_onSpace _ fun l1 r vm' live run => good.shows_fork live run
    | cowFault i va pid =>
      refine s.copies_onSpace _ fun l1 r vm' live run => ?_
      exact good.shows_cowFault live run
    | store i va off byte pid => exact s.copies_onSpace _ fun l1 r vm' live run => good.shows_store live run
    | unmap i va =>
      refine s.copies_onSpace _ fun l1 l1' vm' live run => ?_
      obtain ⟨_,same,pages⟩ := (good.alone live).unmap (good.own i l1 live) run
      exact Sys.copies_edit live (Sys.elsewhere_mem same.mem) (congrArg some (Vm.view_clear same.mem pages))
    | exit i =>
      refine s.copies_onSpace _ fun l1 _ vm' live run => ?_
      obtain ⟨_,same⟩ := (good.alone live).freeSpace (good.own i l1 live) run
      exact Sys.copies_edit live (Sys.elsewhere_mem same.mem) rfl

end Steps

lemma Balanced.userStore_ok
    (balanced : Balanced first vm (L1.uses l1 + rest)) (own : l1.Private) (mapped : l1.pte va = some pte)
    (off : Fin pageSize) (byte : UInt8) (valid : sysID ≤ pid)
    (avail : (vm.info f).status = .memAvail) :
    ∃ l1' vm', (Vmm.userStore l1 va off byte pid).run vm = (.ok (true,l1'),vm') := by
  rw [Vmm.userStore]
  cases ro : pte.ro with
  | false =>
    simp only [mapped,ro,Bool.false_eq_true,if_false,Fallible.run_modify_bind,Fallible.run_pure]
    exact ⟨_,_,rfl⟩
  | true =>
    obtain ⟨neu,mid,found⟩ := balanced.find_some valid avail
    have ownPage := own va pte mapped
    have cow : pte.cow = true := ownPage.ro.symm.trans ro
    have here := (L1.putPte_pte (L1.hasTables_of_pte mapped) (some (pte.copied neu)) va).trans (if_pos rfl)
    have fault : (pmapCowFault l1 va pid).run vm = (.ok (true,l1.putPte va (some (pte.copied neu))),
        (mid.setPage neu (mid.mem pte.frame)).adjustCowCounter pte.frame (-1)) := by
      rw [pmapCowFault,Fallible.run_bind_of_ok found]
      simp [mapped,cow,ownPage.shared]
    simp only [mapped,ro,if_true]
    rw [Fallible.run_bind_of_ok fault]
    simp only [here,Fallible.run_modify_bind,Fallible.run_pure]
    exact ⟨_,_,rfl⟩

lemma run_copies (numPages : UInt32) (first : Nat) (mem : Nat → Page) (events : List Event) :
    Good first (Run.after stepBoth (Sys.boot numPages first mem,⟨[]⟩) events).1 ∧
      (Run.after stepBoth (Sys.boot numPages first mem,⟨[]⟩) events).2 =
        (Run.after stepBoth (Sys.boot numPages first mem,⟨[]⟩) events).1.copies := by
  apply Run.after_invariant (I := fun both : Sys × Copies => Good first both.1 ∧ both.2 = both.1.copies)
  · rintro ⟨s,c⟩ e ⟨good,same⟩
    change c = s.copies at same
    subst same
    exact ⟨step_good good e,(good.copies_step e).symm⟩
  · exact ⟨run_good numPages first mem [],rfl⟩

/-- Every load returns what it would return with copies. An event is left out of the run with
copies only where the kernel did not carry it out, and it carries out every store to a
mapped page of a live process while a frame is available. -/
theorem fork_isolated (numPages : UInt32) (first : Nat) (mem : Nat → Page) (events : List Event) :
    let both := Run.after stepBoth (Sys.boot numPages first mem,⟨[]⟩) events
    (∀ i va off, both.1.load i va off = both.2.load i va off) ∧
    ∀ i va off byte pid f, both.1.stopped = false → (both.2.load i va off).isSome → sysID ≤ pid →
      (both.1.vm.info f).status = .memAvail → both.1.completes (.store i va off byte pid) = true := by
  intro both
  obtain ⟨good,same⟩ := run_copies numPages first mem events
  have loads (i : Nat) (va : Va) (off : Fin pageSize) : both.1.load i va off = both.2.load i va off := by
    rw [same,Sys.copies_load]
  refine ⟨loads,fun i va off byte pid f running mapped valid avail => ?_⟩
  rw [← loads,Sys.load] at mapped
  obtain ⟨value,found⟩ := Option.isSome_iff_exists.mp mapped
  obtain ⟨l1,live,found⟩ := Option.bind_eq_some_iff.mp found
  obtain ⟨pte,here,_⟩ := Option.map_eq_some_iff.mp found
  obtain ⟨l1',vm',run⟩ := (good.alone live).userStore_ok (good.own i l1 live) here off byte valid avail
  rw [Sys.completes,running]
  simp only [Sys.succeeds,live]
  rw [run]
  rfl

/-- A page, a fork, and a store by the parent. -/
def parentWrites : List Event :=
  [.create,.alloc 0 ⟨0,0,0⟩ Bytes.zero false 1,.fork 0,.store 0 ⟨0,0,0⟩ 0 7 1]

theorem fork_isolated_child :
    let both := Run.after stepBoth (Sys.boot 16 1 fun _ => Bytes.zero,⟨[]⟩) parentWrites
    both.1.load 0 ⟨0,0,0⟩ 0 = some 7 ∧ both.1.load 1 ⟨0,0,0⟩ 0 = some 0 ∧
      both.1.completes (.store 1 ⟨0,0,0⟩ 0 9 2) = true := by
  have isolated := fork_isolated 16 1 (fun _ => Bytes.zero) parentWrites
  refine ⟨?_,?_,isolated.2 1 ⟨0,0,0⟩ 0 9 2 15 ?_ ?_ (by decide) ?_⟩
  · rw [isolated.1]
    decide +kernel
  · rw [isolated.1]
    decide +kernel
  all_goals decide +kernel

end UbixOS.Vmm
