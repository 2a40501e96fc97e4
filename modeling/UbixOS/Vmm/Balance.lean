import UbixOS.Vmm.Frame

/-! The allocator against what its frames are used for. A use is a frame and whether it is
one of several copy-on-write uses; a table or a private page is a use of its own. -/
namespace UbixOS.Vmm

open Library Function Vm Multiset Finset

abbrev Uses := Multiset (Nat × Bool)

def Vm.available (vm : Vm) : Finset Nat := (Finset.range vm.numPages).filter fun f => (vm.info f).status = .memAvail

lemma Vm.mem_available {vm : Vm} : f ∈ vm.available ↔ f < vm.numPages ∧ (vm.info f).status = .memAvail := by
  simp [Vm.available]

lemma Vm.available_le (vm : Vm) : vm.available.card ≤ vm.numPages :=
  (Finset.card_filter_le _ _).trans_eq (Finset.card_range _)

/-- The memory map agrees with the uses: frames from `first` on are free unless used, the
counter is the number of copy-on-write uses, and any other use is the only one. -/
structure Balanced (first : Nat) (vm : Vm) (uses : Uses) : Prop where
  counter : ∀ f, (vm.info f).cowCounter = uses.count (f,true)
  sole : ∀ f, uses.count (f,false) ≤ 1
  apart : ∀ f, (f,false) ∈ uses → (f,true) ∉ uses
  usable : ∀ f b, (f,b) ∈ uses → first ≤ f ∧ f < vm.numPages
  avail : ∀ f, (vm.info f).status = .memAvail ↔ (first ≤ f ∧ f < vm.numPages) ∧ ∀ b, (f,b) ∉ uses
  free : vm.freePages = vm.available.card
  small : vm.numPages < 2^32
  noFiles : vm.cache.inactHead = none
  cursor : vm.hint = 0 ∨ vm.hint < vm.numPages

/-- What an operation on the map leaves alone. -/
structure Vm.SameRest (vm vm' : Vm) : Prop where
  numPages : vm'.numPages = vm.numPages
  cache : vm'.cache = vm.cache
  mem : vm'.mem = vm.mem

lemma Vm.SameRest.refl (vm : Vm) : vm.SameRest vm := ⟨rfl,rfl,rfl⟩

lemma Vm.SameRest.trans {vm vm'' : Vm} (first : vm.SameRest vm') (second : vm'.SameRest vm'') : vm.SameRest vm'' :=
  ⟨second.numPages.trans first.numPages,second.cache.trans first.cache,second.mem.trans first.mem⟩

lemma boot_balanced (numPages first : Nat) (mem : Nat → Page) (small : numPages < 2^32) :
    Balanced first (Vm.boot numPages first mem) 0 where
  counter _ := rfl
  sole _ := by simp
  apart _ := by simp
  usable _ _ := by simp
  avail f := by
    simp only [Vm.boot,Multiset.notMem_zero,not_false_eq_true,implies_true,and_true]
    split <;> simp_all
  free := by
    have interval : (Vm.boot numPages first mem).available = Finset.range numPages \ Finset.range first := by
      ext f
      rw [Vm.mem_available,Finset.mem_sdiff,Finset.mem_range,Finset.mem_range]
      simp only [Vm.boot]
      split <;> simp_all
      omega
    rw [interval,Finset.card_sdiff,Finset.card_range]
    have inter : Finset.range first ∩ Finset.range numPages = Finset.range (min first numPages) := by
      ext f
      simp
    rw [inter,Finset.card_range,Vm.boot]
    simp only
    omega
  small := small
  noFiles := rfl
  cursor := .inl rfl

lemma Vm.scan_free {vm : Vm} (found : vm.scan = some i) : (vm.info i).status = .memAvail := by
  have free := List.find?_some found
  simp only [isFree,Bool.and_eq_true,beq_iff_eq] at free
  exact free.1

section

variable (balanced : Balanced first vm uses)
include balanced

lemma Balanced.available_lt (f : Nat) (avail : (vm.info f).status = .memAvail) : f ∈ vm.available := by
  have usable := ((balanced.avail f).mp avail).1
  exact mem_available.mpr ⟨usable.2,avail⟩

/-- The scan comes past every frame. -/
lemma Balanced.scan_some (avail : (vm.info f).status = .memAvail) : ∃ i, vm.scan = some i := by
  obtain ⟨usable,unused⟩ := (balanced.avail f).mp avail
  have free : vm.isFree f = true := by
    simp [isFree,avail,balanced.counter f,count_eq_zero.mpr (unused true)]
  have cursor := balanced.cursor
  cases found : vm.scan with
  | some i => exact ⟨i,rfl⟩
  | none =>
    rw [scan,List.find?_eq_none] at found
    refine absurd free (found f (List.mem_map.mpr ?_))
    by_cases before : f < vm.hint
    · refine ⟨f + vm.numPages - vm.hint,List.mem_range.mpr (by omega),?_⟩
      rw [if_pos (by omega)]
      omega
    · refine ⟨f - vm.hint,List.mem_range.mpr (by omega),?_⟩
      rw [if_neg (by omega)]
      omega

lemma Balanced.take (pid : Int) (avail : (vm.info i).status = .memAvail) :
    Balanced first (vm.take pid i) ((i,false) ::ₘ uses) ∧ ∀ b, (i,b) ∉ uses := by
  obtain ⟨usable,unused⟩ := (balanced.avail i).mp avail
  refine ⟨⟨fun f => ?_,fun f => ?_,fun f => ?_,fun f b => ?_,fun f => ?_,?_,balanced.small,
    balanced.noFiles,?_⟩,unused⟩
  · have same : ((vm.take pid i).info f).cowCounter = (vm.info f).cowCounter := by
      by_cases here : f = i <;> simp [Vm.take,Vm.setInfo,here]
    rw [same,balanced.counter,Multiset.count_cons_of_ne (by simp)]
  · by_cases here : f = i
    · subst here
      rw [Multiset.count_cons_self,Multiset.count_eq_zero.mpr (unused false)]
    · rw [Multiset.count_cons_of_ne (by simp [here])]
      exact balanced.sole f
  · intro member
    rcases Multiset.mem_cons.mp member with same | member
    · cases same
      simpa using unused true
    · simpa using balanced.apart f member
  · intro member
    rcases Multiset.mem_cons.mp member with same | member
    · cases same
      exact usable
    · exact balanced.usable f b member
  · by_cases here : f = i
    · subst here
      simp only [Vm.take,Vm.setInfo,update_self,reduceCtorEq,false_iff]
      exact fun free => free.2 false (Multiset.mem_cons_self _ _)
    · simp only [Vm.take,Vm.setInfo,update_of_ne here,balanced.avail,Multiset.mem_cons,Prod.mk.injEq,here,
        false_and,false_or]
  · have member := balanced.available_lt i avail
    have fewer : (vm.take pid i).available = vm.available.erase i := by
      ext f
      rw [Vm.mem_available,Finset.mem_erase,Vm.mem_available]
      by_cases here : f = i <;> simp [Vm.take,Vm.setInfo,here]
    have positive := Finset.card_pos.mpr ⟨i,member⟩
    have bound := vm.available_le
    rw [fewer,Finset.card_erase_of_mem member]
    change (vm.freePages + (2^32 - 1)) % 2^32 = _
    rw [balanced.free]
    have := balanced.small
    omega
  · change (if i + 1 < vm.numPages then i + 1 else 0) = 0 ∨ (if i + 1 < vm.numPages then i + 1 else 0) < vm.numPages
    split
    · exact .inr ‹_›
    · exact .inl rfl

lemma Balanced.putBack (last : uses = (i,b) ::ₘ rest)
    (none : ∀ b, (i,b) ∉ rest) : Balanced first (vm.putBack i pid) rest := by
  subst last
  have usable := balanced.usable i b (mem_cons_self _ _)
  have used : (vm.info i).status ≠ .memAvail := fun avail =>
    ((balanced.avail i).mp avail).2 b (mem_cons_self _ _)
  have elsewhere {f : Nat} (other : f ≠ i) (c : Bool) : (f,c) ∈ (i,b) ::ₘ rest ↔ (f,c) ∈ rest := by
    simp [other]
  have counts {f : Nat} (other : f ≠ i) (c : Bool) : ((i,b) ::ₘ rest).count (f,c) = rest.count (f,c) :=
    count_cons_of_ne (by simp [other]) _
  refine ⟨fun f => ?_,fun f => ?_,fun f member => ?_,fun f c member => ?_,fun f => ?_,?_,balanced.small,
    balanced.noFiles,
    balanced.cursor⟩
  · by_cases here : f = i
    · subst here
      simp [putBack,setInfo,count_eq_zero.mpr (none true)]
    · simp [putBack,setInfo,here,balanced.counter,counts here]
  · by_cases here : f = i
    · subst here
      simp [count_eq_zero.mpr (none false)]
    · rw [← counts here]
      exact balanced.sole f
  · by_cases here : f = i
    · subst here
      exact absurd member (none false)
    · rw [← elsewhere here] at member ⊢
      exact balanced.apart f member
  · exact balanced.usable f c (mem_cons_of_mem member)
  · by_cases here : f = i
    · subst here
      simpa [putBack,setInfo,usable] using none
    · simp only [putBack,setInfo,update_of_ne here,balanced.avail,elsewhere here]
  have more : (vm.putBack i pid).available = insert i vm.available := by
    ext f
    rw [mem_insert,mem_available,mem_available]
    by_cases here : f = i <;> simp [putBack,setInfo,here,usable.2]
  have outside : i ∉ vm.available := fun member => used (mem_available.mp member).2
  have bound : (vm.putBack i pid).available.card ≤ vm.numPages := (vm.putBack i pid).available_le
  rw [more,card_insert_of_notMem outside] at bound
  rw [more,card_insert_of_notMem outside]
  change (vm.freePages + 1) % 2^32 = _
  rw [balanced.free]
  have := balanced.small
  omega

/-- The uses of one frame, already in use, become `n` copy-on-write uses. -/
lemma Balanced.setCounter {n : Nat} {uses' : Uses} (used : (i,b) ∈ uses) (positive : 0 < n)
    (shared : uses'.count (i,true) = n) (noOwner : (i,false) ∉ uses')
    (elsewhere : ∀ f c, f ≠ i → uses'.count (f,c) = uses.count (f,c)) :
    Balanced first (vm.setInfo i { vm.info i with cowCounter := n }) uses' := by
  have usable := balanced.usable i b used
  have member (f : Nat) (c : Bool) (other : f ≠ i) : (f,c) ∈ uses' ↔ (f,c) ∈ uses := by
    rw [← count_pos,← count_pos,elsewhere f c other]
  have here' : (i,true) ∈ uses' := count_pos.mp (shared ▸ positive)
  refine ⟨fun f => ?_,fun f => ?_,fun f inside => ?_,fun f c inside => ?_,fun f => ?_,?_,balanced.small,
    balanced.noFiles,
    balanced.cursor⟩
  · by_cases here : f = i
    · subst here
      simp [setInfo,shared]
    · simp [setInfo,here,balanced.counter,elsewhere f true here]
  · by_cases here : f = i
    · subst here
      simp [count_eq_zero.mpr noOwner]
    · rw [elsewhere f false here]
      exact balanced.sole f
  · by_cases here : f = i
    · subst here
      exact absurd inside noOwner
    · rw [member f _ here] at inside ⊢
      exact balanced.apart f inside
  · by_cases here : f = i
    · subst here
      exact usable
    · exact balanced.usable f c ((member f c here).mp inside)
  · by_cases here : f = i
    · subst here
      have before : (vm.info f).status ≠ .memAvail := fun avail => ((balanced.avail f).mp avail).2 b used
      simp only [setInfo,update_self,before,false_iff]
      exact fun free => free.2 true here'
    · simp only [setInfo,update_of_ne here,balanced.avail,member f _ here]
  · have same : (vm.setInfo i { vm.info i with cowCounter := n }).available = vm.available := by
      ext f
      rw [mem_available,mem_available]
      by_cases here : f = i <;> simp [setInfo,here]
    rw [same]
    exact balanced.free

lemma Balanced.dropCow (last : uses = (i,true) ::ₘ rest) : Balanced first (vm.adjustCowCounter i (-1)) rest := by
  have used : (i,true) ∈ uses := last ▸ mem_cons_self _ _
  have usable := balanced.usable i true used
  have noOwner : (i,false) ∉ rest := fun member =>
    balanced.apart i (last ▸ mem_cons_of_mem member) used
  have counter := balanced.counter i
  rw [last,count_cons_self] at counter
  have less : (vm.info i).cowCounter + -1 = rest.count (i,true) := by omega
  simp only [adjustCowCounter,if_neg (Nat.not_le.mpr usable.2),less]
  by_cases none : rest.count (i,true) = 0
  · rw [none,if_pos (by decide)]
    apply balanced.putBack last
    intro b
    cases b with
    | false => exact noOwner
    | true => exact count_eq_zero.mp none
  · rw [if_neg (by omega)]
    apply balanced.setCounter used (Nat.pos_of_ne_zero none) rfl noOwner
    intro f c other
    rw [last,count_cons_of_ne (by simp [other])]

lemma Balanced.addCow (used : (i,true) ∈ uses) : Balanced first (vm.adjustCowCounter i 1) ((i,true) ::ₘ uses) := by
  have usable := balanced.usable i true used
  have more : (vm.info i).cowCounter + 1 = ((uses.count (i,true) + 1 : Nat) : Int) := by
    rw [balanced.counter i]
    rfl
  simp only [adjustCowCounter,if_neg (Nat.not_le.mpr usable.2),more]
  rw [if_neg (by omega)]
  apply balanced.setCounter used (Nat.succ_pos _)
  · exact count_cons_self _ _
  · intro member
    rcases mem_cons.mp member with same | member
    · cases same
    · exact balanced.apart i member used
  · intro f c other
    rw [count_cons_of_ne (by simp [other])]

/-- The only use of a frame becomes two copy-on-write uses. -/
lemma Balanced.share (last : uses = (i,false) ::ₘ rest) :
    Balanced first (vm.adjustCowCounter i 2) ((i,true) ::ₘ (i,true) ::ₘ rest) := by
  have used : (i,false) ∈ uses := last ▸ mem_cons_self _ _
  have usable := balanced.usable i false used
  have noCow := count_eq_zero.mpr (balanced.apart i used)
  have sole := balanced.sole i
  have counter := balanced.counter i
  rw [noCow] at counter
  rw [last,count_cons_of_ne (by simp)] at noCow
  rw [last,count_cons_self] at sole
  simp only [adjustCowCounter,if_neg (Nat.not_le.mpr usable.2),counter]
  rw [if_neg (by decide)]
  apply balanced.setCounter used (n := 2) (by decide)
  · rw [count_cons_self,count_cons_self,noCow]
  · rw [← count_eq_zero,count_cons_of_ne (by simp),count_cons_of_ne (by simp)]
    omega
  intro f c other
  rw [last,count_cons_of_ne (by simp [other]),count_cons_of_ne (by simp [other]),
    count_cons_of_ne (by simp [other])]

lemma Balanced.freePage (last : uses = (i,b) ::ₘ rest) : Balanced first (vm.freePage i) rest := by
  have used : (i,b) ∈ uses := last ▸ Multiset.mem_cons_self _ _
  have usable := balanced.usable i b used
  rw [Vm.freePage,if_neg (Nat.not_le.mpr usable.2)]
  have counter := balanced.counter i
  cases b with
  | true =>
    rw [if_neg]
    · exact balanced.dropCow last
    · rw [counter,last,Multiset.count_cons_self]
      omega
  | false =>
    have noCow := balanced.apart i used
    have sole := balanced.sole i
    rw [last,Multiset.count_cons_self] at sole
    rw [if_pos (by rw [counter,Multiset.count_eq_zero.mpr noCow]; rfl)]
    apply balanced.putBack last
    intro b
    cases b with
    | false => exact Multiset.count_eq_zero.mp (by omega)
    | true => exact fun member => noCow (last ▸ Multiset.mem_cons_of_mem member)

lemma Balanced.evict : vm.evict = none := by
  simp [Vm.evict,Filecache.reclaim,balanced.noFiles]

omit balanced in
lemma Vm.SameRest.take (vm : Vm) (pid : Int) (i : Nat) : vm.SameRest (vm.take pid i) := ⟨rfl,rfl,rfl⟩

/-- A frame that `vmm_find_free_page` returns had no use and now has one. -/
lemma Balanced.find (run : (vmmFindFreePage pid).run vm = (.ok (some i),vm')) :
    Balanced first vm' ((i,false) ::ₘ uses) ∧ (∀ b, (i,b) ∉ uses) ∧ vm.SameRest vm' := by
  simp only [vmmFindFreePage,findFrom] at run
  split at run
  · cases run
  cases found : vm.scan with
  | none =>
    simp only [found,balanced.evict] at run
    split at run <;> cases run
  | some j =>
    simp only [found] at run
    cases run
    obtain ⟨after,unused⟩ := balanced.take pid (scan_free found)
    exact ⟨after,unused,.take vm pid i⟩

lemma Balanced.find_some (valid : sysID ≤ pid) (avail : (vm.info f).status = .memAvail) :
    ∃ i vm', (vmmFindFreePage pid).run vm = (.ok (some i),vm') := by
  obtain ⟨i,found⟩ := balanced.scan_some avail
  refine ⟨i,vm.take pid i,?_⟩
  simp [vmmFindFreePage,findFrom,found,Int.not_lt.mpr valid]

lemma Balanced.find_none (run : (vmmFindFreePage pid).run vm = (.ok none,vm')) : vm' = vm := by
  simp only [vmmFindFreePage,findFrom] at run
  split at run
  · cases run
  cases found : vm.scan with
  | none =>
    simp only [found,balanced.evict] at run
    split at run <;> cases run
    rfl
  | some j =>
    simp only [found] at run
    cases run

end

end UbixOS.Vmm
