import UbixOS.Posix.Descrip

/-! The reference counts of pipes, directory handles and open files are exact. -/
namespace UbixOS.Posix.Descrip

open Library Pipe Function State List Finset

/-- Every count is the number of entries; an object is there as long as some entry holds it,
and was freed once otherwise. -/
structure Exact (s : State) : Prop where
  counts : ∀ r, r.obj ∈ s.live → s.count r = s.holders r
  held : ∀ o, o ∈ s.live ↔ ∃ k r, s.link k = some r ∧ r.obj = o
  once : s.released.Nodup
  made : ∀ o, o ∈ s.made ↔ o ∈ s.live ∨ o ∈ s.released
  apart : ∀ o ∈ s.live, o ∉ s.released
  number : ∀ o ∈ s.made, o.number < s.made.length
  inside : ∀ k, s.slot k ≠ none → k ∈ s.keys
  fault : s.fault = false

variable {s s' s'' : State}

lemma count_add (s : State) (d : Int) (r r' : Ref) : (s.add d r).count r' = s.count r' + if r' = r then d else 0 := by
  cases r with
  | pipe n e =>
    cases e <;> cases r' with
    | pipe m e' =>
      cases e' <;> by_cases same : m = n
      all_goals simp [State.add,State.count,same]
    | dir m | file m => simp [State.add,State.count]
  | dir n =>
    cases r' with
    | pipe m e' => cases e' <;> simp [State.add,State.count]
    | dir m =>
      by_cases same : m = n
      all_goals simp [State.add,State.count,same]
    | file m => simp [State.add,State.count]
  | file n =>
    cases r' with
    | pipe m e' => cases e' <;> simp [State.add,State.count]
    | dir m => simp [State.add,State.count]
    | file m =>
      by_cases same : m = n
      · subst same
        simp [State.add,State.count]
        omega
      · simp [State.add,State.count,same]

lemma add_other (s : State) (d : Int) (r : Ref) : ∃ rfdCNT wfdCNT dirRefs dup,
    s.add d r = { s with rfdCNT := rfdCNT, wfdCNT := wfdCNT, dirRefs := dirRefs, dup := dup } := by
  cases r with
  | pipe n e => cases e <;> exact ⟨_,_,_,_,rfl⟩
  | dir n | file n => exact ⟨_,_,_,_,rfl⟩

/-- The part of the state that only `fork`, `rfork` and `exit` change. -/
structure Same (s s' : State) : Prop where
  fdt : s'.fdt = s.fdt
  tasks : s'.tasks = s.tasks
  refs : s'.refs = s.refs
  tables : s'.tables = s.tables

lemma Same.refl (s : State) : Same s s := ⟨rfl,rfl,rfl,rfl⟩

lemma Same.trans (first : Same s s') (second : Same s' s'') : Same s s'' :=
  ⟨second.fdt.trans first.fdt,second.tasks.trans first.tasks,second.refs.trans first.refs,
    second.tables.trans first.tables⟩

lemma link_update (slot : s'.slot = update s.slot k x) : s'.link = update s.link k (x.bind File.ref) := by
  funext j
  rw [link,slot]
  by_cases here : j = k
  · subst here
    simp
  · simp [here,link]

lemma holders_slot (slot : s'.slot = update s.slot k x) (tables : s'.tables = s.tables) (inside : k ∈ s.keys)
    (r : Ref) : (s'.holders r : Int) =
      s.holders r + (if x.bind File.ref = some r then 1 else 0) - if s.link k = some r then 1 else 0 := by
  have keys : s'.keys = s.keys := by rw [State.keys,State.keys,tables]
  rw [State.holders,keys,link_update slot]
  exact holders_update inside ..

lemma holders_same (link : s'.link = s.link) (tables : s'.tables = s.tables) (r : Ref) :
    s'.holders r = s.holders r := by
  rw [State.holders,State.holders,State.keys,State.keys,tables,link]

namespace Exact

lemma live_of_link (exact : Exact s) (link : s.link k = some r) : r.obj ∈ s.live := (exact.held _).mpr ⟨k,r,link,rfl⟩

lemma inside_link (exact : Exact s) (link : s.link k = some r) : k ∈ s.keys := by
  refine exact.inside k fun empty => ?_
  rw [State.link,empty] at link
  cases link

lemma inside_update (exact : Exact s) (slot : s'.slot = update s.slot k x) (tables : s'.tables = s.tables)
    (inside : k ∈ s.keys) : ∀ j, s'.slot j ≠ none → j ∈ s'.keys := by
  intro j occupied
  rw [State.keys,tables]
  by_cases here : j = k
  · rw [here]
    exact inside
  · rw [slot,update_of_ne here] at occupied
    exact exact.inside j occupied

lemma plain (exact : Exact s) (inside : k ∈ s.keys) (before : s.link k = none) (after : x.bind File.ref = none) :
    Exact (s.setSlot k x) := by
  have link : (s.setSlot k x).link = s.link := by
    rw [link_update (s := s) (k := k) (x := x) rfl,after,← before,update_eq_self]
  refine ⟨fun r live => ?_,fun o => ?_,exact.once,exact.made,exact.apart,exact.number,
    exact.inside_update rfl rfl inside,exact.fault⟩
  · rw [holders_same link rfl]
    exact exact.counts r live
  · rw [link]
    exact exact.held o

lemma link_grab (slot : s'.slot = update s.slot k (some f)) (before : s.link k = none) (ref : f.ref = some r)
    : s'.link j = some r' ↔ s.link j = some r' ∨ j = k ∧ r' = r := by
  have after : (some f).bind File.ref = some r := ref
  rw [link_update slot,after]
  by_cases here : j = k
  · subst here
    simp [before,eq_comm]
  · simp [here]

lemma grab (exact : Exact s) (inside : k ∈ s.keys) (before : s.link k = none) (ref : f.ref = some r)
    (born : r.obj ∈ s.live) (slot : s'.slot = update s.slot k (some f)) (live : s'.live = s.live)
    (same : s'.tables = s.tables ∧ s'.made = s.made ∧ s'.released = s.released ∧ s'.fault = s.fault)
    (counts : ∀ r', s'.count r' = s.count r' + if r' = r then 1 else 0) : Exact s' := by
  obtain ⟨tables,made,released,fault⟩ := same
  have after : (some f).bind File.ref = some r := ref
  refine ⟨fun r' live' => ?_,fun o => ?_,released ▸ exact.once,?_,?_,made ▸ exact.number,
    exact.inside_update slot tables inside,fault.trans exact.fault⟩
  · rw [counts,exact.counts r' (live ▸ live'),holders_slot slot tables inside,after,before]
    simp [eq_comm]
  · rw [live,exact.held]
    simp only [link_grab slot before ref]
    constructor
    · rintro ⟨j,r',here,rfl⟩
      exact ⟨j,r',.inl here,rfl⟩
    rintro ⟨j,r',here | ⟨_,rfl⟩,rfl⟩
    · exact ⟨j,r',here,rfl⟩
    · exact (exact.held _).mp born
  · rw [made,live,released]
    exact exact.made
  · rw [live,released]
    exact exact.apart

lemma fresh (exact : Exact s) (number : o.number = s.made.length) : o ∉ s.made := fun old =>
  absurd (exact.number o old) (by rw [number]; exact Nat.lt_irrefl _)

lemma numbered (exact : Exact s) (number : o.number = s.made.length) (made : s'.made = s.made ++ [o])
    (inside : x ∈ s'.made) :
    x.number < s'.made.length := by
  rw [made,List.mem_append,List.mem_singleton] at inside
  rw [made,length_append,length_singleton]
  rcases inside with inside | rfl
  · exact Nat.lt_succ_of_lt (exact.number x inside)
  · rw [number]
    exact Nat.lt_succ_self _

lemma make (exact : Exact s) (inside : k ∈ s.keys) (before : s.link k = none) (ref : f.ref = some r)
    (number : r.obj.number = s.made.length) (slot : s'.slot = update s.slot k (some f))
    (live : s'.live = insert r.obj s.live) (made : s'.made = s.made ++ [r.obj])
    (same : s'.tables = s.tables ∧ s'.released = s.released ∧ s'.fault = s.fault)
    (counts : ∀ r', r'.obj ≠ r.obj → s'.count r' = s.count r')
    (count : ∀ r', r'.obj = r.obj → s'.count r' = if r' = r then 1 else 0) : Exact s' := by
  obtain ⟨tables,released,fault⟩ := same
  have unmade := exact.fresh number
  have unborn : r.obj ∉ s.live := fun inside => unmade ((exact.made _).mpr (.inl inside))
  have unheld {j : Nat × Nat} {r' : Ref} (here : s.link j = some r') : r'.obj ≠ r.obj := fun same =>
    unborn (same ▸ exact.live_of_link here)
  have after : (some f).bind File.ref = some r := ref
  refine ⟨fun r' live' => ?_,fun o => ?_,released ▸ exact.once,fun o => ?_,fun o inside old => ?_,fun o inside => ?_,
    exact.inside_update slot tables inside,fault.trans exact.fault⟩
  · rw [holders_slot slot tables inside,after,before]
    by_cases new : r'.obj = r.obj
    · have none : s.holders r' = 0 := by
        refine Nat.eq_zero_of_not_pos fun pos => ?_
        obtain ⟨j,_,here⟩ := holders_pos.mp pos
        exact unheld here new
      rw [count r' new,none]
      simp [eq_comm]
    · have other : r ≠ r' := fun equal => new (equal ▸ rfl)
      have old : r'.obj ∈ s.live := by
        rw [live] at live'
        exact (mem_insert.mp live').resolve_left new
      rw [counts r' new,exact.counts r' old]
      simp [other]
  · rw [live,mem_insert,exact.held]
    simp only [link_grab slot before ref]
    constructor
    · rintro (rfl | ⟨j,r',here,rfl⟩)
      · exact ⟨k,r,.inr ⟨rfl,rfl⟩,rfl⟩
      · exact ⟨j,r',.inl here,rfl⟩
    · rintro ⟨j,r',here | ⟨_,rfl⟩,rfl⟩
      · exact .inr ⟨j,r',here,rfl⟩
      · exact .inl rfl
  · rw [made,live,released,List.mem_append,List.mem_singleton,Finset.mem_insert,exact.made]
    tauto
  · rw [live,mem_insert] at inside
    rw [released] at old
    rcases inside with rfl | inside
    · exact unmade ((exact.made _).mpr (.inr old))
    · exact exact.apart o inside old
  · exact exact.numbered number made inside

lemma passing (exact : Exact s) (number : o.number = s.made.length) (made : s'.made = s.made ++ [o])
    (released : s'.released = s.released ++ [o])
    (same : s'.live = s.live ∧ s'.slot = s.slot ∧ s'.tables = s.tables ∧ s'.fault = s.fault)
    (counts : ∀ r, r.obj ≠ o → s'.count r = s.count r) : Exact s' := by
  obtain ⟨live,slot,tables,fault⟩ := same
  have unmade := exact.fresh number
  have link : s'.link = s.link := by
    funext j
    rw [link,link,slot]
  refine ⟨fun r inside => ?_,fun o' => ?_,?_,fun o' => ?_,fun o' inside old => ?_,fun o' inside => ?_,?_,
    fault.trans exact.fault⟩
  · rw [live] at inside
    have other : r.obj ≠ o := fun equal => unmade ((exact.made _).mpr (.inl (equal ▸ inside)))
    rw [holders_same link tables,counts r other]
    exact exact.counts r inside
  · rw [live,link]
    exact exact.held o'
  · rw [released]
    refine nodup_append.mpr ⟨exact.once,nodup_singleton o,fun a old b new equal => ?_⟩
    rw [List.mem_singleton.mp new] at equal
    exact unmade ((exact.made _).mpr (.inr (equal ▸ old)))
  · rw [made,live,released,List.mem_append,List.mem_append,List.mem_singleton,exact.made]
    tauto
  · rw [live] at inside
    rw [released,List.mem_append,List.mem_singleton] at old
    rcases old with old | rfl
    · exact exact.apart o' inside old
    · exact unmade ((exact.made _).mpr (.inl inside))
  · exact exact.numbered number made inside
  · rw [slot,State.keys,tables]
    exact exact.inside

end Exact

/-- One reference to an object is given up, and the object freed if there is no other. -/
structure Dropped (s s' : State) (r : Ref) : Prop where
  counts : ∀ r', r'.obj ∈ s'.live → s'.count r' = s.count r' - if r' = r then 1 else 0
  live : ∀ o, o ∈ s'.live ↔ o ∈ s.live ∧ (o = r.obj → ∃ r', r'.obj = o ∧ 0 < s.count r' - if r' = r then 1 else 0)
  released : s'.released = if r.obj ∈ s'.live then s.released else s.released ++ [r.obj]
  made : s'.made = s.made
  fault : s'.fault = s.fault
  slot : s'.slot = s.slot
  same : Same s s'

lemma Dropped.still (dropped : Dropped s s' r) : o ∈ s'.live ↔ o ∈ s.live ∧ (o = r.obj → r.obj ∈ s'.live) := by
  constructor
  · intro live
    exact ⟨((dropped.live o).mp live).1,fun mine => mine ▸ live⟩
  rintro ⟨live,kept⟩
  by_cases mine : o = r.obj
  · rw [mine]
    exact kept mine
  · exact (dropped.live o).mpr ⟨live,fun equal => absurd equal mine⟩

lemma Exact.drop (exact : Exact s) (here : s.link k = some r) (dropped : Dropped s s' r) :
    Exact (s'.setSlot k none) := by
  have inside := exact.inside_link here
  have slot : (s'.setSlot k none).slot = update s.slot k none := by rw [setSlot,dropped.slot]
  have tables : (s'.setSlot k none).tables = s.tables := dropped.same.tables
  have holders (r' : Ref) : ((s'.setSlot k none).holders r' : Int) = s.holders r' - if r' = r then 1 else 0 := by
    rw [holders_slot slot tables inside,here]
    simp [eq_comm]
  have link (j : Nat × Nat) (r' : Ref) : (s'.setSlot k none).link j = some r' ↔ s.link j = some r' ∧ j ≠ k := by
    rw [link_update slot]
    by_cases same : j = k
    · subst same
      simp
    · simp [same]
  have counted {r' : Ref} (live : r'.obj ∈ s.live) : s.count r' - (if r' = r then 1 else 0) =
    (s'.setSlot k none).holders r' := by
    rw [holders,exact.counts r' live]
  refine ⟨fun r' live => ?_,fun o => ?_,?_,fun o => ?_,fun o live => ?_,?_,exact.inside_update slot tables inside,
    dropped.fault.trans exact.fault⟩
  · exact (dropped.counts r' live).trans (counted ((dropped.live _).mp live).1)
  · refine (dropped.live o).trans ⟨fun ⟨live,last⟩ => ?_,fun ⟨j,r',held,equal⟩ => ?_⟩
    · by_cases mine : o = r.obj
      · obtain ⟨r',rfl,pos⟩ := last mine
        rw [counted live] at pos
        obtain ⟨j,_,held⟩ := holders_pos.mp (Int.natCast_pos.mp pos)
        exact ⟨j,r',held,rfl⟩
      obtain ⟨j,r',held,rfl⟩ := (exact.held o).mp live
      refine ⟨j,r',(link j r').mpr ⟨held,?_⟩,rfl⟩
      rintro rfl
      rw [here] at held
      cases held
      exact mine rfl
    · have before := ((link j r').mp held).1
      have live : o ∈ s.live := equal ▸ exact.live_of_link before
      refine ⟨live,fun _ => ⟨r',equal,?_⟩⟩
      rw [counted (equal ▸ live)]
      have keys : j ∈ (s'.setSlot k none).keys := by
        rw [State.keys,tables]
        exact exact.inside_link before
      exact Int.natCast_pos.mpr (holders_pos.mpr ⟨j,keys,held⟩)
  · change s'.released.Nodup
    rw [dropped.released]
    split
    · exact exact.once
    refine nodup_append.mpr ⟨exact.once,nodup_singleton _,fun a old b new equal => ?_⟩
    rw [List.mem_singleton.mp new] at equal
    exact exact.apart _ (exact.live_of_link here) (equal ▸ old)
  · change o ∈ s'.made ↔ o ∈ s'.live ∨ o ∈ s'.released
    rw [dropped.made,dropped.released,exact.made,dropped.still]
    by_cases mine : o = r.obj
    · subst mine
      by_cases kept : r.obj ∈ s'.live <;> simp [kept,exact.live_of_link here]
    · by_cases kept : r.obj ∈ s'.live <;> simp [kept,mine]
  · change o ∉ s'.released
    have before := (dropped.still.mp live).1
    rw [dropped.released]
    split
    · exact exact.apart o before
    next gone =>
      rw [List.mem_append,List.mem_singleton]
      rintro (old | rfl)
      · exact exact.apart o before old
      · exact gone live
  · change ∀ o ∈ s'.made, o.number < s'.made.length
    rw [dropped.made]
    exact exact.number

lemma count_less (s : State) (r r' : Ref) : (s.add (-1) r).count r' = s.count r' - if r' = r then 1 else 0 := by
  rw [count_add]
  split <;> omega

lemma dropped_kept (r' : Ref) (live : r.obj ∈ s.live) (obj : r'.obj = r.obj) (pos : 0 < (s.add (-1) r).count r') :
    Dropped s (s.add (-1) r) r := by
  have counts := count_less s r
  rw [counts] at pos
  obtain ⟨_,_,_,_,eq⟩ := add_other s (-1) r
  rw [eq] at counts ⊢
  refine ⟨fun r' _ => counts r',fun o => ?_,(if_pos live).symm,rfl,rfl,rfl,⟨rfl,rfl,rfl,rfl⟩⟩
  constructor
  · exact fun inside => ⟨inside,fun mine => ⟨r',obj.trans mine.symm,pos⟩⟩
  · exact fun both => both.1

lemma dropped_last (counts : ∀ r', r'.obj ≠ r.obj → s'.count r' = s.count r')
    (same : Same s s' ∧ s'.live = s.live ∧ s'.released = s.released ∧ s'.made = s.made ∧ s'.fault = s.fault ∧
    s'.slot = s.slot)
    (none : ∀ r', r'.obj = r.obj → s.count r' - (if r' = r then 1 else 0) ≤ 0) : Dropped s (s'.release r.obj) r := by
  obtain ⟨same,live,released,made,fault,slot⟩ := same
  have gone : r.obj ∉ (s'.release r.obj).live := notMem_erase r.obj s'.live
  refine ⟨fun r' inside => ?_,fun o => ?_,?_,made,fault,slot,⟨same.fdt,same.tasks,same.refs,same.tables⟩⟩
  · have other : r'.obj ≠ r.obj := ne_of_mem_erase inside
    have ne : r' ≠ r := fun equal => other (equal ▸ rfl)
    rw [if_neg ne,Int.sub_zero]
    exact counts r' other
  · change o ∈ s'.live.erase r.obj ↔ _
    rw [mem_erase,live]
    constructor
    · exact fun ⟨ne,inside⟩ => ⟨inside,fun mine => absurd mine ne⟩
    rintro ⟨inside,last⟩
    refine ⟨fun mine => ?_,inside⟩
    obtain ⟨r',obj,pos⟩ := last mine
    exact absurd (none r' (obj.trans mine)) (by omega)
  · rw [if_neg gone]
    exact congrArg (· ++ [r.obj]) released

lemma dropped_lowered (none : ∀ r', r'.obj = r.obj → (s.add (-1) r).count r' ≤ 0) :
    Dropped s ((s.add (-1) r).release r.obj) r := by
  have counts := count_less s r
  refine dropped_last (fun r' other => ?_) ?_ fun r' obj => (counts r').symm.le.trans (none r' obj)
  · have ne : r' ≠ r := fun equal => other (equal ▸ rfl)
    rw [counts,if_neg ne,Int.sub_zero]
  obtain ⟨_,_,_,_,eq⟩ := add_other s (-1) r
  rw [eq]
  exact ⟨⟨rfl,rfl,rfl,rfl⟩,rfl,rfl,rfl,rfl,rfl⟩

lemma dropped_closedir (live : .dir n ∈ s.live) : Dropped s (s.vfsClosedir n) (.dir n) := by
  rw [vfsClosedir,access,if_pos live]
  dsimp only
  split
  next pos => exact dropped_kept (.dir n) live rfl pos
  next last =>
    refine dropped_lowered fun r' obj => ?_
    cases r' with
    | dir m =>
      cases obj
      exact Int.not_lt.mp last
    | pipe | file => cases obj

lemma dropped_pipe (live : .pipe n ∈ s.live) : Dropped s (s.pipeReleaseEnd n e) (.pipe n e) := by
  rw [State.pipeReleaseEnd,State.access,if_pos live]
  dsimp only
  split
  next last =>
    refine dropped_lowered fun r' obj => ?_
    cases r' with
    | pipe m e' =>
      cases obj
      cases e' with
      | read => exact last.1
      | write => exact last.2
    | dir | file => cases obj
  next more =>
    rcases not_and_or.mp more with reader | writer
    · exact dropped_kept (.pipe n .read) live rfl (Int.not_le.mp reader)
    · exact dropped_kept (.pipe n .write) live rfl (Int.not_le.mp writer)

lemma dropped_fclose (live : .file n ∈ s.live) : Dropped s (s.fclose n) (.file n) := by
  rw [fclose,if_pos live]
  split
  next pos =>
    refine dropped_kept (.file n) live rfl ?_
    rw [count_less,if_pos rfl]
    change 0 < s.dup n + 1 - 1
    omega
  next last =>
    refine dropped_last (r := .file n) (fun _ _ => rfl) ⟨.refl s,rfl,rfl,rfl,rfl,rfl⟩ fun r' obj => ?_
    cases r' with
    | file m =>
      cases obj
      change s.dup n + 1 - (if _ then 1 else 0) ≤ 0
      rw [if_pos rfl]
      omega
    | pipe | dir => cases obj

/-- An entry goes, and with it its reference. -/
structure Closed (k : Nat × Nat) (s s' : State) : Prop where
  exact : Exact s'
  slot : s'.slot = update s.slot k none
  same : Same s s'

section
variable (exact : Exact s) (here : s.slot k = some f)
include exact here

lemma Exact.closed (ref : f.ref = some r) (dropped : Dropped s s' r) : Closed k s (s'.fdestroy k) := by
  have link : s.link k = some r := by
    rw [link,here]
    exact ref
  refine ⟨exact.drop link dropped,?_,⟨dropped.same.fdt,dropped.same.tasks,dropped.same.refs,dropped.same.tables⟩⟩
  rw [fdestroy,setSlot,dropped.slot]

lemma Exact.closed_plain (ref : f.ref = none) : Closed k s (s.fdestroy k) := by
  have link : s.link k = none := by
    rw [link,here]
    exact ref
  have inside : k ∈ s.keys := exact.inside k (by rw [here]; nofun)
  exact ⟨exact.plain inside link rfl,rfl,⟨rfl,rfl,rfl,rfl⟩⟩

lemma Exact.closeFdslot : Closed k s (s.closeFdslot k).2 := by
  have live {r : Ref} (ref : f.ref = some r) : r.obj ∈ s.live := by
    refine exact.live_of_link (k := k) ?_
    rw [link,here]
    exact ref
  rw [State.closeFdslot,here]
  cases f with
  | dir n => exact exact.closed here rfl (dropped_closedir (live rfl))
  | pipe n e => exact exact.closed here rfl (dropped_pipe (live rfl))
  | device d => cases d <;> exact exact.closed_plain here rfl
  | regular fd =>
    cases fd with
    | none => exact exact.closed_plain here rfl
    | some n => exact exact.closed here rfl (dropped_fclose (live rfl))

end

lemma pipeReleaseEnd_setSlot (s : State) (k : Nat × Nat) (x : Option File) (n : Nat) (e : PipeEnd) :
    (s.setSlot k x).pipeReleaseEnd n e = (s.pipeReleaseEnd n e).setSlot k x := by
  unfold State.pipeReleaseEnd State.access
  by_cases live : Obj.pipe n ∈ s.live
  · have live' : Obj.pipe n ∈ (s.setSlot k x).live := live
    rw [if_pos live,if_pos live']
    cases e <;> dsimp only [add,setSlot] <;> split <;> rfl
  · have gone : Obj.pipe n ∉ (s.setSlot k x).live := live
    rw [if_neg live,if_neg gone]
    rfl

/-- `sys_close` empties the slot of a pipe first; the rest is `close_fdslot`. -/
lemma sysClose_eq (s : State) (k : Nat × Nat) : s.sysClose k = (s.closeFdslot k).2 := by
  unfold sysClose closeFdslot
  cases s.slot k with
  | none => rfl
  | some f =>
    cases f with
    | dir n => rfl
    | pipe n e => exact pipeReleaseEnd_setSlot s k none n e
    | device d => cases d <;> rfl
    | regular fd => cases fd <;> rfl

/-- What a call may do: entries come only in the caller's table. -/
structure Does (table : Nat) (s s' : State) : Prop where
  exact : Exact s'
  same : Same s s'
  slots : ∀ k, s'.slot k ≠ none → s.slot k ≠ none ∨ k.1 = table ∧ k.2 < O_FILES

namespace Does

lemma refl (exact : Exact s) : Does table s s := ⟨exact,.refl s,fun _ => .inl⟩

lemma trans (first : Does table s s') (second : Does table s' s'') : Does table s s'' := by
  refine ⟨second.exact,first.same.trans second.same,fun k occupied => ?_⟩
  rcases second.slots k occupied with old | new
  · exact first.slots k old
  · exact .inr new

lemma update (exact : Exact s') (same : Same s s') (bound : i < O_FILES)
    (slot : s'.slot = update s.slot (table,i) x) : Does table s s' := by
  refine ⟨exact,same,fun k occupied => ?_⟩
  by_cases here : k = (table,i)
  · rw [here]
    exact .inr ⟨rfl,bound⟩
  · rw [slot,update_of_ne here] at occupied
    exact .inl occupied

end Does

lemma Closed.does (closed : Closed (table,i) s s') (bound : i < O_FILES) : Does table s s' :=
  .update closed.exact closed.same bound closed.slot

lemma mem_keys (known : table < s.tables) (bound : i < O_FILES) : (table,i) ∈ s.keys :=
  Finset.mem_product.mpr ⟨Finset.mem_range.mpr known,Finset.mem_range.mpr bound⟩

lemma bound_of_keys (inside : (table,i) ∈ s.keys) : i < O_FILES :=
  Finset.mem_range.mp (Finset.mem_product.mp inside).2

lemma shareRef_eq (ref : f.ref = some r) (live : r.obj ∈ s.live) : s.shareRef f = s.add 1 r := by
  cases f with
  | dir n | pipe n e =>
    cases ref
    exact if_pos live
  | device d => cases ref
  | regular fd =>
    cases fd with
    | none => cases ref
    | some n =>
      cases ref
      exact if_pos live

lemma shareRef_plain (ref : f.ref = none) : s.shareRef f = s := by
  cases f with
  | dir | pipe => cases ref
  | device d => rfl
  | regular fd =>
    cases fd with
    | none => rfl
    | some n => cases ref

lemma Exact.share (exact : Exact s) (inside : k ∈ s.keys) (before : s.link k = none)
    (source : s.slot j = some f) : Exact ((s.shareRef f).setSlot k (some f)) ∧ Same s (s.shareRef f) ∧
      (s.shareRef f).slot = s.slot := by
  cases ref : f.ref with
  | none =>
    rw [shareRef_plain ref]
    exact ⟨exact.plain inside before ref,.refl s,rfl⟩
  | some r =>
    have link : s.link j = some r := by
      rw [link,source]
      exact ref
    have live := exact.live_of_link link
    rw [shareRef_eq ref live]
    have counts := count_add s 1 r
    obtain ⟨_,_,_,_,eq⟩ := add_other s 1 r
    rw [eq] at counts ⊢
    exact ⟨exact.grab inside before ref live rfl rfl ⟨rfl,rfl,rfl,rfl⟩ counts,⟨rfl,rfl,rfl,rfl⟩,rfl⟩

section Calls

variable (exact : Exact s) (known : table < s.tables)
include exact known

lemma copy_does (bound : i < O_FILES) (before : s.link (table,i) = none)
    (source : s.slot j = some f) : Does table s ((s.shareRef f).setSlot (table,i) (some f)) := by
  obtain ⟨exact',same,slot⟩ := exact.share (mem_keys known bound) before source
  refine .update exact' ⟨same.fdt,same.tasks,same.refs,same.tables⟩ bound (x := some f) ?_
  rw [setSlot,slot]

lemma plain_does (bound : i < O_FILES) (before : s.link (table,i) = none) (after : x.bind File.ref = none) :
    Does table s (s.setSlot (table,i) x) :=
  .update (exact.plain (mem_keys known bound) before after) ⟨rfl,rfl,rfl,rfl⟩ bound rfl

/-- The copy is made when the destination is free and the source untouched. -/
lemma copied_does {s' : State} (does : Does table s s') (bound : dest < O_FILES) (free : s'.slot (table,dest) = none)
    (kept : s'.slot (table,source) = some f) (closed alloc : Bool) : Does table s (if closed ∧ alloc then
      match s'.slot (table,source) with
      | none => { s' with fault := true }
      | some f => (s'.shareRef f).setSlot (table,dest) (some f)
    else s') := by
  split
  · rw [kept]
    have link : s'.link (table,dest) = none := by rw [link,free]; rfl
    exact does.trans (copy_does does.exact (by rw [does.same.tables]; exact known) bound link kept)
  · exact does

lemma duplicateDescriptor_does (source dest : Nat) (alloc : Bool) :
    Does table s (s.duplicateDescriptor table source dest alloc) := by
  unfold duplicateDescriptor
  split
  · exact .refl exact
  next valid =>
    simp only [not_or,Nat.not_le,ge_iff_le] at valid
    obtain ⟨_,occupied,bound,ne⟩ := valid
    obtain ⟨f,here⟩ := Option.ne_none_iff_exists'.mp occupied
    by_cases free : s.slot (table,dest) = none
    · rw [if_pos free]
      exact copied_does exact known (.refl exact) bound free here true alloc
    rw [if_neg free]
    obtain ⟨g,there⟩ := Option.ne_none_iff_exists'.mp free
    have closed := exact.closeFdslot there
    refine copied_does exact known (f := f) (closed.does bound) bound ?_ ?_ (s.closeFdslot (table,dest)).1 alloc
    · rw [closed.slot,update_self]
    have other : (table,source) ≠ (table,dest) := fun same => ne (congrArg Prod.snd same)
    rw [closed.slot,update_of_ne other]
    exact here

lemma fcntlDup_does (fd arg : Nat) (alloc : Bool) : Does table s (s.fcntlDup table fd arg alloc) := by
  unfold fcntlDup
  split
  · exact .refl exact
  split
  · exact .refl exact
  · exact duplicateDescriptor_does exact known ..

lemma sysDup_does (fd : Nat) (alloc : Bool) : Does table s (s.sysDup table fd alloc) := by
  unfold sysDup
  split
  · exact .refl exact
  split
  · exact .refl exact
  · exact duplicateDescriptor_does exact known ..

omit known in
lemma sysClose_does (fd : Nat) : Does table s (s.sysClose (table,fd)) := by
  rw [sysClose_eq]
  cases here : s.slot (table,fd) with
  | none =>
    rw [closeFdslot,here]
    exact .refl exact
  | some f =>
    have bound := bound_of_keys (exact.inside (table,fd) (by rw [here]; nofun))
    exact (exact.closeFdslot here).does bound

end Calls

end UbixOS.Posix.Descrip
