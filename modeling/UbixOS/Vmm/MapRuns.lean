import UbixOS.Vmm.MapRefine

/-! Runs of calls on the maps of any number of processes. -/
namespace UbixOS.Vmm.Map

open Library

namespace Sys

def holders (s : Sys) (fd : Nat) : Nat := (s.maps.map fun map => (fds map.entries).count fd).sum

end Sys

structure VmMap.Good (fs : Files) (map : VmMap) : Prop where
  proper : Proper fs map.entries
  count : map.nentries = UInt32.ofNat map.entries.length

/-- Every descriptor that a map took is held by one entry or was closed once. -/
structure Sys.Good (s : Sys) : Prop where
  maps : ∀ map ∈ s.maps, map.Good s.files
  owned : ∀ fd, s.holders fd + s.files.closes fd = if fd < s.files.next then 1 else 0

section

variable {s : Sys} {map map' : VmMap}

lemma owned_of_settled (good : s.Good) (files : s.files.Extends fs')
    (settled : held' + fs'.closes fd = held + s.files.closes fd + opened s.files fs' fd)
    (before : s.holders fd = held + rest) : held' + rest + fs'.closes fd = if fd < fs'.next then 1 else 0 := by
  have owned := good.owned fd
  have next := files.next
  rw [opened] at settled
  split at owned <;> split at settled <;> split <;> omega

lemma VmMap.Good.mono (good : map.Good fs) (files : fs.Extends fs') : map.Good fs' :=
  ⟨good.proper.mono files,good.count⟩

lemma Sys.Good.put (good : s.Good) (here : s.maps[i]? = some map) (files : s.files.Extends fs') (new : map'.Good fs')
    (settled : Settled s.files map.entries fs' map'.entries) :
    Sys.Good ⟨s.maps.set i map',fs'⟩ ∧
      ∀ j a, Sys.fn ⟨s.maps.set i map',fs'⟩ j a = if j = i then meaning fs' map'.entries a else s.fn j a := by
  obtain ⟨inside,at_i⟩ := List.getElem?_eq_some_iff.mp here
  refine ⟨⟨fun m member => ?_,fun fd => ?_⟩,fun j a => ?_⟩
  · rcases List.mem_or_eq_of_mem_set member with old | rfl
    · exact (good.maps m old).mono files
    · exact new
  · have split : s.maps = s.maps.take i ++ map :: s.maps.drop (i + 1) := by
      rw [← at_i,List.getElem_cons_drop,List.take_append_drop]
    have before : s.holders fd = (fds map.entries).count fd +
        ((((s.maps.take i).map fun m => (fds m.entries).count fd).sum) +
          ((s.maps.drop (i + 1)).map fun m => (fds m.entries).count fd).sum) := by
      rw [Sys.holders]
      conv_lhs => rw [split]
      simp only [List.map_append,List.map_cons,List.sum_append,List.sum_cons]
      omega
    have after : Sys.holders ⟨s.maps.set i map',fs'⟩ fd = (fds map'.entries).count fd +
        ((((s.maps.take i).map fun m => (fds m.entries).count fd).sum) +
          ((s.maps.drop (i + 1)).map fun m => (fds m.entries).count fd).sum) := by
      simp only [Sys.holders,List.set_eq_take_append_cons_drop,if_pos inside,List.map_append,List.map_cons,
        List.sum_append,List.sum_cons]
      omega
    rw [after]
    exact owned_of_settled good files (settled fd) before
  · simp only [Sys.fn]
    by_cases same : j = i
    · subst same
      simp [inside]
    rw [if_neg same,List.getElem?_set_ne (Ne.symm same)]
    cases other : s.maps[j]? with
    | none => rfl
    | some m => exact meaning_extends (good.maps m (List.mem_of_getElem? other)).proper.held files a

lemma Sys.Good.add (good : s.Good) (files : s.files.Extends fs') (new : map'.Good fs')
    (settled : Settled s.files [] fs' map'.entries) :
    Sys.Good ⟨s.maps ++ [map'],fs'⟩ ∧
      ∀ j a, Sys.fn ⟨s.maps ++ [map'],fs'⟩ j a = if j = s.maps.length then meaning fs' map'.entries a
        else s.fn j a := by
  refine ⟨⟨fun m member => ?_,fun fd => ?_⟩,fun j a => ?_⟩
  · rcases List.mem_append.mp member with old | new'
    · exact (good.maps m old).mono files
    · rw [List.mem_singleton.mp new']
      exact new
  · have after : Sys.holders ⟨s.maps ++ [map'],fs'⟩ fd = (fds map'.entries).count fd + s.holders fd := by
      simp [Sys.holders,Nat.add_comm]
    rw [after]
    exact owned_of_settled good files (settled fd) (Nat.zero_add _).symm
  simp only [Sys.fn]
  rcases Nat.lt_trichotomy j s.maps.length with below | rfl | above
  · rw [if_neg (Nat.ne_of_lt below),List.getElem?_append_left below]
    cases other : s.maps[j]? with
    | none => rfl
    | some m => exact meaning_extends (good.maps m (List.mem_of_getElem? other)).proper.held files a
  · simp
  have past : (s.maps ++ [map']).length ≤ j := by
    rw [List.length_append,List.length_singleton]
    exact above
  rw [if_neg (by omega),List.getElem?_eq_none past,List.getElem?_eq_none (Nat.le_of_lt above)]
  rfl

end

/-- The condition on a call: an inserted range is free and not empty, a removed one is not
reversed, and what a split or a copy allocates and opens is there, under the name that the
descriptor keeps. -/
def Fit (s : Sys) : Event → Prop
  | .insert i start stop _ _ _ => start < stop ∧ ∃ map, s.maps[i]? = some map ∧ Free start stop map.entries
  | .insertFile i start stop _ _ _ _ _ => start < stop ∧ ∃ map, s.maps[i]? = some map ∧ Free start stop map.entries
  | .remove i start stop o => start ≤ stop ∧ ∀ map, s.maps[i]? = some map →
      ∀ k (e : Entry), map.entries[k]? = some e → e.Splits s.files start stop (o.kmalloc k) (o.fopen k)
  | .copy i o => ∀ map, s.maps[i]? = some map → ∀ k (e : Entry), map.entries[k]? = some e →
    e.Reopens s.files (o.fopen k)
  | _ => True

/-- A call that returns 0 changes the functions as expected; one that fails changes no
function of a map that was there. -/
def Refines (s : Sys) (e : Event) : Prop :=
  ∀ j a, (returns s e = true → (step s e).fn j a = expected s e j a) ∧
    (returns s e = false → j < s.maps.length → (step s e).fn j a = s.fn j a)

section

variable {s : Sys}

lemma VmMap.Good.empty (fs : Files) : VmMap.empty.Good fs := ⟨.nil fs,rfl⟩

lemma Sys.Good.start (mounts : List Name) : (Sys.start mounts).Good := ⟨nofun,fun _ => rfl⟩

lemma Sys.fn_out (missing : s.maps[i]? = none) (a : UInt64) : s.fn i a = none := by
  rw [Sys.fn,missing]
  rfl

lemma Sys.onMap_none (missing : s.maps[i]? = none) (call : VmMap → VmMap × Files) : s.onMap i call = s := by
  rw [Sys.onMap,missing]

lemma Sys.onMap_some (here : s.maps[i]? = some map) (call : VmMap → VmMap × Files) :
    s.onMap i call = ⟨s.maps.set i (call map).1,(call map).2⟩ := by
  rw [Sys.onMap,here]

lemma Sys.set_same (here : s.maps[i]? = some map) : (⟨s.maps.set i map,s.files⟩ : Sys) = s := by
  obtain ⟨inside,at_i⟩ := List.getElem?_eq_some_iff.mp here
  rw [← at_i,List.set_getElem_self]

section
variable (good : s.Good)
include good

lemma Sys.Good.insertEntry (here : s.maps[i]? = some map)
    (files : s.files.Extends fs') (held : e.Held fs') (nonempty : e.start < e.stop)
    (free : Free e.start e.stop map.entries) (settled : Settled s.files [] fs' [e]) :
    Sys.Good ⟨s.maps.set i (map.rbInsert e),fs'⟩ ∧ ∀ j a, Sys.fn ⟨s.maps.set i (map.rbInsert e),fs'⟩ j a =
      if j = i ∧ e.start ≤ a ∧ a < e.stop then some (e.value fs' a) else s.fn j a := by
  have ok := good.maps map (List.mem_of_getElem? here)
  have new : (map.rbInsert e).Good fs' := by
    refine ⟨(ok.proper.mono files).place held nonempty free,?_⟩
    have length : (map.rbInsert e).entries.length = map.entries.length + 1 := (SearchTree.place_perm _ e _).length_eq
    have more : (map.rbInsert e).nentries = map.nentries + 1 := rfl
    rw [more,ok.count,length,UInt32.ofNat_add]
    rfl
  have all : Settled s.files map.entries fs' (map.rbInsert e).entries := by
    intro fd
    have alone := settled fd
    rw [VmMap.rbInsert,count_fds_place]
    rw [fds_cons,List.count_append] at alone
    omega
  obtain ⟨after,fn⟩ := good.put here files new all
  refine ⟨after,fun j a => ?_⟩
  rw [fn,VmMap.rbInsert,meaning_place fs' free,meaning_extends ok.proper.held files]
  by_cases same : j = i
  · subst same
    simp [Sys.fn,here]
  · simp [same]

lemma step_insert (fit : Fit s (.insert i start stop prot flags kmalloc)) :
    (step s (.insert i start stop prot flags kmalloc)).Good ∧ Refines s (.insert i start stop prot flags kmalloc) := by
  obtain ⟨nonempty,map,here,free⟩ := fit
  cases kmalloc with
  | false =>
    have done : step s (.insert i start stop prot flags false) = s := (Sys.onMap_some here _).trans (Sys.set_same here)
    rw [Refines,done]
    exact ⟨good,fun j a => ⟨(by rintro ⟨⟩),fun _ _ => rfl⟩⟩
  | true =>
    have done : step s (.insert i start stop prot flags true) = _ := Sys.onMap_some here _
    obtain ⟨after,fn⟩ := good.insertEntry (e := ⟨start,stop,prot,flags,none,0⟩) here (.refl s.files)
      (fun _ same => by cases same) nonempty free
      (by intro fd; simp [fds,opened_same])
    rw [Refines,done]
    refine ⟨after,fun j a => ⟨fun _ => (fn j a).trans ?_,(by rintro ⟨⟩)⟩⟩
    simp only [Entry.value,Entry.backing,ite_self]
    rfl

lemma step_insertFile (fit : Fit s (.insertFile i start stop prot flags file offset kmalloc)) :
    (step s (.insertFile i start stop prot flags file offset kmalloc)).Good ∧
      Refines s (.insertFile i start stop prot flags file offset kmalloc) := by
  obtain ⟨nonempty,map,here,free⟩ := fit
  cases kmalloc with
  | false =>
    have done : step s (.insertFile i start stop prot flags file offset false) = s :=
      (Sys.onMap_some here _).trans (Sys.set_same here)
    rw [Refines,done]
    exact ⟨good,fun j a => ⟨(by rintro ⟨⟩),fun _ _ => rfl⟩⟩
  | true =>
    have done : step s (.insertFile i start stop prot flags file offset true) = _ := Sys.onMap_some here _
    have set : (flags ||| vmMapFile) &&& vmMapFile ≠ 0 := by
      have kept : (flags ||| vmMapFile) &&& vmMapFile = vmMapFile := by
        apply UInt32.toBitVec_inj.mp
        ext bit bound
        simp
        grind
      rw [kept]
      decide
    rw [Refines,done]
    cases file with
    | none =>
      obtain ⟨after,fn⟩ := good.insertEntry (e := ⟨start,stop,prot,flags ||| vmMapFile,none,offset⟩) here
        (.refl s.files)
        (fun _ same => by cases same) nonempty free (by intro fd; simp [fds,opened_same])
      refine ⟨after,fun j a => ⟨fun _ => (fn j a).trans ?_,(by rintro ⟨⟩)⟩⟩
      simp only [Entry.value,Entry.backing,ite_self]
      rfl
    | some file =>
      have isFile : (⟨start,stop,prot,flags ||| vmMapFile,some s.files.next,offset⟩ : Entry).isFile = true :=
        bne_iff_ne.mpr set
      obtain ⟨after,fn⟩ := good.insertEntry (e := ⟨start,stop,prot,flags ||| vmMapFile,some s.files.next,offset⟩) here
        (.add s.files file) (fun fd same => by cases same; exact ⟨isFile,Nat.lt_succ_self _⟩) nonempty free
        (settled_add s.files file rfl)
      refine ⟨after,fun j a => ⟨fun _ => (fn j a).trans ?_,(by rintro ⟨⟩)⟩⟩
      simp only [Entry.value,Entry.backing,isFile,if_true,Option.map_some,Files.add,Function.update_self]
      rfl

lemma step_remove (fit : Fit s (.remove i start stop o)) :
    (step s (.remove i start stop o)).Good ∧ Refines s (.remove i start stop o) := by
  obtain ⟨reversed,success⟩ := fit
  cases here : s.maps[i]? with
  | none =>
    have done : step s (.remove i start stop o) = s := Sys.onMap_none here _
    rw [Refines,done]
    refine ⟨good,fun j a => ⟨fun _ => ?_,nofun⟩⟩
    rw [expected]
    split
    next inside => rw [inside.1,Sys.fn_out here]
    · rfl
  | some map =>
    have done : step s (.remove i start stop o) = _ := Sys.onMap_some here _
    have ok := good.maps map (List.mem_of_getElem? here)
    have cut := removeWalk_spec 0 map.nentries ok.proper reversed fun k e inside => by
      rw [Nat.zero_add]
      exact success map here k e inside
    have new : (map.remove start stop o s.files).1.Good (map.remove start stop o s.files).2 := by
      refine ⟨⟨cut.held,cut.proper,cut.sorted⟩,?_⟩
      have total := cut.count.trans (congrArg (· + _) ok.count)
      exact (UInt32.add_right_inj _).mp ((UInt32.add_comm ..).trans total)
    obtain ⟨after,fn⟩ := good.put here cut.files new cut.settled
    rw [Refines,done]
    refine ⟨after,fun j a => ⟨fun _ => (fn j a).trans ?_,nofun⟩⟩
    rw [expected]
    by_cases same : j = i
    · subst same
      rw [if_pos rfl]
      refine (cut.meaning a).trans ?_
      simp [Sys.fn,here]
    · simp [same]

lemma step_free : (step s (.free i)).Good ∧ Refines s (.free i) := by
  cases here : s.maps[i]? with
  | none =>
    have done : step s (.free i) = s := Sys.onMap_none here _
    rw [Refines,done]
    refine ⟨good,fun j a => ⟨fun _ => ?_,nofun⟩⟩
    rw [expected]
    split
    next same => rw [same,Sys.fn_out here]
    · rfl
  | some map =>
    have done : step s (.free i) = _ := Sys.onMap_some here _
    have ok := good.maps map (List.mem_of_getElem? here)
    obtain ⟨files,settled⟩ := free_spec s.files ok.proper.held
    obtain ⟨after,fn⟩ := good.put here files (.empty _) settled
    rw [Refines,done]
    exact ⟨after,fun j a => ⟨fun _ => fn j a,nofun⟩⟩

lemma step_copy (fit : Fit s (.copy i o)) : (step s (.copy i o)).Good ∧ Refines s (.copy i o) := by
  cases here : s.maps[i]? with
  | none =>
    have done : step s (.copy i o) = s := by rw [step,here]
    rw [Refines,done]
    refine ⟨good,fun j a => ⟨fun _ => ?_,fun _ _ => rfl⟩⟩
    rw [expected]
    split
    next same => rw [same,Sys.fn_out here,Sys.fn_out (List.getElem?_eq_none Nat.le.refl)]
    · rfl
  | some map =>
    have done : step s (.copy i o) =
        ⟨s.maps ++ [(VmMap.empty.copy map o s.files).2.1],(VmMap.empty.copy map o s.files).2.2⟩ := by rw [step,here]
    have ok := good.maps map (List.mem_of_getElem? here)
    have copied := copyWalk_spec 0 .empty ok.proper fun k e inside => by
      rw [Nat.zero_add]
      exact fit map here k e inside
    have new : (VmMap.empty.copy map o s.files).2.1.Good (VmMap.empty.copy map o s.files).2.2 := by
      refine ⟨copied.proper,?_⟩
      have count := copied.count
      change _ + 0 = 0 + _ at count
      rwa [UInt32.add_zero,UInt32.zero_add] at count
    obtain ⟨after,fn⟩ := good.add copied.files new copied.settled
    rw [Refines,done]
    refine ⟨after,fun j a => ⟨fun returned => (fn j a).trans ?_,fun _ old => ?_⟩⟩
    · rw [expected]
      split
      · rw [returns,here] at returned
        refine (copied.equal returned a).trans ?_
        rw [Sys.fn,here]
        rfl
      · rfl
    · exact (fn j a).trans (if_neg (Nat.ne_of_lt old))

lemma step_new : (step s .new).Good ∧ Refines s .new := by
  obtain ⟨after,fn⟩ := good.add (.refl s.files) (.empty s.files) (.refl s.files [])
  refine ⟨after,fun j a => ⟨fun _ => (fn j a).trans ?_,nofun⟩⟩
  split
  next same =>
    rw [expected,same,Sys.fn_out (List.getElem?_eq_none Nat.le.refl)]
    rfl
  · rfl

end

lemma step_good (good : s.Good) (fit : Fit s e) : (step s e).Good ∧ Refines s e := by
  cases e with
  | new => exact step_new good
  | insert => exact step_insert good fit
  | insertFile => exact step_insertFile good fit
  | remove => exact step_remove good fit
  | copy => exact step_copy good fit
  | free => exact step_free good

end

/-- The counts are exact, entries are apart, a search in any tree of the entries finds exactly
the mapped addresses, a new entry goes where the model puts it, and no descriptor is lost or
closed twice. -/
structure Sys.Consistent (s : Sys) : Prop where
  count : ∀ map ∈ s.maps, map.nentries = UInt32.ofNat map.entries.length
  apart : ∀ map ∈ s.maps, map.entries.Pairwise fun x y => x.stop ≤ y.start
  found : ∀ map ∈ s.maps, ∀ tree : SearchTree Entry, tree.toList = map.entries →
    ∀ a, (lookup tree a).map (Entry.value s.files a) = meaning s.files map.entries a
  placed : ∀ map ∈ s.maps, ∀ tree : SearchTree Entry, tree.toList = map.entries →
    ∀ x, (tree.insert (fun other => x.start < other.start) x).toList = (map.rbInsert x).entries
  owned : ∀ fd, s.holders fd + s.files.closes fd = if fd < s.files.next then 1 else 0

lemma Sys.Good.consistent {s : Sys} (good : s.Good) : s.Consistent where
  count map inside := (good.maps map inside).count
  apart map inside := (good.maps map inside).proper.sorted
  found map inside tree order a := by rw [lookup_spec (good.maps map inside).proper tree order,meaning]
  placed map inside := rbInsert_descends (good.maps map inside).proper
  owned := good.owned

def plenty : Outcomes := ⟨fun _ => true,fun _ => true⟩

def mapped (file : FileId) : List Event := [.new,.insertFile 0 0x1000 0x4000 1 0 (some file) 0 true]

end UbixOS.Vmm.Map
