import UbixOS.Posix.DescripExact

/-! The calls that make objects, tasks and tables, and every sequence of calls. -/
namespace UbixOS.Posix.Descrip

open Library Pipe Function State Finset File

variable {s s' s'' : State}

lemma falloc_spec (found : s.falloc table alloc = some (i,s')) :
    i < O_FILES ∧ s.slot (table,i) = none ∧ s' = s.setSlot (table,i) (some (.regular none)) := by
  unfold falloc at found
  split at found
  · obtain ⟨j,first,equal⟩ := Option.map_eq_some_iff.mp found
    cases equal
    have inside := List.mem_range.mp (List.mem_of_find?_eq_some first)
    have free := List.find?_some first
    exact ⟨inside,Option.isNone_iff_eq_none.mp free,rfl⟩
  · cases found

lemma link_of_free (free : s.slot k = none) : s.link k = none := by
  rw [link,free]
  rfl

lemma access_setSlot (s : State) (k : Nat × Nat) (x : Option File) (o : Obj) (d : Int) (r : Ref) :
    (s.setSlot k x).access o ((s.setSlot k x).add d r) = (s.access o (s.add d r)).setSlot k x := by
  unfold access
  by_cases live : o ∈ s.live
  · have live' : o ∈ (s.setSlot k x).live := live
    rw [if_pos live,if_pos live']
    cases r with
    | pipe n e => cases e <;> rfl
    | dir | file => rfl
  · have gone : o ∉ (s.setSlot k x).live := live
    rw [if_neg live,if_neg gone]
    rfl

/-- It does not matter whether the copy or the reference comes first. -/
lemma shareRef_setSlot (s : State) (k : Nat × Nat) (x : Option File) (f : File) :
    (s.setSlot k x).shareRef f = (s.shareRef f).setSlot k x := by
  cases f with
  | dir | pipe => exact access_setSlot ..
  | device => rfl
  | regular fd =>
    cases fd with
    | none => rfl
    | some n => exact access_setSlot ..

section Calls

variable (exact : Exact s) (known : table < s.tables)
include exact

lemma erase_new (number : o.number = s.made.length) : (insert o s.live).erase o = s.live :=
  erase_insert fun inside => exact.fresh number ((exact.made o).mpr (.inl inside))

lemma passing_does (number : o.number = s.made.length) (slot : s'.slot = s.slot) (same : Same s s')
    (live : s'.live = (insert o s.live).erase o) (made : s'.made = s.made ++ [o])
    (released : s'.released = s.released ++ [o])
    (fault : s'.fault = s.fault) (counts : ∀ r, r.obj ≠ o → s'.count r = s.count r) : Does table s s' := by
  have live' := live.trans (erase_new exact number)
  refine ⟨exact.passing number made released ⟨live',slot,same.tables,fault⟩ counts,same,fun k occupied => ?_⟩
  rw [slot] at occupied
  exact .inl occupied

include known

lemma sysPipe2_does (pipe first second : Bool) : Does table s (s.sysPipe2 table pipe first second) := by
  have number : (Obj.pipe s.made.length).number = s.made.length := rfl
  unfold sysPipe2
  split
  · exact .refl exact
  dsimp only
  split
  · exact passing_does exact number rfl ⟨rfl,rfl,rfl,rfl⟩ rfl rfl rfl rfl fun _ _ => rfl
  next i s₁ first =>
    obtain ⟨bound,free,rfl⟩ := falloc_spec first
    split
    · refine passing_does exact number ?_ ⟨rfl,rfl,rfl,rfl⟩ rfl rfl rfl rfl fun _ _ => rfl
      change update (update s.slot (table,i) _) (table,i) none = s.slot
      rw [update_idem,← free]
      exact update_eq_self ..
    next j s₂ second =>
      obtain ⟨bound',free',rfl⟩ := falloc_spec second
      have ne : (table,j) ≠ (table,i) := by
        rintro same
        rw [same] at free'
        change update s.slot (table,i) _ (table,i) = none at free'
        rw [update_self] at free'
        cases free'
      have free' : s.slot (table,j) = none := by
        change update s.slot (table,i) _ (table,j) = none at free'
        rwa [update_of_ne ne] at free'
      -- The reading end makes the pipe, the writing end is one more entry of it.
      let reading : State := { s.create (.pipe s.made.length) with
        slot := update s.slot (table,i) (some (.pipe s.made.length .read))
        rfdCNT := update s.rfdCNT s.made.length 1
        wfdCNT := update s.wfdCNT s.made.length 0 }
      have made : Does table s reading := by
        refine .update ?_ ⟨rfl,rfl,rfl,rfl⟩ bound rfl
        refine exact.make (mem_keys known bound) (link_of_free free)
          (r := .pipe s.made.length .read) rfl rfl rfl rfl rfl
          ⟨rfl,rfl,rfl⟩ (fun r' other => ?_) fun r' obj => ?_
        · cases r' with
          | pipe n e =>
            have away : n ≠ s.made.length := fun same => other (congrArg Obj.pipe same)
            cases e <;> exact update_of_ne away ..
          | dir | file => rfl
        · cases r' with
          | pipe n e =>
            cases obj
            cases e <;> simp [reading,count]
          | dir | file => cases obj
      have unlinked : reading.link (table,j) = none := by
        refine link_of_free ?_
        change update s.slot (table,i) _ (table,j) = none
        rwa [update_of_ne ne]
      have slots : update (update (update (update s.slot (table,i) (some (.regular none)))
          (table,j) (some (.regular none))) (table,i) (some (.pipe s.made.length .read))) (table,j)
          (some (.pipe s.made.length .write)) = update reading.slot (table,j) (some (.pipe s.made.length .write)) := by
        funext l
        by_cases last : l = (table,j)
        · rw [last,update_self,update_self]
        by_cases head : l = (table,i)
        · simp [head,ne.symm,reading]
        · simp [last,head,reading]
      refine made.trans (.update ?_ ⟨rfl,rfl,rfl,rfl⟩ bound' slots)
      refine made.exact.grab (f := .pipe s.made.length .write) (r := .pipe s.made.length .write)
        (mem_keys known bound') unlinked
        rfl (mem_insert_self ..) slots rfl ⟨rfl,rfl,rfl,rfl⟩ fun r' => ?_
      cases r' with
      | pipe n e =>
        by_cases same : n = s.made.length
        · subst same
          cases e <;> simp [reading,count]
        · cases e <;> simp [reading,count,setSlot,create,same]
      | dir | file => simp [reading,count,setSlot]

lemma opendir_does (bound : i < O_FILES) (before : s.link (table,i) = none) :
    Does table s (s.vfsOpendir.2.setSlot (table,i) (some (.dir s.vfsOpendir.1))) := by
  refine .update ?_ ⟨rfl,rfl,rfl,rfl⟩ bound rfl
  refine exact.make (mem_keys known bound) before (r := .dir s.made.length) rfl rfl rfl rfl rfl ⟨rfl,rfl,rfl⟩
    (fun r' other => ?_) fun r' obj => ?_
  · cases r' with
    | dir n => exact update_of_ne (fun same => other (congrArg Obj.dir same)) ..
    | pipe n e => cases e <;> rfl
    | file => rfl
  cases r' with
  | dir n =>
    cases obj
    simp [count,setSlot,vfsOpendir]
  | pipe | file => cases obj

omit exact known in
lemma fopen_count (other : r.obj ≠ .file s.made.length) : s.fopen.2.count r = s.count r := by
  cases r with
  | file n =>
    have away : n ≠ s.made.length := fun same => other (congrArg Obj.file same)
    simp [count,fopen,away]
  | pipe n e => cases e <;> rfl
  | dir => rfl

lemma fopen_does (bound : i < O_FILES) (before : s.link (table,i) = none) :
    Does table s (s.fopen.2.setSlot (table,i) (some (.regular (some s.fopen.1)))) := by
  refine .update ?_ ⟨rfl,rfl,rfl,rfl⟩ bound rfl
  refine exact.make (mem_keys known bound) before (r := .file s.made.length) rfl rfl rfl rfl rfl ⟨rfl,rfl,rfl⟩
    (fun _ => fopen_count) fun r' obj => ?_
  cases r' with
  | file n =>
    cases obj
    simp [count,setSlot,fopen]
  | pipe | dir => cases obj

omit known in
lemma probe_does : Does table s (s.fopen.2.fclose s.fopen.1) ∧ (s.fopen.2.fclose s.fopen.1).slot = s.slot := by
  have closed : s.fopen.2.fclose s.fopen.1 = s.fopen.2.release (.file s.made.length) := by
    have live : Obj.file s.fopen.1 ∈ s.fopen.2.live := mem_insert_self ..
    have unshared : ¬s.fopen.2.dup s.fopen.1 > 0 := by simp [fopen]
    rw [fclose,if_pos live,if_neg unshared]
    rfl
  rw [closed]
  exact ⟨passing_does exact (o := .file s.made.length) rfl rfl ⟨rfl,rfl,rfl,rfl⟩ rfl rfl rfl rfl fun _ =>
    fopen_count,rfl⟩

lemma copyStd_does (bound : i < O_FILES) (before : s.link (table,i) = none)
    (source : s.slot j = some f) (notPipe : ∀ n e, f ≠ .pipe n e) (notDir : ∀ n, f ≠ .dir n) :
    Does table s (s.copyStd (table,i) f) := by
  cases f with
  | pipe n e => exact absurd rfl (notPipe n e)
  | dir n => exact absurd rfl (notDir n)
  | device d => exact plain_does exact known bound before rfl
  | regular fd =>
    cases fd with
    | none => exact plain_does exact known bound before rfl
    | some n =>
      change Does table s ((s.setSlot (table,i) _).shareRef (.regular (some n)))
      rw [shareRef_setSlot]
      exact copy_does exact known bound before source

lemma kernOpenat_does (target : State.Target) (alloc : Bool)
    (counted : ∀ src, target = .std src → ∀ f, s.slot (table,src.val) = some f →
      (∀ n e, f ≠ .pipe n e) ∧ ∀ n, f ≠ .dir n) : Does table s (s.kernOpenat table target alloc) := by
  unfold kernOpenat
  split
  · exact .refl exact
  next i s₁ found =>
    obtain ⟨bound,free,rfl⟩ := falloc_spec found
    have first : Does table s (s.setSlot (table,i) (some (.regular none))) :=
      plain_does exact known bound (link_of_free free) rfl
    have known' : table < (s.setSlot (table,i) (some (.regular none))).tables := known
    have before : (s.setSlot (table,i) (some (.regular none))).link (table,i) = none := by
      rw [link_update (s := s) (k := (table,i)) (x := some (.regular none)) rfl,update_self]
      rfl
    cases target with
    | failure | device d => exact first.trans (plain_does first.exact known' bound before rfl)
    | std src =>
      dsimp only
      split
      · exact first.trans (plain_does first.exact known' bound before rfl)
      next f source =>
        have plain : (∀ n e, f ≠ .pipe n e) ∧ ∀ n, f ≠ .dir n := by
          by_cases here : (table,src.val) = (table,i)
          · rw [here] at source
            change update s.slot (table,i) _ (table,i) = _ at source
            rw [update_self] at source
            cases source
            exact ⟨nofun,nofun⟩
          · refine counted src rfl f ?_
            change update s.slot (table,i) _ (table,src.val) = _ at source
            rwa [update_of_ne here] at source
        exact first.trans (copyStd_does first.exact known' bound before source plain.1 plain.2)
    | directory found =>
      cases found with
      | false => exact first.trans (plain_does first.exact known' bound before rfl)
      | true => exact first.trans (opendir_does first.exact known' bound before)
    | regular probe opened =>
      dsimp only
      have probed : ∃ s₂, (if probe then (s.setSlot (table,i) (some (.regular none))).fopen.2.fclose
          (s.setSlot (table,i) (some (.regular none))).fopen.1 else s.setSlot (table,i) (some (.regular none))) = s₂ ∧
          Does table s s₂ ∧ s₂.link (table,i) = none := by
        refine ⟨_,rfl,?_⟩
        cases probe with
        | false => exact ⟨first,before⟩
        | true =>
          obtain ⟨does,slot⟩ : Does table _ _ ∧ _ := probe_does first.exact
          refine ⟨first.trans does,?_⟩
          rw [link,if_pos rfl,slot]
          exact before
      obtain ⟨s₂,same,does,before⟩ := probed
      rw [same]
      have known' : table < s₂.tables := by
        rw [does.same.tables]
        exact known
      cases opened with
      | false => exact does.trans (plain_does does.exact known' bound before rfl)
      | true => exact does.trans (fopen_does does.exact known' bound before)

end Calls

/-- The references of every table are exact, and a table without a task has no entries. -/
structure Tables (s : State) : Prop where
  refs : ∀ table, s.refs table = s.users table
  fdt : ∀ t table, s.fdt t = some table → t < s.tasks ∧ table < s.tables
  slot : ∀ k, s.slot k ≠ none → 0 < s.users k.1

lemma Does.tables (does : Does table s s') (tables : Tables s) (used : 0 < s.users table) : Tables s' := by
  have users (T : Nat) : s'.users T = s.users T := by rw [users,users,does.same.fdt,does.same.tasks]
  refine ⟨fun T => ?_,?_,fun k occupied => ?_⟩
  · rw [does.same.refs,users]
    exact tables.refs T
  · rw [does.same.fdt,does.same.tasks,does.same.tables]
    exact tables.fdt
  rw [users]
  rcases does.slots k occupied with old | ⟨here,_⟩
  · exact tables.slot k old
  · rw [here]
    exact used

namespace Tables

variable (tables : Tables s)
include tables

lemma known (used : 0 < s.users table) : table < s.tables := by
  obtain ⟨t,_,here⟩ := holders_pos.mp used
  exact (tables.fdt t table here).2

lemma fdt_none (new : s.tasks ≤ t) : s.fdt t = none := by
  cases here : s.fdt t with
  | none => rfl
  | some T => exact absurd (tables.fdt t T here).1 (Nat.not_lt.mpr new)

lemma users_none (new : s.tables ≤ table) : s.users table = 0 :=
  Nat.eq_zero_of_not_pos fun used => absurd (tables.known used) (Nat.not_lt.mpr new)

lemma used (here : s.fdt t = some table) : 0 < s.users table :=
  holders_pos.mpr ⟨t,mem_range.mpr (tables.fdt t table here).1,here⟩

lemma users_new (fdt : s'.fdt = update s.fdt s.tasks (some T)) (tasks : s'.tasks = s.tasks + 1) (U : Nat) :
    (s'.users U : Int) = s.users U + if U = T then 1 else 0 := by
  have grown : Library.holders (range (s.tasks + 1)) s.fdt U = s.users U := by
    refine holders_grow (fun t inside => ?_) (fun t inside outside => ?_) U
    · exact mem_range.mpr (Nat.lt_succ_of_lt (mem_range.mp inside))
    · exact tables.fdt_none (Nat.not_lt.mp fun older => outside (mem_range.mpr older))
  have last : s.tasks ∈ range (s.tasks + 1) := mem_range.mpr (Nat.lt_succ_self _)
  rw [users,fdt,tasks,holders_update last,grown,tables.fdt_none le_rfl]
  simp [eq_comm]

lemma fdt_new (fdt : s'.fdt = update s.fdt s.tasks (some T)) (tasks : s'.tasks = s.tasks + 1)
    (more : s.tables ≤ s'.tables) (known : T < s'.tables) :
    ∀ t table, s'.fdt t = some table → t < s'.tasks ∧ table < s'.tables := by
  intro t table here
  rw [fdt] at here
  rw [tasks]
  by_cases new : t = s.tasks
  · subst new
    rw [update_self] at here
    cases here
    exact ⟨Nat.lt_succ_self _,known⟩
  · rw [update_of_ne new] at here
    obtain ⟨older,old⟩ := tables.fdt t table here
    exact ⟨Nat.lt_succ_of_lt older,old.trans_le more⟩

end Tables

section Fork

variable (exact : Exact s) (tables : Tables s)
include exact

lemma slot_none (new : s.tables ≤ T) : s.slot (T,i) = none := by
  by_contra occupied
  have inside := exact.inside _ occupied
  exact absurd (mem_range.mp (mem_product.mp inside).1) (Nat.not_lt.mpr new)

lemma Exact.grow (more : s.tables ≤ s'.tables) (link : s'.link = s.link)
    (inside : ∀ k, s'.slot k ≠ none → k ∈ s'.keys) (live : s'.live = s.live)
    (same : s'.made = s.made ∧ s'.released = s.released ∧ s'.fault = s.fault) (counts : s'.count = s.count) :
    Exact s' := by
  obtain ⟨made,released,fault⟩ := same
  have wider : s.keys ⊆ s'.keys :=
    product_subset_product_left (range_subset_range.mpr more)
  have holders (r : Ref) : s'.holders r = s.holders r := by
    rw [State.holders,link]
    refine holders_grow wider (fun k _ outside => ?_) r
    cases here : s.link k with
    | none => rfl
    | some r => exact absurd (exact.inside_link here) outside
  refine ⟨fun r inside' => ?_,?_,released ▸ exact.once,?_,?_,made ▸ exact.number,inside,fault.trans exact.fault⟩
  · rw [counts,holders]
    exact exact.counts r (live ▸ inside')
  · rw [live,link]
    exact exact.held
  · rw [made,live,released]
    exact exact.made
  · rw [live,released]
    exact exact.apart

lemma schedNewTask_exact : Exact s.schedNewTask := by
  refine exact.grow (Nat.le_succ _) ?_ (fun k occupied => ?_) rfl ⟨rfl,rfl,rfl⟩ rfl
  · funext k
    change (if k.1 = s.tables ∧ k.2 < 3 then some (regular none) else s.slot k).bind ref = (s.slot k).bind ref
    split
    next new =>
      have free : s.slot k = none := slot_none exact (Nat.le_of_eq new.1.symm)
      rw [free]
      rfl
    · rfl
  change (if k.1 = s.tables ∧ k.2 < 3 then some (regular none) else s.slot k) ≠ none at occupied
  split at occupied
  next new =>
    have known : k.1 < s.tables + 1 := by
      rw [new.1]
      exact Nat.lt_succ_self _
    exact mem_keys known (new.2.trans (by decide))
  · have inside := mem_product.mp (exact.inside k occupied)
    exact mem_product.mpr ⟨mem_range.mpr (Nat.lt_succ_of_lt (mem_range.mp inside.1)),inside.2⟩

include tables

omit exact in
lemma schedNewTask_users (U : Nat) : (s.schedNewTask.users U : Int) = s.users U + if U = s.tables then 1 else 0 :=
  tables.users_new rfl rfl U

lemma schedNewTask_tables : Tables s.schedNewTask := by
  have users := schedNewTask_users tables
  have unused : s.users s.tables = 0 := tables.users_none le_rfl
  refine ⟨fun T => ?_,tables.fdt_new rfl rfl (Nat.le_succ _) (Nat.lt_succ_self _),fun k occupied => ?_⟩
  · change update s.refs s.tables 1 T = _
    rw [users]
    by_cases new : T = s.tables
    · subst new
      simp [unused]
    · simp [new,tables.refs]
  have counted := users k.1
  change (if k.1 = s.tables ∧ k.2 < 3 then some (regular none) else s.slot k) ≠ none at occupied
  split at occupied
  next new =>
    rw [new.1] at counted
    rw [new.1]
    omega
  · have before := tables.slot k occupied
    split at counted <;> omega

omit tables in
lemma copySlot_does (parent : Nat) (alloc : Nat → Bool) (known : child < s.tables) (bound : i < O_FILES)
    (free : s.slot (child,i) = none) : Does child s (s.copySlot parent child alloc i) ∧
      ∀ k, k ≠ (child,i) → (s.copySlot parent child alloc i).slot k = s.slot k := by
  unfold copySlot
  split
  · exact ⟨.refl exact,fun _ _ => rfl⟩
  next f source =>
    split
    · rw [shareRef_setSlot]
      have slot := (exact.share (mem_keys known bound) (link_of_free free) source).2.2
      refine ⟨copy_does exact known bound (link_of_free free) source,fun k other => ?_⟩
      change update (s.shareRef f).slot (child,i) _ k = _
      rw [update_of_ne other,slot]
    · exact ⟨.refl exact,fun _ _ => rfl⟩

omit tables in
lemma copySlots_does (parent : Nat) (alloc : Nat → Bool) (known : child < s.tables) {fds : List Nat}
    (bound : ∀ i ∈ fds, i < O_FILES) (nodup : fds.Nodup) (free : ∀ i ∈ fds, s.slot (child,i) = none) :
    Does child s (fds.foldl (fun s i => s.copySlot parent child alloc i) s) := by
  induction fds generalizing s with
  | nil => exact .refl exact
  | cons i fds ih =>
    obtain ⟨here,bound⟩ := List.forall_mem_cons.mp bound
    obtain ⟨free,later⟩ := List.forall_mem_cons.mp free
    obtain ⟨notLater,nodup⟩ := List.nodup_cons.mp nodup
    obtain ⟨does,others⟩ := copySlot_does exact parent alloc known here free
    refine does.trans (ih does.exact (by rw [does.same.tables]; exact known) bound nodup fun j inside => ?_)
    have ne : (child,j) ≠ (child,i) := fun same => notLater ((Prod.mk.inj same).2 ▸ inside)
    rw [others _ ne]
    exact later j inside

omit tables in
lemma clear_does (known : child < s.tables) {fds : List Nat} (bound : ∀ i ∈ fds, i < O_FILES)
    (empty : ∀ i ∈ fds, s.link (child,i) = none) : Does child s (fds.foldl (fun s i => s.fdestroy (child,i)) s) ∧
      ∀ k, (fds.foldl (fun s i => s.fdestroy (child,i)) s).slot k = if k.1 = child ∧
        k.2 ∈ fds then none else s.slot k := by
  induction fds generalizing s with
  | nil => exact ⟨.refl exact,fun k => by simp⟩
  | cons i fds ih =>
    obtain ⟨here,bound⟩ := List.forall_mem_cons.mp bound
    obtain ⟨unheld,later⟩ := List.forall_mem_cons.mp empty
    have does : Does child s (s.fdestroy (child,i)) := plain_does exact known here unheld rfl
    obtain ⟨rest,slots⟩ := ih (s := s.fdestroy (child,i)) does.exact known bound fun j inside => by
      rw [link_update (s := s) (k := (child,i)) (x := none) rfl]
      by_cases same : (child,j) = (child,i)
      · rw [same,update_self]
        rfl
      · rw [update_of_ne same]
        exact later j inside
    refine ⟨does.trans rest,fun k => (slots k).trans ?_⟩
    change (if _ then none else update s.slot (child,i) none k) = _
    obtain ⟨T,j⟩ := k
    by_cases same : (T,j) = (child,i)
    · cases same
      simp
    rw [update_of_ne same]
    have away : T = child → j ≠ i := fun table fd => same (by rw [table,fd])
    by_cases table : T = child
    · simp [table,away table]
    · simp [table]

lemma fork_sound (table : Nat) (alloc : Nat → Bool) : Exact (s.fork table alloc) ∧ Tables (s.fork table alloc) := by
  have exact₁ := schedNewTask_exact exact
  have tables₁ := schedNewTask_tables exact tables
  have child : 0 < s.schedNewTask.users s.tables := by
    have counted := schedNewTask_users tables s.tables
    omega
  have known : s.tables < s.schedNewTask.tables := Nat.lt_succ_self _
  have placeholder (i : Nat) : s.schedNewTask.slot (s.tables,i) = if i < 3 then some (.regular none) else none := by
    change (if s.tables = s.tables ∧ i < 3 then some (regular none) else s.slot (s.tables,i)) = _
    simp [slot_none exact (Nat.le_refl s.tables)]
  have small : ∀ i ∈ [0,1,2], i < O_FILES := by decide
  obtain ⟨cleared,slots⟩ := clear_does exact₁ known small fun i inside => by
    rw [link,placeholder]
    split <;> rfl
  have copied : Does s.tables ([0,1,2].foldl (fun s' i => s'.fdestroy (s.tables,i)) s.schedNewTask)
    (s.fork table alloc) := by
    refine copySlots_does cleared.exact table alloc (by exact known) (fun i => List.mem_range.mp)
      List.nodup_range fun i _ => ?_
    rw [slots]
    split
    · rfl
    next notCleared =>
      have late : ¬i < 3 := fun early => notCleared ⟨rfl,by simp; omega⟩
      rw [placeholder,if_neg late]
  have does := cleared.trans copied
  exact ⟨does.exact,does.tables tables₁ child⟩

lemma rfork_sound (here : s.fdt t = some table) : Exact (s.rfork table) ∧ Tables (s.rfork table) := by
  have known := (tables.fdt t table here).2
  have slot : (s.rfork table).slot = s.slot := by
    funext k
    change (if k.1 = s.tables then none else s.schedNewTask.slot k) = _
    split
    next new => exact (slot_none exact (Nat.le_of_eq new.symm)).symm
    next old => exact if_neg fun new => old new.1
  have fdt : (s.rfork table).fdt = update s.fdt s.tasks (some table) := update_idem ..
  have users (U : Nat) : ((s.rfork table).users U : Int) = _ := tables.users_new fdt rfl U
  refine ⟨exact.grow (Nat.le_succ _) ?_ (fun k occupied => ?_) rfl ⟨rfl,rfl,rfl⟩ rfl,fun T => ?_,
    tables.fdt_new fdt rfl (Nat.le_succ _) (Nat.lt_succ_of_lt known),fun k occupied => ?_⟩
  · funext k
    rw [link,slot]
    rfl
  · rw [slot] at occupied
    have inside := mem_product.mp (exact.inside k occupied)
    exact mem_product.mpr ⟨mem_range.mpr (Nat.lt_succ_of_lt (mem_range.mp inside.1)),inside.2⟩
  · rw [users]
    change update (update (update s.refs s.tables 1) s.tables 0) table
      (update s.refs s.tables 1 table + 1) T = _
    have other : table ≠ s.tables := Nat.ne_of_lt known
    by_cases same : T = table
    · subst same
      simp [other,tables.refs]
    by_cases new : T = s.tables
    · subst new
      simp [same,tables.users_none (Nat.le_refl s.tables)]
    · simp [same,new,tables.refs]
  · rw [slot] at occupied
    have before := tables.slot k occupied
    have counted := users k.1
    split at counted <;> omega

end Fork

lemma closeOnExit_spec (exact : Exact s) (table fd : Nat) : ∃ x : Option File, x.bind ref = none ∧
    (x ≠ none → s.slot (table,fd) ≠ none) ∧ Exact (s.closeOnExit table fd) ∧ Same s (s.closeOnExit table fd) ∧
    (s.closeOnExit table fd).slot = update s.slot (table,fd) x := by
  have stays (plain : s.link (table,fd) = none) : ∃ x : Option File, x.bind ref = none ∧
      (x ≠ none → s.slot (table,fd) ≠ none) ∧ Exact s ∧ Same s s ∧ s.slot = update s.slot (table,fd) x :=
    ⟨s.slot (table,fd),plain,id,exact,.refl s,(update_eq_self ..).symm⟩
  have goes {s' : State} (closed : Closed (table,fd) s s') : ∃ x : Option File, x.bind ref = none ∧
      (x ≠ none → s.slot (table,fd) ≠ none) ∧ Exact s' ∧ Same s s' ∧ s'.slot = update s.slot (table,fd) x :=
    ⟨none,rfl,fun absurd => (absurd rfl).elim,closed.exact,closed.same,closed.slot⟩
  unfold closeOnExit
  split
  next here => exact stays (link_of_free here)
  next here =>
    refine stays ?_
    rw [link,here]
    rfl
  next here =>
    rw [sysClose_eq]
    exact goes (exact.closeFdslot here)
  next f _ _ here => exact goes (exact.closeFdslot here)

/-- The loop: the entries it has passed hold nothing. -/
lemma closeAll_spec (exact : Exact s) (table : Nat) (fds : List Nat) :
    let s' := fds.foldl (fun s fd => s.closeOnExit table fd) s
    Exact s' ∧ Same s s' ∧ (∀ k, s'.slot k ≠ none → s.slot k ≠ none) ∧ (∀ k, k.1 ≠ table → s'.slot k = s.slot k) ∧
      (∀ i, s.link (table,i) = none → s'.link (table,i) = none) ∧ ∀ i ∈ fds, s'.link (table,i) = none := by
  induction fds generalizing s with
  | nil => exact ⟨exact,.refl s,fun _ => id,fun _ _ => rfl,fun _ => id,nofun⟩
  | cons fd fds ih =>
    obtain ⟨x,plain,old,exact₁,same,slot⟩ := closeOnExit_spec exact table fd
    obtain ⟨exact',same',fewer,others,stays,gone⟩ := ih exact₁
    have link : (s.closeOnExit table fd).link (table,fd) = none := by
      rw [link_update slot,update_self]
      exact plain
    refine ⟨exact',same.trans same',fun k occupied => ?_,fun k other => ?_,fun i unheld => stays i ?_,
      fun i inside => ?_⟩
    · have before := fewer k occupied
      rw [slot] at before
      by_cases here : k = (table,fd)
      · subst here
        rw [update_self] at before
        exact old before
      · rwa [update_of_ne here] at before
    · refine (others k other).trans ?_
      rw [slot]
      exact update_of_ne (fun here => other (congrArg Prod.fst here)) ..
    · rw [link_update slot]
      by_cases here : (table,i) = (table,fd)
      · rw [here,update_self]
        exact plain
      · rw [update_of_ne here]
        exact unheld
    · rcases List.mem_cons.mp inside with rfl | inside
      · exact stays i link
      · exact gone i inside

/-- A task gives up its table; with the last task the entries of the table have gone. -/
lemma Tables.exit (tables : Tables s) (here : s.fdt t = some table)
    (fdt : s'.fdt = update s.fdt t none) (tasks : s'.tasks = s.tasks) (same : s'.tables = s.tables)
    (refs : s'.refs = update s.refs table (s.refs table - 1))
    (slots : ∀ k, s'.slot k ≠ none → s.slot k ≠ none ∧ (k.1 = table → s.refs table - 1 ≠ 0)) : Tables s' := by
  have users (U : Nat) : (s'.users U : Int) = s.users U - if U = table then 1 else 0 := by
    have inside : t ∈ range s.tasks := mem_range.mpr (tables.fdt t table here).1
    rw [users,fdt,tasks,holders_update inside,here]
    simp [users,eq_comm]
  refine ⟨fun T => ?_,fun u T found => ?_,fun k occupied => ?_⟩
  · rw [users,refs]
    by_cases mine : T = table
    · rw [mine,update_self,if_pos rfl,tables.refs]
    · rw [update_of_ne mine,if_neg mine,Int.sub_zero,tables.refs]
  · rw [fdt] at found
    rw [tasks,same]
    by_cases mine : u = t
    · rw [mine,update_self] at found
      cases found
    · rw [update_of_ne mine] at found
      exact tables.fdt u T found
  obtain ⟨old,more⟩ := slots k occupied
  have before := tables.slot k old
  have left := users k.1
  have counted := tables.refs table
  by_cases mine : k.1 = table
  · rw [mine] at left before ⊢
    omega
  · omega

lemma exit_sound (exact : Exact s) (tables : Tables s) (here : s.fdt t = some table) :
    Exact (s.fdTableExit t table) ∧ Tables (s.fdTableExit t table) := by
  have exact₁ : Exact { s with refs := update s.refs table (s.refs table - 1) } :=
    ⟨exact.counts,exact.held,exact.once,exact.made,exact.apart,exact.number,exact.inside,exact.fault⟩
  have refs : update s.refs table (s.refs table - 1) table = s.refs table - 1 := update_self ..
  unfold fdTableExit
  dsimp only
  split
  · obtain ⟨exact₂,same,fewer,others,_,gone⟩ := closeAll_spec exact₁ table (List.range O_FILES)
    generalize (List.range O_FILES).foldl (fun s fd => s.closeOnExit table fd)
      { s with refs := update s.refs table (s.refs table - 1) } = s₂ at exact₂ same fewer others gone
    have unheld (i : Nat) : s₂.link (table,i) = none := by
      by_cases bound : i < O_FILES
      · exact gone i (List.mem_range.mpr bound)
      · refine link_of_free (by_contra fun occupied => bound ?_)
        exact bound_of_keys (exact₂.inside _ occupied)
    have left {k : Nat × Nat} (occupied : (if k.1 = table then none else s₂.slot k) ≠ none) :
        k.1 ≠ table ∧ s₂.slot k ≠ none := by
      split at occupied
      · exact absurd rfl occupied
      next other => exact ⟨other,occupied⟩
    refine ⟨exact₂.grow le_rfl ?_ (fun k occupied => exact₂.inside k (left occupied).2) rfl ⟨rfl,rfl,rfl⟩ rfl,
      tables.exit here (congrArg (update · t none) same.fdt) same.tasks same.tables same.refs fun k occupied => ?_⟩
    · funext k
      change (if k.1 = table then none else s₂.slot k).bind ref = _
      split
      next mine =>
        obtain ⟨T,i⟩ := k
        cases mine
        exact (unheld i).symm
      · rfl
    · obtain ⟨other,occupied⟩ := left occupied
      exact ⟨fewer k occupied,fun mine => absurd mine other⟩
  next more =>
    exact ⟨⟨exact.counts,exact.held,exact.once,exact.made,exact.apart,exact.number,exact.inside,exact.fault⟩,
      tables.exit here rfl rfl rfl rfl fun k occupied => ⟨occupied,fun _ => refs ▸ more⟩⟩

/-- An open of `/dev/stdin`, `/dev/stdout` or `/dev/stderr` does not find a pipe or a directory
there, and directory handles are not taken with the `opendir` system call. -/
def Orderly (s : State) (e : Event) : Prop :=
  match e.call with
  | .open (.std src) _ => ∀ table f, s.fdt e.task = some table → s.slot (table,src.val) = some f →
    (∀ n end', f ≠ .pipe n end') ∧ ∀ n, f ≠ .dir n
  | .opendir | .closedir _ => False
  | _ => True

lemma step_sound (exact : Exact s) (tables : Tables s) (orderly : Orderly s e) :
    Exact (s.step e) ∧ Tables (s.step e) := by
  obtain ⟨t,call⟩ := e
  unfold State.step
  split
  · exact ⟨exact,tables⟩
  next table here =>
    have used := tables.used here
    have known := tables.known used
    have positive : ¬s.refs table ≤ 0 := by
      rw [tables.refs]
      omega
    rw [if_neg positive]
    have acts {s' : State} (does : Does table s s') : Exact s' ∧ Tables s' := ⟨does.exact,does.tables tables used⟩
    cases call with
    | pipe2 pipe first second => exact acts (sysPipe2_does exact known pipe first second)
    | «open» target alloc =>
      refine acts (kernOpenat_does exact known target alloc fun src std f found => ?_)
      subst std
      exact orderly table f here found
    | opendir | closedir => exact orderly.elim
    | dup fd alloc => exact acts (sysDup_does exact known fd alloc)
    | dup2 source dest alloc => exact acts (duplicateDescriptor_does exact known source dest alloc)
    | fcntlDup fd arg alloc => exact acts (fcntlDup_does exact known fd arg alloc)
    | close fd =>
      rw [call]
      split
      · exact ⟨exact,tables⟩
      · exact acts (sysClose_does exact fd)
    | fork alloc => exact fork_sound exact tables table alloc
    | rfork => exact rfork_sound exact tables here
    | exit => exact exit_sound exact tables here

lemma boot_sound : Exact .boot ∧ Tables .boot := by
  have exact : Exact .empty := ⟨nofun,fun o => ⟨nofun,nofun⟩,List.nodup_nil,fun o => by simp [empty],nofun,nofun,
    fun k occupied => absurd rfl occupied,rfl⟩
  have tables : Tables .empty := ⟨fun T => rfl,nofun,fun k occupied => absurd rfl occupied⟩
  exact ⟨schedNewTask_exact exact,schedNewTask_tables exact tables⟩

/-- After every sequence of calls in which no pipe or directory entry is copied through
`/dev/stdin` and its like: the counts of each pipe end, directory handle and open file are the
numbers of entries that hold it; an object is freed once, when its last entry goes, and not
used afterwards; the same holds for the tables and the tasks that share them. -/
theorem counts_exact {events : List Event} (legal : Run.Legal State.step Orderly .boot events) :
    Exact (Run.after step .boot events) ∧ Tables (Run.after step .boot events) :=
  legal.invariant (I := fun s => Exact s ∧ Tables s) (fun _ _ sound orderly =>
    step_sound sound.1 sound.2 orderly) boot_sound

/-- A pipe whose reading end becomes the standard input of a child. -/
def redirect : List Event :=
  [⟨0,.pipe2 true true true⟩,⟨0,.fork fun _ => true⟩,⟨1,.dup2 3 0 true⟩,⟨1,.close 3⟩,⟨1,.close 4⟩,⟨0,.close 3⟩]

theorem counts_exact_redirect : Exact (Run.after step .boot redirect) ∧ Tables (Run.after step .boot redirect) := by
  have legal : Run.Legal State.step Orderly .boot redirect := ⟨trivial,trivial,trivial,trivial,trivial,trivial,trivial⟩
  exact counts_exact legal

/-- Descriptor 0 is the reading end of a pipe, and `/dev/stdin` is opened. -/
def openStdin : List Event := [⟨0,.close 0⟩,⟨0,.pipe2 true true true⟩,⟨0,.open (.std 0) true⟩]

/-- The pipe has two reading entries and counts one. When the first of them and the writing
entry are closed it is freed, and the second still refers to it. -/
theorem openStdin_uncounted :
    let s := Run.after State.step .boot openStdin
    let s' := Run.after State.step s [⟨0,.close 0⟩,⟨0,.close 3⟩]
    s.slot (0,0) = some (.pipe 0 .read) ∧ s.slot (0,4) = some (.pipe 0 .read) ∧ s.rfdCNT 0 = 1 ∧ ¬Exact s ∧
      s'.released = [.pipe 0] ∧ s'.slot (0,4) = some (.pipe 0 .read) ∧ (s'.step ⟨0,.close 4⟩).fault = true := by
  intro s s'
  have first : s.slot (0,0) = some (.pipe 0 .read) := by decide +kernel
  have second : s.slot (0,4) = some (.pipe 0 .read) := by decide +kernel
  have one : s.rfdCNT 0 = 1 := by decide +kernel
  refine ⟨first,second,one,fun exact => ?_,by decide +kernel,by decide +kernel,by decide +kernel⟩
  clear_value s' s
  have link {i : Nat} (here : s.slot (0,i) = some (.pipe 0 .read)) : s.link (0,i) = some (.pipe 0 .read) := by
    rw [link,here]
    rfl
  have member {i : Nat} (here : s.slot (0,i) = some (.pipe 0 .read)) :
      (0,i) ∈ s.keys.filter fun k => s.link k = some (.pipe 0 .read) :=
    mem_filter.mpr ⟨exact.inside_link (link here),link here⟩
  have two : 1 < s.holders (.pipe 0 .read) := one_lt_card.mpr ⟨_,member first,_,member second,by decide⟩
  have counted : s.rfdCNT 0 = s.holders (.pipe 0 .read) :=
    exact.counts (.pipe 0 .read) (exact.live_of_link (link first))
  omega

end UbixOS.Posix.Descrip
