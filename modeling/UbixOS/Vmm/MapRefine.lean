import UbixOS.Vmm.Map

/-! The VMA map refines a partial function from addresses: each operation changes the
function as its caller expects and accounts for every descriptor. -/
namespace UbixOS.Vmm.Map

open List (count_append mem_append mem_append_right pairwise_append length_append mem_singleton mem_cons
  not_mem_nil singleton_append pairwise_cons mem_cons_self append_nil)

open UInt64 (le_iff_toNat_le lt_iff_toNat_lt)

open Library

structure Files.Extends (fs fs' : Files) : Prop where
  next : fs.next ≤ fs'.next
  file : ∀ fd < fs.next, fs'.file fd = fs.file fd
  mounts : fs'.mounts = fs.mounts

lemma Files.Extends.refl (fs : Files) : fs.Extends fs := ⟨Nat.le_refl _,fun _ _ => rfl,rfl⟩

lemma Files.Extends.trans {fs fs' fs'' : Files} (first : fs.Extends fs') (second : fs'.Extends fs'') :
    fs.Extends fs'' :=
  ⟨Nat.le_trans first.next second.next,fun fd old =>
    (second.file fd (Nat.lt_of_lt_of_le old first.next)).trans (first.file fd old),second.mounts.trans first.mounts⟩

lemma Files.Extends.add (fs : Files) (file : FileId) : fs.Extends (fs.add file) :=
  ⟨Nat.le_succ _,fun _ old => Function.update_of_ne (Nat.ne_of_lt old) ..,rfl⟩

/-- The descriptor of an entry is one it will close, and is open. -/
def Entry.Held (fs : Files) (e : Entry) : Prop := ∀ fd, e.vnode = some fd → e.isFile = true ∧ fd < fs.next

namespace Entry

variable {e : Entry}

lemma Held.mono (held : e.Held fs) (files : fs.Extends fs') : e.Held fs' :=
  fun fd here => ⟨(held fd here).1,Nat.lt_of_lt_of_le (held fd here).2 files.next⟩

lemma Held.backing (held : e.Held fs) : e.backing = e.vnode := by
  rw [Entry.backing]
  split
  · rfl
  rename_i other
  cases here : e.vnode with
  | none => rfl
  | some fd => exact absurd (held fd here).1 other

lemma Held.value (held : e.Held fs) (files : fs.Extends fs') (a : UInt64) : e.value fs' a = e.value fs a := by
  rw [Entry.value,Entry.value,held.backing]
  cases here : e.vnode with
  | none => rfl
  | some fd => rw [Option.map_some,Option.map_some,files.file fd (held fd here).2]

end Entry

lemma meaning_extends (held : ∀ e ∈ xs, e.Held fs) (files : fs.Extends fs')
    (a : UInt64) : meaning fs' xs a = meaning fs xs a := by
  rw [meaning,meaning]
  cases found : xs.find? (·.covers a) with
  | none => rfl
  | some e => rw [Option.map_some,Option.map_some,(held e (List.mem_of_find?_eq_some found)).value files]

lemma meaning_append (fs : Files) (xs ys : List Entry) (a : UInt64) :
    meaning fs (xs ++ ys) a = (meaning fs xs a).or (meaning fs ys a) := by
  cases found : xs.find? (·.covers a) <;> simp [meaning,found]

lemma meaning_none (away : ∀ e ∈ xs, e.covers a = false) : meaning fs xs a = none := by
  rw [meaning,List.find?_eq_none.mpr fun e inside => by simp [away e inside]]
  rfl

def fds (xs : List Entry) : List Nat := xs.filterMap Entry.vnode

lemma fds_append (xs ys : List Entry) : fds (xs ++ ys) = fds xs ++ fds ys := List.filterMap_append

lemma fds_cons (e : Entry) (xs : List Entry) : fds (e :: xs) = e.vnode.toList ++ fds xs := by
  cases here : e.vnode <;> simp [fds,here]

def opened (fs fs' : Files) (fd : Nat) : Nat := if fs.next ≤ fd ∧ fd < fs'.next then 1 else 0

lemma opened_same (same : fs'.next = fs.next) (fd : Nat) : opened fs fs' fd = 0 := by
  rw [opened,if_neg (by omega)]

lemma opened_trans (first : fs.Extends fs') (second : fs'.Extends fs'') (fd : Nat) :
    opened fs fs'' fd = opened fs fs' fd + opened fs' fs'' fd := by
  have next := first.next
  have next' := second.next
  rw [opened,opened,opened]
  split <;> split <;> split <;> omega

/-- Entries `xs` became `xs'`: every descriptor taken since is held once more, every one
given up was closed once more. -/
def Settled (fs : Files) (xs : List Entry) (fs' : Files) (xs' : List Entry) : Prop :=
  ∀ fd, (fds xs').count fd + fs'.closes fd = (fds xs).count fd + fs.closes fd + opened fs fs' fd

lemma Settled.refl (fs : Files) (xs : List Entry) : Settled fs xs fs xs := by
  intro fd
  rw [opened_same rfl,Nat.add_zero]

lemma Settled.append (first : Settled fs xs fs' xs')
    (second : Settled fs' ys fs'' ys') (files : fs.Extends fs') (files' : fs'.Extends fs'') :
    Settled fs (xs ++ ys) fs'' (xs' ++ ys') := by
  intro fd
  have one := first fd
  have two := second fd
  rw [fds_append,fds_append,count_append,count_append,opened_trans files files']
  omega

lemma Settled.release (held : e.Held fs) : Settled fs [e] (fs.release e) [] := by
  intro fd
  rw [Files.release,held.backing]
  cases here : e.vnode with
  | none => simp [fds,here,opened_same]
  | some own =>
    rw [Option.elim_some,opened_same (show (fs.fclose own).next = fs.next from rfl)]
    by_cases same : fd = own
    · subst same
      simp [fds,here,Files.fclose]
      omega
    · simp [fds,here,Files.fclose,same,Ne.symm same]

lemma Files.Extends.release (fs : Files) (e : Entry) : fs.Extends (fs.release e) := by
  rw [Files.release]
  cases e.backing with
  | none => exact .refl fs
  | some fd => exact ⟨Nat.le_refl _,fun _ _ => rfl,rfl⟩

lemma settled_add (fs : Files) (file : FileId) (new : e.vnode = some fs.next) :
    Settled fs [] (fs.add file) [e] := by
  intro other
  have once : opened fs (fs.add file) other = if fs.next = other then 1 else 0 := by
    have only : fs.next ≤ other ∧ other < fs.next + 1 ↔ fs.next = other := by omega
    simp only [opened,Files.add,only]
  rw [once,fds_cons,new]
  simp [fds,Files.add,List.count_singleton,Nat.add_comm]

/-- The file of the entry can be opened again by the name that its descriptor keeps. -/
def Entry.Reopens (fs : Files) (opens : Bool) (e : Entry) : Prop :=
  ∀ fd, e.vnode = some fd → opens = true ∧ fs.Leads fd

lemma Entry.Reopens.mono {e : Entry} (reopens : e.Reopens fs opens) (held : e.Held fs) (files : fs.Extends fs') :
    e.Reopens fs' opens := by
  intro fd here
  obtain ⟨success,leads⟩ := reopens fd here
  refine ⟨success,?_⟩
  rw [Files.Leads,files.mounts,files.file fd (held fd here).2]
  exact leads

/-- A duplicate differs only in its descriptor, a new one for the same file. -/
lemma duplicate_spec (held : e.Held fs) (success : e.Reopens fs opens) :
    ∃ vnode, (fs.duplicate e opens).1 = { e with vnode } ∧ fs.Extends (fs.duplicate e opens).2 ∧
      (fs.duplicate e opens).1.Held (fs.duplicate e opens).2 ∧
      Settled fs [] (fs.duplicate e opens).2 [(fs.duplicate e opens).1] ∧
      ∀ a, (fs.duplicate e opens).1.value (fs.duplicate e opens).2 a = e.value fs a := by
  have backing := held.backing
  cases here : e.vnode with
  | none =>
    have same : fs.duplicate e opens = (e,fs) := by rw [Files.duplicate,backing,here]
    rw [same]
    exact ⟨e.vnode,rfl,.refl fs,held,fun fd => by simp [fds,here,opened_same],fun _ => rfl⟩
  | some fd =>
    have file := (held fd here).1
    obtain ⟨rfl,leads⟩ := success fd here
    have again : fs.fopen (fs.file fd).name true = (some fs.next,fs.add (fs.file fd)) := by
      simp only [Files.fopen,show resolve fs.mounts (fs.file fd).name = _ from leads]
    rw [Files.duplicate,backing,here]
    dsimp only
    rw [again]
    refine ⟨some fs.next,rfl,.add fs _,fun new same => ?_,settled_add fs _ rfl,fun a => ?_⟩
    · cases same
      exact ⟨file,Nat.lt_succ_self _⟩
    have still : ({ e with vnode := some fs.next } : Entry).backing = some fs.next := by
      exact if_pos file
    simp only [Entry.value,still,backing,here,Option.map_some,Files.add,Function.update_self]

/-- What removing `[start,stop)` from entries `xs` comes to. -/
structure Cut (start stop : UInt64) (fs : Files) (xs : List Entry) (count : UInt32) (fs' : Files) (xs' : List Entry)
    (count' : UInt32) : Prop where
  files : fs.Extends fs'
  held : ∀ p ∈ xs', p.Held fs'
  proper : ∀ p ∈ xs', p.start < p.stop
  within : ∀ p ∈ xs', ∃ e ∈ xs, e.start ≤ p.start ∧ p.stop ≤ e.stop
  sorted : xs'.Pairwise fun x y => x.stop ≤ y.start
  meaning : ∀ a, meaning fs' xs' a = if start ≤ a ∧ a < stop then none else meaning fs xs a
  count : count' + UInt32.ofNat xs.length = count + UInt32.ofNat xs'.length
  settled : Settled fs xs fs' xs'

/-- Entries that a map may hold. -/
structure Proper (fs : Files) (xs : List Entry) : Prop where
  held : ∀ e ∈ xs, e.Held fs
  proper : ∀ e ∈ xs, e.start < e.stop
  sorted : xs.Pairwise fun x y => x.stop ≤ y.start

section

variable {count count' count'' : UInt32}

lemma Proper.mono (proper : Proper fs xs) (files : fs.Extends fs') : Proper fs' xs :=
  ⟨fun e inside => (proper.held e inside).mono files,proper.proper,proper.sorted⟩

lemma Cut.unchanged (proper : Proper fs xs)
    (away : ∀ e ∈ xs, ∀ a, start ≤ a → a < stop → e.covers a = false) : Cut start stop fs xs count fs xs count where
  files := .refl fs
  held := proper.held
  proper := proper.proper
  within p inside := ⟨p,inside,UInt64.le_refl _,UInt64.le_refl _⟩
  sorted := proper.sorted
  meaning a := by
    split
    next removed => exact meaning_none fun e inside => away e inside a removed.1 removed.2
    · rfl
  count := rfl
  settled := .refl fs xs

lemma Cut.append {xs xs' ys ys' : List Entry} (first : Cut start stop fs xs count fs' xs' count')
    (second : Cut start stop fs' ys count' fs'' ys' count'') (proper : Proper fs (xs ++ ys)) :
    Cut start stop fs (xs ++ ys) count fs'' (xs' ++ ys') count'' where
  files := first.files.trans second.files
  held p inside := by
    rcases mem_append.mp inside with inside | inside
    · exact (first.held p inside).mono second.files
    · exact second.held p inside
  proper p inside := by
    rcases mem_append.mp inside with inside | inside
    · exact first.proper p inside
    · exact second.proper p inside
  within p inside := by
    rcases mem_append.mp inside with inside | inside
    · obtain ⟨e,old,bounds⟩ := first.within p inside
      exact ⟨e,List.mem_append_left _ old,bounds⟩
    · obtain ⟨e,old,bounds⟩ := second.within p inside
      exact ⟨e,mem_append_right _ old,bounds⟩
  sorted := by
    refine pairwise_append.mpr ⟨first.sorted,second.sorted,fun x left y right => ?_⟩
    obtain ⟨e,old,_,upper⟩ := first.within x left
    obtain ⟨e',old',lower,_⟩ := second.within y right
    have apart := (pairwise_append.mp proper.sorted).2.2 e old e' old'
    exact UInt64.le_trans upper (UInt64.le_trans apart lower)
  meaning a := by
    have same := meaning_extends (fun e inside => proper.held e (mem_append_right _ inside)) first.files a
    rw [meaning_append,meaning_extends first.held second.files,first.meaning,second.meaning,same,meaning_append]
    split <;> rfl
  count := by
    have one := first.count
    have two := second.count
    rw [length_append,length_append,UInt32.ofNat_add,UInt32.ofNat_add]
    grind
  settled := first.settled.append second.settled first.files second.files

lemma Entry.covers_iff {e : Entry} {a : UInt64} : e.covers a = true ↔ e.start ≤ a ∧ a < e.stop := by
  simp [Entry.covers]

lemma meaning_single (fs : Files) (e : Entry) (a : UInt64) :
    Map.meaning fs [e] a = if e.start ≤ a ∧ a < e.stop then some (e.value fs a) else none := by
  rw [Map.meaning,List.find?_singleton]
  by_cases covers : e.covers a = true
  · rw [if_pos covers,if_pos (Entry.covers_iff.mp covers)]
    rfl
  · rw [if_neg covers,if_neg fun inside => covers (Entry.covers_iff.mpr inside)]
    rfl

lemma Proper.single (held : e.Held fs) (proper : e.start < e.stop) : Proper fs [e] :=
  ⟨fun _ inside => mem_singleton.mp inside ▸ held,fun _ inside => mem_singleton.mp inside ▸ proper,
    List.pairwise_singleton ..⟩

/-- A piece of an entry with the same backing keeps what the addresses in it mean. -/
lemma Cut.trim (piece : Proper fs [p]) (lower : e.start ≤ p.start) (upper : p.stop ≤ e.stop)
    (same : p.vnode = e.vnode) (value : ∀ a, p.value fs a = e.value fs a)
    (kept : ∀ a, e.start ≤ a → a < e.stop → (p.start ≤ a ∧ a < p.stop ↔ ¬(start ≤ a ∧ a < stop))) :
    Cut start stop fs [e] count fs [p] count where
  files := .refl fs
  held := piece.held
  proper := piece.proper
  within q inside := by
    cases mem_singleton.mp inside
    exact ⟨e,List.mem_singleton_self e,lower,upper⟩
  sorted := piece.sorted
  meaning a := by
    rw [meaning_single,meaning_single,value]
    by_cases inside : e.start ≤ a ∧ a < e.stop
    · rw [if_pos inside]
      by_cases removed : start ≤ a ∧ a < stop
      · rw [if_neg fun here => (kept a inside.1 inside.2).mp here removed,if_pos removed]
      · rw [if_pos ((kept a inside.1 inside.2).mpr removed),if_neg removed]
    · rw [if_neg fun here => inside ⟨UInt64.le_trans lower here.1,UInt64.lt_of_lt_of_le here.2 upper⟩]
      split <;> rfl
  count := rfl
  settled fd := by simp [fds_cons,same,opened_same]

lemma Cut.drop (held : e.Held fs) (inside : start ≤ e.start ∧ e.stop ≤ stop) :
    Cut start stop fs [e] count (fs.release e) [] (count - 1) where
  files := .release fs e
  held := nofun
  proper := nofun
  within := nofun
  sorted := .nil
  meaning a := by
    rw [meaning_single]
    split
    · rfl
    rename_i outside
    rw [if_neg fun here => outside ⟨UInt64.le_trans inside.1 here.1,UInt64.lt_of_lt_of_le here.2 inside.2⟩]
    rfl
  count := by
    change count - 1 + 1 = count + 0
    grind
  settled := .release held

/-- The head keeps the descriptor, the tail opens the file again. -/
lemma Cut.split (held : e.Held fs) (reversed : start ≤ stop) (lower : e.start < start)
    (upper : stop < e.stop) (files : fs.Extends fs') (tailHeld : tail.Held fs')
    (tailRange : tail.start = stop ∧ tail.stop = e.stop) (value : ∀ a, tail.value fs' a = e.value fs a)
    (settled : Settled fs [] fs' [tail]) :
    Cut start stop fs [e] count fs' [{ e with stop := start },tail] (count + 1) where
  files := files
  held p inside := by
    simp only [mem_cons,not_mem_nil,or_false] at inside
    rcases inside with rfl | rfl
    · exact held.mono files
    · exact tailHeld
  proper p inside := by
    simp only [mem_cons,not_mem_nil,or_false] at inside
    rcases inside with rfl | rfl
    · exact lower
    · rw [tailRange.1,tailRange.2]
      exact upper
  within p inside := by
    refine ⟨e,List.mem_singleton_self e,?_⟩
    simp only [mem_cons,not_mem_nil,or_false] at inside
    rcases inside with rfl | rfl
    · exact ⟨UInt64.le_refl _,UInt64.le_of_lt (UInt64.lt_of_le_of_lt reversed upper)⟩
    · rw [tailRange.1,tailRange.2]
      exact ⟨UInt64.le_trans (UInt64.le_of_lt lower) reversed,UInt64.le_refl _⟩
  sorted := by
    refine List.pairwise_pair.mpr ?_
    rw [tailRange.1]
    exact reversed
  meaning a := by
    have head : ({ e with stop := start } : Entry).value fs' a = e.value fs a := held.value files a
    rw [← singleton_append,meaning_append,meaning_single,meaning_single,meaning_single,head,value,tailRange.1,
      tailRange.2]
    simp only [le_iff_toNat_le,lt_iff_toNat_lt] at reversed lower upper ⊢
    split_ifs <;> first | rfl | (exfalso; omega)
  count := by
    change count + 1 + 1 = count + 2
    grind
  settled fd := by
    have tailed := settled fd
    simp only [fds_cons,count_append] at tailed ⊢
    omega

/-- What a removal allocates and opens for `e` is there. -/
def Entry.Splits (fs : Files) (start stop : UInt64) (kmalloc opens : Bool) (e : Entry) : Prop :=
  e.start < start → stop < e.stop → kmalloc = true ∧ e.Reopens fs opens

lemma removeEntry_spec {e : Entry} (count : UInt32) (proper : Proper fs [e]) (reversed : start ≤ stop)
    (reached : e.start < stop) (success : e.Splits fs start stop kmalloc opens) :
    Cut start stop fs [e] count (removeEntry start stop kmalloc opens e count fs).2.2
      (removeEntry start stop kmalloc opens e count fs).1 (removeEntry start stop kmalloc opens e count fs).2.1 := by
  have held := proper.held e (List.mem_singleton_self e)
  rw [removeEntry]
  split
  next before =>
    refine .unchanged proper fun p inside a first _ => ?_
    cases mem_singleton.mp inside
    rw [Bool.eq_false_iff]
    intro covers
    have limit := (Entry.covers_iff.mp covers).2
    simp only [le_iff_toNat_le,lt_iff_toNat_lt] at before first limit
    omega
  split
  next inside => exact .drop held inside
  split
  next left =>
    refine .trim (.single held left.1) (UInt64.le_refl _) (UInt64.le_of_lt left.2.1) rfl
      (fun _ => rfl) fun a first limit => ?_
    simp only [le_iff_toNat_le,lt_iff_toNat_lt] at left first limit ⊢
    omega
  split
  next right =>
    refine .trim (.single held right.2.2) (UInt64.le_of_lt right.2.1) (UInt64.le_refl _) rfl (fun a => ?_)
      fun a first limit => ?_
    · cases file : e.isFile with
      | false =>
        simp [Entry.value,Entry.backing,Entry.isFile,show e.flags &&& vmMapFile = 0 by simpa [Entry.isFile] using file]
      | true =>
        have moved : e.offset + (stop - e.start) + (a - stop) = e.offset + (a - e.start) := by grind
        simp only [Entry.value,if_true,moved]
        rfl
    · simp only [le_iff_toNat_le,lt_iff_toNat_lt] at right first limit ⊢
      omega
  split
  next both =>
    obtain ⟨allocated,opening⟩ := success both.1 both.2
    rw [if_pos allocated]
    have tailHeld : (e.tailAt stop).Held fs := held
    obtain ⟨vnode,shape,files,heldTail,settled,value⟩ := duplicate_spec tailHeld opening
    refine .split held reversed both.1 both.2 files heldTail (by rw [shape]; exact ⟨rfl,rfl⟩) (fun a => ?_) settled
    rw [value,Entry.value,Entry.value]
    have same : (e.tailAt stop).backing = e.backing := rfl
    rw [same]
    cases backed : e.backing with
    | none => rfl
    | some fd =>
      have moved : e.offset + (stop - e.start) + (a - stop) = e.offset + (a - e.start) := by grind
      simp only [Entry.tailAt,backed,Option.isSome_some,if_true,moved]
  · simp only [le_iff_toNat_le,lt_iff_toNat_lt] at *
    omega

lemma removeWalk_spec {o : Outcomes} (k : Nat) (count : UInt32) (proper : Proper fs xs) (reversed : start ≤ stop)
    (success : ∀ i (e : Entry), xs[i]? = some e → e.Splits fs start stop (o.kmalloc (k + i)) (o.fopen (k + i))) :
    Cut start stop fs xs count (removeWalk start stop o k xs count fs).2.2 (removeWalk start stop o k xs count fs).1
      (removeWalk start stop o k xs count fs).2.1 := by
  induction xs generalizing k count fs with
  | nil => exact .unchanged proper nofun
  | cons e rest ih =>
    obtain ⟨behind,sorted⟩ := pairwise_cons.mp proper.sorted
    rw [removeWalk]
    split
    next passed =>
      refine .unchanged proper fun p inside a _ limit => ?_
      rw [Bool.eq_false_iff]
      intro covers
      have lower := (Entry.covers_iff.mp covers).1
      have nonempty := proper.proper e mem_cons_self
      rcases mem_cons.mp inside with rfl | inside
      · simp only [le_iff_toNat_le,lt_iff_toNat_lt] at passed limit lower
        omega
      have later := behind p inside
      simp only [le_iff_toNat_le,lt_iff_toNat_lt] at passed limit lower later nonempty
      omega
    next reached =>
      have alone : Proper fs [e] := .single (proper.held e mem_cons_self) (proper.proper e mem_cons_self)
      have others : Proper fs rest :=
        ⟨fun p inside => proper.held p (.tail e inside),fun p inside => proper.proper p (.tail e inside),sorted⟩
      have first := removeEntry_spec count alone reversed (UInt64.not_le.mp reached) (success 0 e rfl)
      have second := ih (k + 1) (removeEntry start stop (o.kmalloc k) (o.fopen k) e count fs).2.1
        (others.mono first.files) fun i p here => by
          rw [Nat.add_assoc,Nat.add_comm 1 i]
          refine fun low high => (success (i + 1) p here low high).imp_right fun reopens => ?_
          exact reopens.mono (others.held p (List.mem_of_getElem? here)) first.files
      exact first.append second proper

end

section

lemma Proper.nil (fs : Files) : Proper fs [] := ⟨nofun,nofun,.nil⟩

def Free (start stop : UInt64) (xs : List Entry) : Prop := ∀ e ∈ xs, stop ≤ e.start ∨ e.stop ≤ start

lemma Proper.place (proper : Proper fs xs) (held : x.Held fs) (nonempty : x.start < x.stop)
    (free : Free x.start x.stop xs) : Proper fs (SearchTree.place (fun other => x.start < other.start) x xs) := by
  have member (p : Entry) (inside : p ∈ SearchTree.place (fun other => x.start < other.start) x xs) : p = x ∨ p ∈ xs :=
    mem_cons.mp ((SearchTree.place_perm _ x xs).mem_iff.mp inside)
  refine ⟨fun p inside => ?_,fun p inside => ?_,?_⟩
  · rcases member p inside with rfl | old
    · exact held
    · exact proper.held p old
  · rcases member p inside with rfl | old
    · exact nonempty
    · exact proper.proper p old
  clear member
  induction xs with
  | nil => exact List.pairwise_singleton ..
  | cons y ys ih =>
    obtain ⟨behind,sorted⟩ := pairwise_cons.mp proper.sorted
    have proper_y := proper.proper y mem_cons_self
    have here := free y mem_cons_self
    rw [SearchTree.place]
    split
    next less =>
      refine pairwise_cons.mpr ⟨fun z inside => ?_,proper.sorted⟩
      simp only [decide_eq_true_eq,le_iff_toNat_le,lt_iff_toNat_lt] at less here proper_y ⊢
      rcases mem_cons.mp inside with rfl | inside
      · omega
      · have later := le_iff_toNat_le.mp (behind z inside)
        omega
    rename_i notLess
    have others : Proper fs ys :=
      ⟨fun p inside => proper.held p (.tail y inside),fun p inside => proper.proper p (.tail y inside),sorted⟩
    refine pairwise_cons.mpr ⟨fun z inside => ?_,ih others fun e inside => free e (.tail y inside)⟩
    rcases mem_cons.mp ((SearchTree.place_perm _ x ys).mem_iff.mp inside) with rfl | inside
    · simp only [decide_eq_true_eq,le_iff_toNat_le,lt_iff_toNat_lt] at notLess here nonempty ⊢
      omega
    · exact behind z inside

lemma meaning_place (fs : Files) (free : Free x.start x.stop xs) (a : UInt64) :
    meaning fs (SearchTree.place (fun other => x.start < other.start) x xs) a =
      if x.start ≤ a ∧ a < x.stop then some (x.value fs a) else meaning fs xs a := by
  induction xs with
  | nil => exact meaning_single fs x a
  | cons y ys ih =>
    rw [SearchTree.place]
    split
    · rw [← singleton_append,meaning_append,meaning_single]
      split <;> rfl
    rw [← singleton_append,meaning_append,ih fun e inside => free e (.tail y inside)]
    split
    next inside =>
      have apart := free y mem_cons_self
      rw [meaning_single,if_neg,Option.none_or]
      simp only [le_iff_toNat_le,lt_iff_toNat_lt] at inside apart ⊢
      omega
    · rw [← meaning_append]
      rfl

lemma count_fds_place (less : Entry → Bool) (x : Entry) (xs : List Entry) (fd : Nat) :
    (fds (SearchTree.place less x xs)).count fd = x.vnode.toList.count fd + (fds xs).count fd := by
  have perm : (fds (SearchTree.place less x xs)).Perm (fds (x :: xs)) :=
    (SearchTree.place_perm less x xs).filterMap Entry.vnode
  rw [perm.count_eq,fds_cons,count_append]

/-- Every tree of the entries gets the new one at the place that the model gives it. -/
lemma rbInsert_descends {map : VmMap} (proper : Proper fs map.entries) (tree : SearchTree Entry)
    (order : tree.toList = map.entries) (x : Entry) :
    (tree.insert (fun other => x.start < other.start) x).toList = (map.rbInsert x).entries := by
  rw [SearchTree.toList_insert,order]
  · rfl
  rw [order]
  refine proper.sorted.imp_of_mem fun {y z} first _ apart less => ?_
  have nonempty := proper.proper y first
  simp only [decide_eq_true_eq,le_iff_toNat_le,lt_iff_toNat_lt] at *
  omega

/-- A descent finds the entry that an address lies in, whatever the shape of the tree. -/
lemma lookup_spec (proper : Proper fs xs) (tree : SearchTree Entry) (order : tree.toList = xs) (a : UInt64) :
    lookup tree a = xs.find? (·.covers a) := by
  rw [lookup,SearchTree.find_eq]
  · congr 1
    funext e
    rw [Entry.cmpKey,Entry.covers]
    split
    next before => simp [UInt64.not_le.mpr before]
    rename_i notBefore
    split
    next behind => simp [UInt64.not_lt.mpr behind]
    next notBehind => simp [UInt64.not_lt.mp notBefore,UInt64.not_le.mp notBehind]
  rw [order]
  refine proper.sorted.imp_of_mem fun {y z} first _ apart side => ?_
  have nonempty := proper.proper y first
  have less : a < z.start := by
    by_contra notLess
    refine side ?_
    simp only [le_iff_toNat_le,lt_iff_toNat_lt] at notLess nonempty apart
    rw [Entry.cmpKey,if_neg,if_pos]
    · rw [le_iff_toNat_le]
      omega
    · rw [lt_iff_toNat_lt]
      omega
  rw [Entry.cmpKey,if_pos less]

lemma Settled.trans (first : Settled fs xs fs' xs')
    (second : Settled fs' xs' fs'' xs'') (files : fs.Extends fs') (files' : fs'.Extends fs'') :
    Settled fs xs fs'' xs'' := by
  intro fd
  have one := first fd
  have two := second fd
  rw [opened_trans files files']
  omega

lemma free_spec (fs : Files) (held : ∀ e ∈ xs, e.Held fs) :
    fs.Extends (xs.foldl Files.release fs) ∧ Settled fs xs (xs.foldl Files.release fs) [] := by
  induction xs generalizing fs with
  | nil => exact ⟨.refl fs,.refl fs []⟩
  | cons e rest ih =>
    have first := Files.Extends.release fs e
    obtain ⟨files,settled⟩ := ih (fs.release e) fun p inside => (held p (.tail e inside)).mono first
    exact ⟨first.trans files,(Settled.release (held e mem_cons_self)).append settled first files⟩

/-- What copying `rest` behind the entries of `dst` comes to. -/
structure Copied (fs : Files) (dst : VmMap) (rest : List Entry) (done : Bool) (dst' : VmMap) (fs' : Files) : Prop where
  files : fs.Extends fs'
  proper : Proper fs' dst'.entries
  settled : Settled fs dst.entries fs' dst'.entries
  count : dst'.nentries + UInt32.ofNat dst.entries.length = dst.nentries + UInt32.ofNat dst'.entries.length
  equal : done = true → ∀ a, meaning fs' dst'.entries a = meaning fs (dst.entries ++ rest) a

lemma Proper.left (proper : Proper fs (xs ++ ys)) : Proper fs xs :=
  ⟨fun p inside => proper.held p (List.mem_append_left _ inside),
    fun p inside => proper.proper p (List.mem_append_left _ inside),(pairwise_append.mp proper.sorted).1⟩

lemma Proper.replace (proper : Proper fs (xs ++ x :: ys))
    (held : ({ x with vnode } : Entry).Held fs) : Proper fs (xs ++ { x with vnode } :: ys) := by
  obtain ⟨sorted,sorted',across⟩ := pairwise_append.mp proper.sorted
  have inside : x ∈ xs ++ x :: ys := mem_append_right _ mem_cons_self
  have cases {p : Entry} (member : p ∈ xs ++ { x with vnode } :: ys) : p = { x with vnode } ∨ p ∈ xs ++ x :: ys := by
    simp only [mem_append,mem_cons] at member ⊢
    tauto
  refine ⟨fun p member => ?_,fun p member => ?_,?_⟩
  · rcases cases member with rfl | old
    · exact held
    · exact proper.held p old
  · rcases cases member with rfl | old
    · exact proper.proper x inside
    · exact proper.proper p old
  refine pairwise_append.mpr ⟨sorted,pairwise_cons.mpr (pairwise_cons.mp sorted'),fun p before q behind => ?_⟩
  rcases mem_cons.mp behind with rfl | behind
  · exact across p before x mem_cons_self
  · exact across p before q (.tail x behind)

lemma rbInsert_last {dst : VmMap} (proper : Proper fs (dst.entries ++ x :: ys)) (vnode : Option Nat) :
    (dst.rbInsert { x with vnode }).entries = dst.entries ++ [{ x with vnode }] := by
  have across := (pairwise_append.mp proper.sorted).2.2
  have before (p : Entry) (inside : p ∈ dst.entries) : decide (x.start < p.start) = false := by
    have apart := across p inside x mem_cons_self
    have nonempty := proper.left.proper p inside
    simp only [decide_eq_false_iff_not,le_iff_toNat_le,lt_iff_toNat_lt] at *
    omega
  have placed := SearchTree.place_append _ { x with vnode } before []
  rwa [append_nil] at placed

lemma copyWalk_spec (k : Nat) (dst : VmMap) (proper : Proper fs (dst.entries ++ rest))
    (success : ∀ i (e : Entry), rest[i]? = some e → e.Reopens fs (o.fopen (k + i))) :
    Copied fs dst rest (copyWalk o k rest dst fs).1 (copyWalk o k rest dst fs).2.1 (copyWalk o k rest dst fs).2.2 := by
  induction rest generalizing k dst fs with
  | nil =>
    rw [append_nil] at proper
    exact ⟨.refl fs,proper,.refl fs _,rfl,fun _ _ => by rw [append_nil]; rfl⟩
  | cons e rest ih =>
    rw [copyWalk]
    split
    · have opens : e.Reopens fs (o.fopen k) := success 0 e rfl
      have inside : e ∈ dst.entries ++ e :: rest := mem_append_right _ mem_cons_self
      obtain ⟨vnode,shape,files,held,settled,value⟩ := duplicate_spec (proper.held e inside) opens
      rcases dup : fs.duplicate e (o.fopen k) with ⟨de,fs1⟩
      rw [dup] at shape files held settled value
      subst shape
      have last := rbInsert_last proper vnode
      have proper' := (proper.mono files).replace held
      rw [← singleton_append,← List.append_assoc,← last] at proper'
      have later := ih (k + 1) _ proper' fun i p here => by
        rw [Nat.add_assoc,Nat.add_comm 1 i]
        have behind : p ∈ dst.entries ++ e :: rest := mem_append_right _ (.tail e (List.mem_of_getElem? here))
        exact (success (i + 1) p here).mono (proper.held p behind) files
      have added : Settled fs dst.entries fs1 (dst.rbInsert { e with vnode }).entries := by
        have both := (Settled.refl fs dst.entries).append settled (.refl fs) files
        rwa [append_nil,← last] at both
      refine ⟨files.trans later.files,later.proper,added.trans later.settled files later.files,?_,fun done a => ?_⟩
      · have count := later.count
        rw [last,length_append,UInt32.ofNat_add] at count
        change _ + (_ + 1) = dst.nentries + 1 + _ at count
        grind
      have same : meaning fs1 rest a = meaning fs rest a :=
        meaning_extends (fun p behind => proper.held p (mem_append_right _ (.tail e behind))) files a
      have here : meaning fs1 [{ e with vnode }] a = meaning fs [e] a := by rw [meaning_single,meaning_single,value]
      rw [later.equal done,last,meaning_append,meaning_append,meaning_extends proper.left.held files,here,same,
        Option.or_assoc,← meaning_append,← meaning_append]
      rfl
    · exact ⟨.refl fs,proper.left,.refl fs _,rfl,nofun⟩

end

end UbixOS.Vmm.Map
