import UbixOS.Library.Fallible
import UbixOS.Library.Run
import UbixOS.Library.Span

/-! The kernel heap (`sys/lib/kmalloc.c`): page runs from the VMM cut into blocks, with
a list of descriptors for the blocks in use and an address-ordered, coalescing list of
the free ones. Block contents are not modelled. -/
namespace UbixOS.Kmalloc

open List (mem_cons_self mem_singleton mem_cons)

open Library

abbrev pageSize : Nat := 4096
abbrev mallocAlignSize : Nat := 32

/-- `MALLOC_ALIGN` in 32-bit arithmetic. -/
def mallocAlign (size : Nat) : Nat :=
  (size + if size % mallocAlignSize = 0 then 0 else mallocAlignSize - size % mallocAlignSize) % 2^32

structure MemDescriptor where
  baseAddr : Nat
  limit : Nat
  deriving DecidableEq, Repr

def MemDescriptor.span (d : MemDescriptor) : Span := ⟨d.baseAddr,d.limit⟩

open MemDescriptor (span)

/-- The three descriptor lists, and the page runs obtained so far, newest first. Of the
empty descriptors only the number matters. -/
structure Heap where
  used : List MemDescriptor
  free : List MemDescriptor
  empty : Nat
  runs : List Span
  tables : List Span

def Heap.boot : Heap := ⟨[],[],0,[],[]⟩

inductive Panic
  | noDescriptors
  | zeroLimit
  | nothingUsed
  | doubleFree
  deriving DecidableEq, Repr

abbrev HeapM := Fallible Panic Heap

/-- `vmm_get_free_malloc_page`: the answer to a request for pages after the runs given out so far. -/
abbrev Vmm := List Span → Nat → Option Nat

/-- Descriptors in the four pages a new table takes. -/
abbrev tableDescriptors : Nat := 0x4000 / 32

section

variable (vmm : Vmm)

/-- A request as the 16-bit parameter passes it on. -/
def vmmGetFreeMallocPage (count : Nat) : HeapM (Option Nat) := ⟨fun h =>
  (.ok (vmm (h.runs ++ h.tables) (count % 2^16)),h)⟩

def getEmptyDesc : HeapM Unit := do
  let h ← Fallible.get
  if 0 < h.empty then Fallible.modify fun h => { h with empty := h.empty - 1 }
  else do
    match ← vmmGetFreeMallocPage vmm 4 with
    | none => Fallible.fail .noDescriptors
    | some base => Fallible.modify fun h =>
        { h with empty := tableDescriptors - 1, tables := ⟨base,4 * pageSize⟩ :: h.tables }

def returnEmptyDesc : HeapM Unit := Fallible.modify fun h => { h with empty := h.empty + 1 }

/-- The free block after its neighbour above has been taken in, if they meet. -/
def mergeNext (d : MemDescriptor) : List MemDescriptor → MemDescriptor × List MemDescriptor × Nat
  | [] => (d,[],0)
  | next :: rest =>
    if (d.baseAddr + d.limit) % 2^64 = next.baseAddr then ({ d with limit := (d.limit + next.limit) % 2^32 },rest,1)
    else (d,next :: rest,0)

/-- The blocks below `d`, in order, and `d` itself, which joins the last of them if they meet. -/
def mergePrev : List MemDescriptor → MemDescriptor → List MemDescriptor × Nat
  | [], d => ([d],0)
  | [prev], d =>
    if (prev.baseAddr + prev.limit) % 2^64 = d.baseAddr then ([{ prev with limit := (prev.limit + d.limit) % 2^32 }],1)
    else ([prev,d],0)
  | first :: second :: rest, d =>
    let merged := mergePrev (second :: rest) d
    (first :: merged.1,merged.2)

def below (d : MemDescriptor) (free : List MemDescriptor) : List MemDescriptor :=
  free.takeWhile fun e => ¬ d.baseAddr < e.baseAddr

def above (d : MemDescriptor) (free : List MemDescriptor) : List MemDescriptor :=
  free.dropWhile fun e => ¬ d.baseAddr < e.baseAddr

/-- `insertFreeDesc`: in address order, then joined with the next and the previous block. -/
def insertFreeDesc (d : MemDescriptor) : HeapM Unit := do
  Fallible.require (d.limit ≠ 0) .zeroLimit
  Fallible.modify fun h =>
    let next := mergeNext d (above d h.free)
    let prev := mergePrev (below d h.free) next.1
    { h with free := prev.1 ++ next.2.1, empty := h.empty + next.2.2 + prev.2 }

/-- First fit: the block found, and the list without it. -/
def takeFit (len : Nat) : List MemDescriptor → Option (MemDescriptor × List MemDescriptor)
  | [] => none
  | d :: rest =>
    if len ≤ d.limit then some (d,rest)
    else (takeFit len rest).map fun found => (found.1,d :: found.2)

/-- A free block, cut to size and put on the used list. -/
def useFree (len : Nat) (d : MemDescriptor) : HeapM Nat := do
  Fallible.onlyIf (len < d.limit) do
    getEmptyDesc vmm
    insertFreeDesc ⟨d.baseAddr + len,d.limit - len⟩
  Fallible.modify fun h => { h with used := ⟨d.baseAddr,if len < d.limit then len else d.limit⟩ :: h.used }
  return d.baseAddr

/-- Pages for `len` bytes, in 32-bit arithmetic. -/
def pagesFor (len : Nat) : Nat := (len + 4095) % 2^32 / 4096

/-- A new page run; its tail above `len` goes to the free list. -/
def usePages (len : Nat) : HeapM (Option Nat) := do
  getEmptyDesc vmm
  let pages := pagesFor len
  match ← vmmGetFreeMallocPage vmm pages with
  | none => do
    returnEmptyDesc
    return none
  | some base => do
    Fallible.modify fun h => { h with
      used := ⟨base,len⟩ :: h.used, runs := ⟨base,pages % 2^16 * pageSize⟩ :: h.runs }
    Fallible.onlyIf (len < pages * 4096 % 2^32) do
      getEmptyDesc vmm
      insertFreeDesc ⟨base + len,(pages * 4096 % 2^32) - len⟩
    return some base

def kmalloc (len : Nat) : HeapM (Option Nat) :=
  if 0xFFFFFFE0 < len then pure none
  else
    let len := mallocAlign len
    if len = 0 then pure none
    else do
      let h ← Fallible.get
      match takeFit len h.free with
      | some (d,rest) => do
        Fallible.modify fun h => { h with free := rest }
        let base ← useFree vmm len d
        return some base
      | none => usePages vmm len

end

/-- The block of that address off the used list, newest first. -/
def takeUsed (addr : Nat) : List MemDescriptor → Option (MemDescriptor × List MemDescriptor)
  | [] => none
  | d :: rest =>
    if d.baseAddr = addr then some (d,rest)
    else (takeUsed addr rest).map fun found => (found.1,d :: found.2)

def kfree (addr : Nat) : HeapM Unit :=
  if addr = 0 then pure ()
  else do
    let h ← Fallible.get
    Fallible.require (h.used ≠ []) .nothingUsed
    match takeUsed addr h.used with
    | some (d,rest) => do
      Fallible.modify fun h => { h with used := rest }
      insertFreeDesc d
    | none => Fallible.require (h.free.all fun d => d.baseAddr ≠ addr) .doubleFree

inductive Event
  | malloc (len : UInt32)
  | free (addr : Nat)

/-- The heap beside the blocks its callers hold, with the sizes they asked for. -/
structure Sys where
  heap : Heap
  held : List Span
  stopped : Bool

def Sys.boot : Sys := ⟨Heap.boot,[],false⟩

def Sys.malloc (vmm : Vmm) (s : Sys) (len : UInt32) : Sys :=
  match (kmalloc vmm len.toNat).run s.heap with
  | (.ok none,h) => { s with heap := h }
  | (.ok (some p),h) => { s with heap := h, held := ⟨p,len.toNat⟩ :: s.held }
  | (.error _,h) => { s with heap := h, stopped := true }

def Sys.free (s : Sys) (addr : Nat) : Sys :=
  match (kfree addr).run s.heap with
  | (.ok _,h) => { s with heap := h, held := s.held.filter fun block => block.base ≠ addr }
  | (.error _,h) => { s with heap := h, stopped := true }

/-- A stopped kernel takes no more calls. -/
def step (vmm : Vmm) (s : Sys) (e : Event) : Sys :=
  if s.stopped then s
  else match e with
    | .malloc len => s.malloc vmm len
    | .free addr => s.free addr

def blocks (descs : List MemDescriptor) : List Span := descs.map MemDescriptor.span

@[simp] lemma blocks_nil : blocks [] = [] := rfl

@[simp] lemma blocks_cons (d : MemDescriptor) (descs : List MemDescriptor) :
    blocks (d :: descs) = d.span :: blocks descs := rfl

@[simp] lemma blocks_append (first second : List MemDescriptor) :
    blocks (first ++ second) = blocks first ++ blocks second := List.map_append

structure MemDescriptor.Ok (d : MemDescriptor) : Prop where
  place : d.baseAddr % mallocAlignSize = 0
  size : d.limit % mallocAlignSize = 0
  small : d.limit < 2^32
  some : 0 < d.baseAddr
  top : d.baseAddr + d.limit ≤ 2^64

/-- Two blocks that meet, as one; a size that does not fit in 32 bits loses its upper part. -/
lemma MemDescriptor.Ok.join {d e : MemDescriptor} (ok : d.Ok) (ok' : e.Ok)
    (meets : (d.baseAddr + d.limit) % 2^64 = e.baseAddr) :
    MemDescriptor.Ok { d with limit := (d.limit + e.limit) % 2^32 } ∧
      ∀ a, Span.count ⟨d.baseAddr,(d.limit + e.limit) % 2^32⟩ a ≤ d.span.count a + e.span.count a := by
  have top := ok.top
  have top' := ok'.top
  have size := ok.size
  have size' := ok'.size
  have some' := ok'.some
  have next : e.baseAddr = d.baseAddr + d.limit := by
    by_cases full : d.baseAddr + d.limit = 2^64
    · omega
    · rw [Nat.mod_eq_of_lt (by omega)] at meets
      exact meets.symm
  refine ⟨⟨ok.place,?_,Nat.mod_lt _ (by decide),ok.some,?_⟩,fun a => ?_⟩
  · simp only [mallocAlignSize] at *
    omega
  · dsimp only
    omega
  have shorter := Span.count_mono d.baseAddr (Nat.mod_le (d.limit + e.limit) (2^32)) a
  rw [Span.count_join] at shorter
  rw [span,span,next]
  exact shorter

lemma mergeNext_ok {d : MemDescriptor} (ok : d.Ok) (oks : ∀ e ∈ after, e.Ok) :
    (mergeNext d after).1.Ok ∧ (∀ e ∈ (mergeNext d after).2.1, e.Ok) ∧
      ∀ a, (mergeNext d after).1.span.count a + cover (blocks (mergeNext d after).2.1) a ≤
        d.span.count a + cover (blocks after) a := by
  cases after with
  | nil => exact ⟨ok,oks,fun a => Nat.le_refl _⟩
  | cons next rest =>
    rw [mergeNext]
    split
    next meets =>
      obtain ⟨joined,fewer⟩ := ok.join (oks next mem_cons_self) meets
      refine ⟨joined,fun e member => oks e (.tail next member),fun a => ?_⟩
      have := fewer a
      simp only [span,blocks_cons,cover_cons] at *
      omega
    · exact ⟨ok,oks,fun a => Nat.le_refl _⟩

lemma mergePrev_ok {before : List MemDescriptor} (ok : d.Ok) (oks : ∀ e ∈ before, e.Ok) :
    (∀ e ∈ (mergePrev before d).1, e.Ok) ∧
      ∀ a, cover (blocks (mergePrev before d).1) a ≤ cover (blocks before) a + d.span.count a := by
  induction before with
  | nil =>
    refine ⟨fun e member => ?_,fun a => ?_⟩
    · cases mem_singleton.mp member
      exact ok
    · simp [mergePrev]
  | cons first before ih =>
    cases before with
    | nil =>
      rw [mergePrev]
      split
      next meets =>
        obtain ⟨joined,fewer⟩ := (oks first mem_cons_self).join ok meets
        refine ⟨fun e member => ?_,fun a => ?_⟩
        · cases mem_singleton.mp member
          exact joined
        have := fewer a
        simp only [span,blocks_cons,cover_cons] at *
        omega
      · refine ⟨fun e member => ?_,fun a => ?_⟩
        · rcases mem_cons.mp member with rfl | member
          · exact oks e mem_cons_self
          · cases mem_singleton.mp member
            exact ok
        · simp
    | cons second rest =>
      obtain ⟨oks',fewer⟩ := ih fun e member => oks e (.tail first member)
      refine ⟨fun e member => ?_,fun a => ?_⟩
      · rcases mem_cons.mp member with rfl | member
        · exact oks e mem_cons_self
        · exact oks' e member
      · have := fewer a
        simp only [mergePrev,blocks_cons,cover_cons] at *
        omega

/-- No address is in two blocks, every block lies in the page runs obtained, and the
`loose` blocks are on no list at the moment. -/
structure Good (h : Heap) (loose : List MemDescriptor) : Prop where
  inside : ∀ a, cover (blocks h.used) a + cover (blocks h.free) a + cover (blocks loose) a ≤ cover h.runs a
  once : ∀ a, cover h.runs a + cover h.tables a ≤ 1
  used : ∀ d ∈ h.used, d.Ok ∧ 0 < d.limit
  free : ∀ d ∈ h.free, d.Ok
  loose : ∀ d ∈ loose, d.Ok ∧ 0 < d.limit

/-- What is assumed of the VMM: NULL, or a fresh run of exactly that many pages. -/
structure Fresh (vmm : Vmm) : Prop where
  positive : ∀ {runs n base}, vmm runs n = some base → 0 < base
  page : ∀ {runs n base}, vmm runs n = some base → base % pageSize = 0
  top : ∀ {runs n base}, vmm runs n = some base → base + n * pageSize ≤ 2^64
  apart : ∀ {runs n base}, vmm runs n = some base → ∀ run ∈ runs, Span.Apart ⟨base,n * pageSize⟩ run

lemma Fresh.once (fresh : Fresh vmm) (answer : vmm runs n = some base) (disjoint : ∀ a, cover runs a ≤ 1) (a : Nat) :
    Span.count ⟨base,n * pageSize⟩ a + cover runs a ≤ 1 := by
  by_cases here : Span.Has ⟨base,n * pageSize⟩ a
  · have none : cover runs a = 0 := by
      by_contra some
      obtain ⟨run,member,has⟩ := has_of_cover (Nat.pos_of_ne_zero some)
      exact fresh.apart answer run member a here has
    have := Span.count_le_one ⟨base,n * pageSize⟩ a
    omega
  · have zero : Span.count ⟨base,n * pageSize⟩ a = 0 := if_neg here
    have := disjoint a
    omega

section

variable (fresh : Fresh vmm)

include fresh in
lemma getEmptyDesc_good (good : Good h loose) (run : (getEmptyDesc vmm).run h = (.ok (),h')) :
    Good h' loose ∧ h'.used = h.used ∧ h'.runs = h.runs := by
  rw [getEmptyDesc,Fallible.run_get_bind] at run
  split at run
  · cases run
    exact ⟨⟨good.inside,good.once,good.used,good.free,good.loose⟩,rfl,rfl⟩
  rw [Fallible.run_bind] at run
  dsimp only [vmmGetFreeMallocPage] at run
  cases answer : vmm (h.runs ++ h.tables) (4 % 2^16) with
  | none =>
    rw [answer] at run
    cases run
  | some base =>
    rw [answer] at run
    cases run
    refine ⟨⟨good.inside,fun a => ?_,good.used,good.free,good.loose⟩,rfl,rfl⟩
    have both := fresh.once answer (fun a => by rw [cover_append]; exact good.once a) a
    have four : (4 % 2^16) * pageSize = 4 * pageSize := rfl
    rw [cover_append,four] at both
    simp only [cover_cons]
    omega

lemma insertFreeDesc_good (good : Good h (d :: loose))
    (run : (insertFreeDesc d).run h = (.ok (),h')) : Good h' loose ∧ h'.used = h.used ∧ h'.runs = h.runs := by
  obtain ⟨ok,some⟩ := good.loose d mem_cons_self
  rw [insertFreeDesc,Fallible.run_bind_ok] at run
  obtain ⟨_,_,allowed,run⟩ := run
  rw [Fallible.run_require_ok] at allowed
  obtain ⟨-,rfl⟩ := allowed
  cases run
  have split : below d h.free ++ above d h.free = h.free := List.takeWhile_append_dropWhile
  have lower e (member : e ∈ below d h.free) : e.Ok := good.free e (split ▸ List.mem_append_left _ member)
  have upper e (member : e ∈ above d h.free) : e.Ok := good.free e (split ▸ List.mem_append_right _ member)
  obtain ⟨ok',oks,fewer⟩ := mergeNext_ok ok upper
  obtain ⟨oks',fewer'⟩ := mergePrev_ok ok' lower
  refine ⟨⟨fun a => ?_,good.once,good.used,fun e member => ?_,fun e member => good.loose e (.tail d member)⟩,rfl,rfl⟩
  · have inside := good.inside a
    have next := fewer a
    have prev := fewer' a
    rw [← split] at inside
    simp only [blocks_append,blocks_cons,cover_append,cover_cons] at *
    omega
  · rcases List.mem_append.mp member with member | member
    · exact oks' e member
    · exact oks e member

end

/-- The first block that meets the condition, and the list without it. -/
lemma taken_some {p : MemDescriptor → Prop} [DecidablePred p]
    {take : List MemDescriptor → Option (MemDescriptor × List MemDescriptor)} (nil : take [] = none)
    (cons : ∀ e l, take (e :: l) = if p e then some (e,l) else (take l).map fun found => (found.1,e :: found.2))
    (found : take l = some (d,rest)) : p d ∧ (∀ e, e ∈ l ↔ e = d ∨ e ∈ rest) ∧
      ∀ a, cover (blocks l) a = d.span.count a + cover (blocks rest) a := by
  induction l generalizing rest with
  | nil => cases nil.symm.trans found
  | cons e l ih =>
    rw [cons] at found
    split at found
    · cases found
      exact ⟨‹_›,fun e => mem_cons,fun a => rfl⟩
    rw [Option.map_eq_some_iff] at found
    obtain ⟨⟨d',rest'⟩,found,same⟩ := found
    cases same
    obtain ⟨fits,members,count⟩ := ih found
    refine ⟨fits,fun e' => ?_,fun a => ?_⟩
    · rw [mem_cons,members,mem_cons]
      tauto
    have := count a
    simp only [blocks_cons,cover_cons] at *
    omega

lemma mallocAlign_spec (small : len ≤ 0xFFFFFFE0) :
    len ≤ mallocAlign len ∧ mallocAlign len % mallocAlignSize = 0 ∧ mallocAlign len < 2^32 := by
  simp only [mallocAlign,mallocAlignSize]
  split <;> omega

/-- A request that a free block serves, or whose page count fits the VMM's 16-bit parameter. -/
def Fits (h : Heap) (len : Nat) : Prop :=
  len ≤ 0xFFFFFFE0 → mallocAlign len ≤ 65535 * pageSize ∨ ∃ d ∈ h.free, mallocAlign len ≤ d.limit

lemma takeFit_none (none : takeFit len free = none) : ∀ d ∈ free, d.limit < len := by
  induction free with
  | nil => nofun
  | cons e free ih =>
    rw [takeFit] at none
    split at none
    · cases none
    intro d member
    rcases mem_cons.mp member with rfl | member
    · omega
    · exact ih (Option.map_eq_none_iff.mp none) d member

section

variable {loose : List MemDescriptor}

lemma Good.use (good : Good h (d :: loose)) : Good { h with used := d :: h.used } loose := by
  refine ⟨fun a => ?_,good.once,fun e member => ?_,good.free,fun e member => good.loose e (.tail d member)⟩
  · have := good.inside a
    simp only [blocks_cons,cover_cons] at *
    omega
  · rcases mem_cons.mp member with rfl | member
    · exact good.loose e mem_cons_self
    · exact good.used e member

lemma Good.swap (good : Good h (d :: e :: loose)) : Good h (e :: d :: loose) := by
  refine ⟨fun a => ?_,good.once,good.used,good.free,fun e' member => ?_⟩
  · have := good.inside a
    simp only [blocks_cons,cover_cons] at *
    omega
  · apply good.loose
    simp only [mem_cons] at *
    tauto

lemma Good.cut (good : Good h (d :: loose)) (positive : 0 < len) (shorter : len < d.limit)
    (aligned : len % mallocAlignSize = 0) :
    Good h (⟨d.baseAddr,len⟩ :: ⟨d.baseAddr + len,d.limit - len⟩ :: loose) := by
  obtain ⟨ok,-⟩ := good.loose d mem_cons_self
  obtain ⟨place,size,small,low,top⟩ := ok
  refine ⟨fun a => ?_,good.once,good.used,good.free,fun e member => ?_⟩
  · have := good.inside a
    have whole := Span.count_join d.baseAddr len (d.limit - len) a
    rw [Nat.add_sub_cancel' (Nat.le_of_lt shorter)] at whole
    simp only [blocks_cons,cover_cons,span] at *
    omega
  simp only [mallocAlignSize] at *
  rcases mem_cons.mp member with rfl | member
  · exact ⟨⟨place,aligned,by dsimp only; omega,low,by dsimp only; omega⟩,positive⟩
  rcases mem_cons.mp member with rfl | member
  · exact ⟨⟨by simp only [mallocAlignSize]; omega,by simp only [mallocAlignSize]; omega,by dsimp only; omega,
      by dsimp only; omega,by dsimp only; omega⟩,by dsimp only; omega⟩
  · exact good.loose e (.tail d member)

lemma Good.obtain (fresh : Fresh vmm) (good : Good h loose)
    (answer : vmm (h.runs ++ h.tables) n = some base) (positive : 0 < n) (fits : n ≤ 65535) :
    Good { h with runs := ⟨base,n * pageSize⟩ :: h.runs } (⟨base,n * pageSize⟩ :: loose) := by
  have both := fresh.once answer (fun a => by rw [cover_append]; exact good.once a)
  have page := fresh.page answer
  have top := fresh.top answer
  refine ⟨fun a => ?_,fun a => ?_,good.used,good.free,fun e member => ?_⟩
  · have := good.inside a
    simp only [blocks_cons,cover_cons,span]
    omega
  · have := both a
    simp only [cover_append,cover_cons] at *
    omega
  rcases mem_cons.mp member with rfl | member
  · simp only [pageSize] at page top
    exact ⟨⟨by simp only [mallocAlignSize]; omega,by simp only [mallocAlignSize,pageSize]; omega,
      by simp only [pageSize]; omega,fresh.positive answer,by omega⟩,
      by simp only [pageSize]; omega⟩
  · exact good.loose e member

end

/-- The block a successful request adds to the used list. -/
structure Gives (h : Heap) (p len : Nat) (h' : Heap) : Prop where
  good : Good h' []
  used : ∃ d, d.baseAddr = p ∧ len ≤ d.limit ∧ h'.used = d :: h.used

section

variable (fresh : Fresh vmm) (positive : 0 < len)
  (aligned : len % mallocAlignSize = 0)
include fresh positive aligned

lemma useFree_spec (good : Good h [d]) (fits : len ≤ d.limit)
    (run : (useFree vmm len d).run h = (.ok p,h')) : Gives h p len h' := by
  rw [useFree,Fallible.run_bind_ok] at run
  obtain ⟨_,h1,cut,run⟩ := run
  simp only [Fallible.run_modify_bind] at run
  obtain ⟨rfl,rfl⟩ := run
  by_cases larger : len < d.limit
  · rw [Fallible.onlyIf,if_pos larger,Fallible.run_bind_ok] at cut
    obtain ⟨_,h2,table,insert⟩ := cut
    obtain ⟨good2,used2,-⟩ := getEmptyDesc_good fresh (good.cut positive larger aligned).swap table
    obtain ⟨good1,used1,-⟩ := insertFreeDesc_good good2 insert
    rw [if_pos larger]
    exact ⟨good1.use,⟨d.baseAddr,len⟩,rfl,Nat.le_refl _,by rw [used1,used2]⟩
  · rw [Fallible.onlyIf,if_neg larger] at cut
    cases cut
    rw [if_neg larger]
    exact ⟨good.use,d,rfl,fits,rfl⟩

lemma usePages_spec (good : Good h []) (fits : len ≤ 65535 * pageSize) (run : (usePages vmm len).run h = (.ok r,h')) :
    (r = none ∧ Good h' [] ∧ h'.used = h.used) ∨ ∃ p, r = some p ∧ Gives h p len h' := by
  have pages : 0 < pagesFor len ∧ pagesFor len ≤ 65535 ∧ len ≤ pagesFor len * 4096 := by
    simp only [pagesFor,pageSize] at *
    omega
  obtain ⟨some',few,enough⟩ := pages
  have fit : pagesFor len % 2^16 = pagesFor len := Nat.mod_eq_of_lt (by omega)
  have whole : pagesFor len * 4096 % 2^32 = pagesFor len * 4096 := Nat.mod_eq_of_lt (by omega)
  rw [usePages,Fallible.run_bind_ok] at run
  obtain ⟨_,h1,table,run⟩ := run
  obtain ⟨good1,used1,-⟩ := getEmptyDesc_good fresh good table
  rw [Fallible.run_bind] at run
  dsimp only [vmmGetFreeMallocPage] at run
  rw [fit] at run
  cases answer : vmm (h1.runs ++ h1.tables) (pagesFor len) with
  | none =>
    rw [answer] at run
    obtain ⟨rfl,rfl⟩ := run
    exact .inl ⟨rfl,⟨good1.inside,good1.once,good1.used,good1.free,good1.loose⟩,used1⟩
  | some base =>
    rw [answer] at run
    simp only [Fallible.run_modify_bind,whole] at run
    rw [Fallible.run_bind_ok] at run
    obtain ⟨_,h2,tail,run⟩ := run
    obtain ⟨rfl,rfl⟩ := run
    have got := good1.obtain fresh answer some' few
    refine .inr ⟨base,rfl,?_⟩
    by_cases larger : len < pagesFor len * 4096
    · rw [Fallible.onlyIf,if_pos larger,Fallible.run_bind_ok] at tail
      obtain ⟨_,h3,table',insert⟩ := tail
      obtain ⟨good3,used3,-⟩ := getEmptyDesc_good fresh (got.cut positive larger aligned).use table'
      obtain ⟨good2,used2,-⟩ := insertFreeDesc_good good3 insert
      exact ⟨good2,⟨base,len⟩,rfl,Nat.le_refl _,by rw [used2,used3,used1]⟩
    · rw [Fallible.onlyIf,if_neg larger] at tail
      cases tail
      have exact : pagesFor len * pageSize = len := by simp only [pageSize]; omega
      rw [exact] at got ⊢
      exact ⟨got.use,⟨base,len⟩,rfl,Nat.le_refl _,by rw [used1]⟩

end

section

variable (fresh : Fresh vmm)
include fresh

lemma kmalloc_spec (good : Good h []) (fits : Fits h len) (run : (kmalloc vmm len).run h = (.ok r,h')) :
    (r = none ∧ Good h' [] ∧ h'.used = h.used) ∨ ∃ p, r = some p ∧ Gives h p len h' := by
  rw [kmalloc] at run
  split at run
  · cases run
    exact .inl ⟨rfl,good,rfl⟩
  have fits := fits (by omega)
  have short : len ≤ 0xFFFFFFE0 := by omega
  obtain ⟨longer,aligned,-⟩ := mallocAlign_spec short
  dsimp only at run
  split at run
  · cases run
    exact .inl ⟨rfl,good,rfl⟩
  have positive : 0 < mallocAlign len := by omega
  have wider {p : Nat} (gives : Gives h p (mallocAlign len) h') : Gives h p len h' := by
    obtain ⟨d,here,enough,used⟩ := gives.used
    exact ⟨gives.good,d,here,Nat.le_trans longer enough,used⟩
  rw [Fallible.run_get_bind] at run
  cases found : takeFit (mallocAlign len) h.free with
  | none =>
    rw [found] at run
    have pages : mallocAlign len ≤ 65535 * pageSize := by
      rcases fits with fits | ⟨d,member,fits⟩
      · exact fits
      · exact absurd fits (Nat.not_le.mpr (takeFit_none found d member))
    rcases usePages_spec fresh positive aligned good pages run with none | ⟨p,same,gives⟩
    · exact .inl none
    · exact .inr ⟨p,same,wider gives⟩
  | some pair =>
    obtain ⟨d,rest⟩ := pair
    rw [found] at run
    simp only [Fallible.run_modify_bind] at run
    rw [Fallible.run_bind_ok] at run
    obtain ⟨p,h1,use,run⟩ := run
    obtain ⟨rfl,rfl⟩ := run
    obtain ⟨enough,members,count⟩ := taken_some (p := (_ ≤ ·.limit)) rfl (fun _ _ => rfl) found
    have taken : Good { h with free := rest } [d] := by
      refine ⟨fun a => ?_,good.once,good.used,fun e member => good.free e ((members e).mpr (.inr member)),
        fun e member => ?_⟩
      · have := good.inside a
        have := count a
        simp only [blocks_cons,cover_cons] at *
        omega
      · cases mem_singleton.mp member
        exact ⟨good.free d ((members d).mpr (.inl rfl)),Nat.lt_of_lt_of_le positive enough⟩
    have gives := useFree_spec fresh positive aligned taken enough use
    exact .inr ⟨p,rfl,wider ⟨gives.good,gives.used⟩⟩

omit fresh in
lemma kfree_spec (good : Good h []) (run : (kfree addr).run h = (.ok (),h')) :
    Good h' [] ∧ ∀ d ∈ h.used, d.baseAddr ≠ addr → d ∈ h'.used := by
  rw [kfree] at run
  split at run
  · cases run
    exact ⟨good,fun d member _ => member⟩
  rw [Fallible.run_get_bind,Fallible.run_bind_ok] at run
  obtain ⟨_,_,allowed,run⟩ := run
  rw [Fallible.run_require_ok] at allowed
  obtain ⟨-,rfl⟩ := allowed
  cases found : takeUsed addr h.used with
  | none =>
    rw [found] at run
    obtain ⟨-,rfl⟩ := Fallible.run_require_ok.mp run
    exact ⟨good,fun d member _ => member⟩
  | some pair =>
    obtain ⟨d,rest⟩ := pair
    rw [found] at run
    obtain ⟨here,members,count⟩ := taken_some (p := (·.baseAddr = addr)) rfl (fun _ _ => rfl) found
    have taken : Good { h with used := rest } [d] := by
      refine ⟨fun a => ?_,good.once,fun e member => good.used e ((members e).mpr (.inr member)),good.free,
        fun e member => ?_⟩
      · have := good.inside a
        have := count a
        simp only [blocks_cons,cover_cons] at *
        omega
      · cases mem_singleton.mp member
        exact good.used d ((members d).mpr (.inl rfl))
    obtain ⟨good',used,-⟩ := insertFreeDesc_good taken run
    refine ⟨good',fun e member other => ?_⟩
    rcases (members e).mp member with rfl | kept
    · exact absurd here other
    · rw [used]
      exact kept

end

/-- Every block a caller holds is a used block, long enough. -/
structure Sys.Good (s : Sys) : Prop where
  heap : Kmalloc.Good s.heap []
  held : ∀ block ∈ s.held, ∃ d ∈ s.heap.used, d.baseAddr = block.base ∧ block.len ≤ d.limit

def Event.Fits (s : Sys) : Event → Prop
  | .malloc len => Kmalloc.Fits s.heap len.toNat
  | .free _ => True

/-- The answer to a request: aligned, inside the page runs, and apart from every block held. -/
structure Safe (s : Sys) (heap : Heap) (block : Span) : Prop where
  aligned : block.base % mallocAlignSize = 0
  inside : ∀ a, block.Has a → ∃ run ∈ heap.runs, run.Has a
  apart : ∀ other ∈ s.held, block.Apart other

lemma boot_good : Sys.boot.Good := ⟨⟨fun a => by simp [Sys.boot,Heap.boot],fun a => by simp [Sys.boot,Heap.boot],
  nofun,nofun,nofun⟩,nofun⟩

lemma held_span {d : MemDescriptor} {block : Span} (here : d.baseAddr = block.base) (enough : block.len ≤ d.limit)
    (has : block.Has a) : d.span.Has a := by
  obtain ⟨low,high⟩ := has
  refine ⟨?_,?_⟩ <;> simp only [span] <;> omega

lemma Gives.safe {s : Sys} {p len : Nat} (gives : Gives s.heap p len h') (good : s.Good) : Safe s h' ⟨p,len⟩ := by
  obtain ⟨d,here,enough,used⟩ := gives.used
  have member : d ∈ h'.used := used ▸ mem_cons_self
  have inside := gives.good.inside
  have once := gives.good.once
  refine ⟨?_,fun a has => ?_,fun other held a has has' => ?_⟩
  · rw [← here]
    exact (gives.good.used d member).1.place
  · apply has_of_cover
    have := inside a
    have count := Span.count_has (held_span (d := d) here enough has)
    rw [used,blocks_cons,cover_cons] at this
    omega
  obtain ⟨e,old,base,longer⟩ := good.held other held
  have all := inside a
  have := once a
  have third : e.span.count a ≤ cover (blocks s.heap.used) a := count_le_cover (List.mem_map_of_mem old) a
  rw [Span.count_has (held_span base longer has')] at third
  rw [used,blocks_cons,cover_cons,Span.count_has (held_span (d := d) here enough has)] at all
  omega

section

variable (fresh : Fresh vmm)
include fresh

lemma malloc_good {s : Sys} (good : s.Good) (fits : Fits s.heap len.toNat) :
    (s.malloc vmm len).stopped = false → (s.malloc vmm len).Good := by
  rcases result : (kmalloc vmm len.toNat).run s.heap with ⟨_ | r,h'⟩
  · rw [Sys.malloc,result]
    nofun
  intro _
  rcases kmalloc_spec fresh good.heap fits result with ⟨rfl,good',used⟩ | ⟨p,rfl,gives⟩
  · rw [Sys.malloc,result]
    exact ⟨good',fun block held => used ▸ good.held block held⟩
  rw [Sys.malloc,result]
  obtain ⟨d,here,enough,used⟩ := gives.used
  refine ⟨gives.good,fun block held => ?_⟩
  rcases mem_cons.mp held with rfl | held
  · exact ⟨d,used ▸ mem_cons_self,here,enough⟩
  · obtain ⟨e,old,rest⟩ := good.held block held
    exact ⟨e,used ▸ .tail d old,rest⟩

omit fresh in
lemma free_good {s : Sys} (good : s.Good) : (s.free addr).stopped = false → (s.free addr).Good := by
  rcases result : (kfree addr).run s.heap with ⟨_ | r,h'⟩
  · rw [Sys.free,result]
    nofun
  intro _
  rw [Sys.free,result]
  obtain ⟨good',kept⟩ := kfree_spec good.heap result
  refine ⟨good',fun block held => ?_⟩
  obtain ⟨held,other⟩ := List.mem_filter.mp held
  obtain ⟨d,used,here,enough⟩ := good.held block held
  exact ⟨d,kept d used (by simpa [here] using other),here,enough⟩

lemma step_good (s : Sys) (e : Event) (good : s.stopped = false → s.Good) (fits : e.Fits s) :
    (step vmm s e).stopped = false → (step vmm s e).Good := by
  by_cases stopped : s.stopped = true
  · rw [step.eq_def,if_pos stopped]
    exact good
  have good := good (by simpa using stopped)
  rw [step.eq_def,if_neg stopped]
  cases e with
  | malloc len => exact malloc_good fresh good fits
  | free addr => exact free_good good

/-- In a run of requests that all fit, every block handed out is aligned, lies in the
page runs obtained and is apart from every block held. -/
theorem kmalloc_safe (events : List Event) (legal : Run.Legal (step vmm) (fun s e => e.Fits s) Sys.boot events)
    (len : UInt32) (fits : Fits (Run.after (step vmm) Sys.boot events).heap len.toNat)
    (running : (Run.after (step vmm) Sys.boot events).stopped = false) {p : Nat} {h' : Heap}
    (call : (kmalloc vmm len.toNat).run (Run.after (step vmm) Sys.boot events).heap = (.ok (some p),h')) :
    Safe (Run.after (step vmm) Sys.boot events) h' ⟨p,len.toNat⟩ := by
  have good := legal.invariant (I := fun s => s.stopped = false → s.Good) (step_good fresh) (fun _ => boot_good)
    running
  rcases kmalloc_spec fresh good.heap fits call with ⟨none,-⟩ | ⟨p',same,gives⟩
  · cases none
  · cases same
    exact gives.safe good

end

/-! A VMM that never gives a page back. -/

def highest (runs : List Span) : Nat := runs.foldr (fun run top => max (run.base + run.len) top) pageSize

def bump : Vmm := fun runs n =>
  if n = 0 ∨ 2^64 < highest runs / pageSize * pageSize + pageSize + n * pageSize then none
  else some (highest runs / pageSize * pageSize + pageSize)

lemma highest_above (member : run ∈ runs) : run.base + run.len ≤ highest runs := by
  induction member with
  | head => exact Nat.le_max_left _ _
  | tail _ _ ih => exact Nat.le_trans ih (Nat.le_max_right _ _)

lemma bump_fresh : Fresh bump := by
  have some {runs : List Span} {n base : Nat} (answer : bump runs n = some base) :
      base = highest runs / pageSize * pageSize + pageSize ∧ base + n * pageSize ≤ 2^64 := by
    rw [bump] at answer
    split at answer
    · cases answer
    · cases answer
      omega
  refine ⟨?_,?_,?_,?_⟩
  · intro runs n base answer
    have := some answer
    simp only [pageSize] at this
    omega
  · intro runs n base answer
    have := some answer
    simp only [pageSize] at *
    omega
  · intro runs n base answer
    exact (some answer).2
  intro runs n base answer run member a has has'
  have above := highest_above member
  obtain ⟨here,-⟩ := some answer
  obtain ⟨low,-⟩ := has
  obtain ⟨-,high⟩ := has'
  simp only [pageSize] at *
  omega

theorem kmalloc_safe_reused : Safe (Run.after (step bump) Sys.boot [.malloc 100,.malloc 5000,.free 28672])
    ((kmalloc bump 200).run (Run.after (step bump) Sys.boot [.malloc 100,.malloc 5000,.free 28672]).heap).2
    ⟨28672,200⟩ :=
  kmalloc_safe bump_fresh [.malloc 100,.malloc 5000,.free 28672]
    ⟨fun _ => .inl (by decide),fun _ => .inl (by decide),trivial,trivial⟩ 200 (fun _ => .inl (by decide)) rfl
    (Prod.ext rfl rfl)

/-- A request of 65537 pages is passed on as a request for one. The block is recorded
with its full size, reaches beyond its run, and the next block lies inside it. -/
theorem kmalloc_overlaps : ∃ p q h h', (kmalloc bump 0x10001000).run Heap.boot = (.ok (some p),h) ∧
    (kmalloc bump 4096).run h = (.ok (some q),h') ∧
    (∃ a, Span.Has ⟨p,0x10001000⟩ a ∧ ∀ run ∈ h.runs, ¬ run.Has a) ∧
    ¬ Span.Apart ⟨q,4096⟩ ⟨p,0x10001000⟩ := by
  refine ⟨28672,36864,_,_,Prod.ext rfl rfl,Prod.ext rfl rfl,⟨32768,by decide,?_⟩,fun apart => ?_⟩
  · intro run member
    cases mem_singleton.mp member
    decide
  · exact apart 36864 (by decide) (by decide)

end UbixOS.Kmalloc
