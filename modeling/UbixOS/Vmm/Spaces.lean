import UbixOS.Vmm.Owner

/-! Any number of address spaces over one memory map, and whom each frame belongs to in
every state they reach. -/
namespace UbixOS.Vmm

open Library List Multiset Bytes

/-- Every space created so far, `none` once it is torn down. -/
structure Sys where
  vm : Vm
  spaces : List (Option L1)
  stopped : Bool

inductive Event
  | create
  | alloc (i : Nat) (va : Va) (page : Page) (executable : Bool) (pid : Int)
  | fork (i : Nat)
  | cowFault (i : Nat) (va : Va) (pid : Int)
  | store (i : Nat) (va : Va) (off : Fin pageSize) (byte : UInt8) (pid : Int)
  | unmap (i : Nat) (va : Va)
  | exit (i : Nat)

namespace Sys

def boot (numPages : UInt32) (first : Nat) (mem : Nat → Page) : Sys := ⟨Vm.boot numPages.toNat first mem,[],false⟩

def space (s : Sys) (i : Nat) : Option L1 := s.spaces[i]?.join

def put (s : Sys) (i : Nat) (l1 : Option L1) : Sys := { s with spaces := s.spaces.set i l1 }

def add (s : Sys) (l1 : L1) : Sys := { s with spaces := s.spaces ++ [some l1] }

/-- A panic stops the kernel where it stands. -/
def finish (s : Sys) (x : VmM α) (done : α → Sys → Sys) : Sys :=
  match x.run s.vm with
  | (.ok a,vm) => done a { s with vm }
  | (.error _,_) => { s with stopped := true }

/-- A call on the space of an event; a call needs a live space. -/
def onSpace (s : Sys) (i : Nat) (x : L1 → VmM α) (done : α → Sys → Sys) : Sys :=
  match s.space i with
  | some l1 => s.finish (x l1) done
  | none => s

end Sys

def step (s : Sys) (e : Event) : Sys :=
  if s.stopped then s
  else
    match e with
    | .create => s.finish pmapCreateUserSpace fun l1 s => s.add l1
    | .alloc i va page executable pid =>
      s.onSpace i (fun l1 => mapNewPage l1 va page executable pid) fun r s => s.put i (some r.2)
    | .fork i => s.onSpace i pmapForkCopy fun r s => (s.put i (some r.1)).add r.2
    | .cowFault i va pid => s.onSpace i (fun l1 => pmapCowFault l1 va pid) fun r s => s.put i (some r.2)
    | .store i va off byte pid => s.onSpace i (fun l1 => userStore l1 va off byte pid) fun r s => s.put i (some r.2)
    | .unmap i va => s.onSpace i (fun l1 => mdUnmapUserPage l1 va) fun l1 s => s.put i (some l1)
    | .exit i => s.onSpace i pmapFreeUserSpace fun _ s => s.put i none

def spaceUses (l1 : Option L1) : Uses := l1.elim 0 L1.uses

def Sys.uses (s : Sys) : Uses := (s.spaces.map spaceUses).sum

structure Good (first : Nat) (s : Sys) : Prop where
  balanced : Balanced first s.vm s.uses
  own : ∀ i l1, s.space i = some l1 → l1.Private

lemma sum_set {M : Type} [AddCommMonoid M] (weight : α → M) {xs : List α} {i : Nat} (inside : i < xs.length) (x : α) :
    ((xs.set i x).map weight).sum = weight x + ((xs.eraseIdx i).map weight).sum := by
  induction xs generalizing i with
  | nil => cases inside
  | cons y ys ih =>
    cases i with
    | zero => rfl
    | succ i =>
      have shorter := ih (Nat.lt_of_succ_lt_succ inside)
      simp only [List.set_cons_succ,List.map_cons,List.sum_cons,List.eraseIdx_cons_succ,shorter]
      abel

namespace Sys

variable {s : Sys}

def others (s : Sys) (i : Nat) : Uses := ((s.spaces.eraseIdx i).map spaceUses).sum

lemma space_get (live : s.space i = some l1) : s.spaces[i]? = some (some l1) := by
  rw [space] at live
  exact Option.join_eq_some_iff.mp live

lemma uses_put (live : s.space i = some l1) (x : Option L1) : (s.put i x).uses = spaceUses x + s.others i :=
  sum_set spaceUses (List.getElem?_eq_some_iff.mp (space_get live)).1 x

lemma uses_eq (live : s.space i = some l1) : s.uses = L1.uses l1 + s.others i := by
  obtain ⟨inside,here⟩ := List.getElem?_eq_some_iff.mp (space_get live)
  have whole : s.put i (some l1) = s := by rw [put,← here,List.set_getElem_self]
  have same := uses_put live (some l1)
  rw [whole] at same
  exact same

lemma uses_add (s : Sys) (l1 : L1) : (s.add l1).uses = s.uses + L1.uses l1 := by
  simp [uses,add,spaceUses]

lemma space_put (live : s.space i = some l1) (x : Option L1) (j : Nat) :
    (s.put i x).space j = if j = i then x else s.space j := by
  have inside := (List.getElem?_eq_some_iff.mp (space_get live)).1
  by_cases here : j = i
  · subst here
    simp [space,put,inside]
  · simp [space,put,Ne.symm here,here]

lemma space_add (s : Sys) (l1 : L1) (j : Nat) :
    (s.add l1).space j = if j = s.spaces.length then some l1 else s.space j := by
  rcases Nat.lt_trichotomy j s.spaces.length with below | rfl | above
  · rw [if_neg (by omega),space,space,add,getElem?_append_left below]
  · simp [space,add]
  have past : (s.spaces ++ [some l1]).length ≤ j := by
    rw [length_append,length_singleton]
    exact above
  rw [if_neg (by omega),space,space,add,getElem?_eq_none past,getElem?_eq_none above.le]

end Sys

section Steps

section
variable (good : Good first s)
include good

/-- A call on one space: the new tree and map balance with the other spaces as they are. -/
lemma Good.put (live : s.space i = some l1)
    (balanced : Balanced first vm' (L1.uses l1' + s.others i)) (own : l1'.Private) :
    Good first (({ s with vm := vm' } : Sys).put i (some l1')) where
  balanced := by
    have uses : (({ s with vm := vm' } : Sys).put i (some l1')).uses = L1.uses l1' + s.others i :=
      Sys.uses_put live (some l1')
    rw [uses]
    exact balanced
  own j l2 here := by
    have space := (Sys.space_put (s := { s with vm := vm' }) live (some l1') j).symm.trans here
    split at space
    · cases space
      exact own
    · exact good.own j l2 space

lemma Good.alone (live : s.space i = some l1) : Balanced first s.vm (L1.uses l1 + s.others i) := by
  rw [← Sys.uses_eq live]
  exact good.balanced

lemma Good.finish (x : VmM α) (after : ∀ a vm', x.run s.vm = (.ok a,vm') → Good first (done a { s with vm := vm' })) :
    Good first (s.finish x done) := by
  rw [Sys.finish]
  rcases run : x.run s.vm with ⟨_ | a,vm'⟩
  · exact ⟨good.balanced,good.own⟩
  · exact after a vm' run

lemma Good.onSpace (x : L1 → VmM α)
    (after : ∀ l1 a vm', s.space i = some l1 → (x l1).run s.vm = (.ok a,vm') →
    Good first (done a { s with vm := vm' })) :
    Good first (s.onSpace i x done) := by
  rw [Sys.onSpace]
  cases live : s.space i with
  | none => exact good
  | some l1 => exact good.finish (x l1) fun a vm' run => after l1 a vm' live run

lemma Good.create (run : pmapCreateUserSpace.run s.vm = (.ok l1,vm')) :
    Good first (({ s with vm := vm' } : Sys).add l1) := by
  obtain ⟨balanced,_,empty⟩ := good.balanced.create run
  refine ⟨?_,fun j l2 here => ?_⟩
  · rw [Sys.uses_add,add_comm]
    exact balanced
  rw [Sys.space_add] at here
  split at here
  · cases here
    intro va pte mapped
    rw [empty] at mapped
    cases mapped
  · exact good.own j l2 here

section Live
variable (live : s.space i = some l1)
include live

lemma Good.alloc (run : (mapNewPage l1 va page executable pid).run s.vm = (.ok r,vm')) :
    Good first (({ s with vm := vm' } : Sys).put i (some r.2)) := by
  obtain ⟨done,l1'⟩ := r
  have own := good.own i l1 live
  obtain ⟨balanced,⟨-,rfl,-⟩ | ⟨frame,-,-,-,pages⟩⟩ := (good.alone live).mapNewPage own run
  · exact good.put live balanced own
  refine good.put live balanced (own.put pages ?_)
  rintro pte ⟨⟩
  exact ⟨rfl,rfl,rfl⟩

lemma Good.cowFault (run : (pmapCowFault l1 va pid).run s.vm = (.ok r,vm')) :
    Good first (({ s with vm := vm' } : Sys).put i (some r.2)) := by
  obtain ⟨retry,l1'⟩ := r
  have own := good.own i l1 live
  obtain ⟨balanced,_,⟨rfl,-,-⟩ | ⟨pte,neu,-,mapped,-,-,-,pages⟩⟩ := (good.alone live).cowFault own run
  · exact good.put live balanced own
  refine good.put live balanced (own.put pages ?_)
  rintro _ ⟨⟩
  exact ⟨rfl,(own va pte mapped).wired,rfl⟩

lemma Good.store (run : (userStore l1 va off byte pid).run s.vm = (.ok r,vm')) :
    Good first (({ s with vm := vm' } : Sys).put i (some r.2)) := by
  obtain ⟨done,l1'⟩ := r
  have own := good.own i l1 live
  obtain ⟨balanced,⟨-,rfl,-⟩ | ⟨_,-,-,-,rfl,-⟩ | ⟨pte,neu,-,mapped,-,-,pages⟩⟩ := (good.alone live).userStore own run
  · exact good.put live balanced own
  · exact good.put live balanced own
  refine good.put live balanced (own.put pages ?_)
  rintro _ ⟨⟩
  exact ⟨rfl,(own va pte mapped).wired,rfl⟩

lemma Good.unmap (run : (mdUnmapUserPage l1 va).run s.vm = (.ok l1',vm')) :
    Good first (({ s with vm := vm' } : Sys).put i (some l1')) := by
  have own := good.own i l1 live
  obtain ⟨balanced,_,pages⟩ := (good.alone live).unmap own run
  exact good.put live balanced (own.put pages nofun)

lemma Good.fork (run : (pmapForkCopy l1).run s.vm = (.ok r,vm')) :
    Good first ((({ s with vm := vm' } : Sys).put i (some r.1)).add r.2) := by
  obtain ⟨parent,child⟩ := r
  have own := good.own i l1 live
  obtain ⟨balanced,_,pages⟩ := (good.alone live).forkCopy own run
  have marked {l2 : L1} (same : ∀ w, l2.pte w = (l1.pte w).map Pte.marked) : l2.Private := by
    intro w pte here
    rw [same] at here
    obtain ⟨old,mapped,rfl⟩ := Option.map_eq_some_iff.mp here
    exact (own w old mapped).marked
  refine ⟨?_,fun j l2 here => ?_⟩
  · have uses : (({ s with vm := vm' } : Sys).put i (some parent)).uses = L1.uses parent + s.others i :=
      Sys.uses_put live (some parent)
    rw [Sys.uses_add,uses,add_right_comm]
    exact balanced
  rw [Sys.space_add] at here
  split at here
  · cases here
    exact marked fun w => (pages w).2
  rw [Sys.space_put (s := { s with vm := vm' }) live] at here
  split at here
  · cases here
    exact marked fun w => (pages w).1
  · exact good.own j l2 here

lemma Good.exit (run : (pmapFreeUserSpace l1).run s.vm = (.ok (),vm')) :
    Good first (({ s with vm := vm' } : Sys).put i none) := by
  obtain ⟨balanced,_⟩ := (good.alone live).freeSpace (good.own i l1 live) run
  refine ⟨?_,fun j l2 here => ?_⟩
  · have uses : (({ s with vm := vm' } : Sys).put i none).uses = 0 + s.others i := Sys.uses_put live none
    rw [uses,zero_add]
    exact balanced
  rw [Sys.space_put (s := { s with vm := vm' }) live] at here
  split at here
  · cases here
  · exact good.own j l2 here

end Live

lemma step_good (e : Event) : Good first (step s e) := by
  unfold step
  split
  · exact good
  cases e with
  | create => exact good.finish _ fun l1 vm' run => good.create run
  | alloc i va page executable pid => exact good.onSpace _ fun l1 r vm' live run => good.alloc live run
  | fork i => exact good.onSpace _ fun l1 r vm' live run => good.fork live run
  | cowFault i va pid => exact good.onSpace _ fun l1 r vm' live run => good.cowFault live run
  | store i va off byte pid => exact good.onSpace _ fun l1 r vm' live run => good.store live run
  | unmap i va => exact good.onSpace _ fun l1 r vm' live run => good.unmap live run
  | exit i => exact good.onSpace _ fun l1 r vm' live run => good.exit live run

end

lemma run_good (numPages : UInt32) (first : Nat) (mem : Nat → Page) (events : List Event) :
    Good first (Run.after step (Sys.boot numPages first mem) events) := by
  apply Run.after_invariant (I := Good first) fun s e good => step_good good e
  exact ⟨boot_balanced numPages.toNat first mem numPages.toNat_lt,nofun⟩

end Steps

def L1.tables (l1 : L1) : List Nat :=
  l1.frame :: l1.slots.flatMap fun (_,l2) => l2.frame :: l2.slots.map fun (_,l3) => l3.frame

namespace Sys

def live (s : Sys) : List L1 := s.spaces.filterMap id

def entries (s : Sys) : List Pte := s.live.flatMap fun l1 => l1.entries.map Prod.snd

def tables (s : Sys) : List Nat := s.live.flatMap L1.tables

def mappings (s : Sys) (f : Nat) : Nat := s.entries.countP fun pte => pte.frame = f

def cowMappings (s : Sys) (f : Nat) : Nat := s.entries.countP fun pte => pte.frame = f ∧ pte.cow

end Sys

lemma Table.total_coe (t : Table α) (items : α → List β) :
    t.total (fun x => (items x : Multiset β)) = (t.slots.flatMap fun x => items x.2 : List β) := by
  unfold Table.total
  induction t.slots with
  | nil => rfl
  | cons x slots ih => rw [List.map_cons,List.sum_cons,ih,List.flatMap_cons,Multiset.coe_add]

lemma L3.uses_eq (l3 : L3) : L3.uses l3 = ((l3.frame,false) :: l3.slots.map fun x => x.2.use : List (Nat × Bool)) := by
  have slots := l3.total_coe fun pte => [pte.use]
  rw [← map_eq_flatMap] at slots
  exact congrArg _ slots

lemma L2.uses_eq (l2 : L2) : L2.uses l2 = ((l2.frame,false) :: ((l2.slots.map fun x => (x.2.frame,false)) ++
      l2.slots.flatMap fun x => x.2.slots.map fun y => y.2.use) : List (Nat × Bool)) := by
  have slots := l2.total_coe fun l3 => (l3.frame,false) :: l3.slots.map fun x => x.2.use
  unfold L2.uses Table.uses
  rw [funext L3.uses_eq,slots,cons_coe,coe_eq_coe,perm_cons]
  exact (map_append_flatMap_perm ..).symm

lemma L1.uses_eq (l1 : L1) :
    L1.uses l1 = ((l1.tables.map fun f => (f,false)) ++ l1.entries.map fun e => e.2.use : List (Nat × Bool)) := by
  have slots := l1.total_coe fun l2 => (l2.frame,false) :: ((l2.slots.map fun x => (x.2.frame,false)) ++
    l2.slots.flatMap fun x => x.2.slots.map fun y => y.2.use)
  unfold L1.uses Table.uses
  rw [funext L2.uses_eq,slots,Multiset.cons_coe,Multiset.coe_eq_coe,L1.tables,List.map_cons,List.cons_append,
    List.perm_cons]
  have split := List.flatMap_append_perm l1.slots (fun x => (x.2.frame,false) :: x.2.slots.map fun y =>
    (y.2.frame,false))
    fun x => x.2.slots.flatMap fun y => y.2.slots.map fun z => z.2.use
  simp only [L1.entries,List.map_flatMap,List.map_cons,List.map_map,Function.comp_def]
  exact split.symm

namespace Sys

lemma uses_eq_entries (s : Sys) :
    s.uses = ((s.tables.map fun f => (f,false)) ++ s.entries.map Pte.use : List (Nat × Bool)) := by
  unfold uses tables entries live
  induction s.spaces with
  | nil => rfl
  | cons space spaces ih =>
    rw [List.map_cons,List.sum_cons,ih]
    cases space with
    | none => simp [spaceUses]
    | some l1 =>
      simp only [spaceUses,Option.elim_some,L1.uses_eq,List.filterMap_cons_some (f := id) rfl,List.flatMap_cons,
        List.map_append,List.map_map,Function.comp_def,← Multiset.coe_add]
      abel

lemma count_uses (s : Sys) (f : Nat) (b : Bool) :
    s.uses.count (f,b) = (s.tables.countP fun g => (f,b) = (g,false)) + s.entries.countP fun pte => (f,b) =
      pte.use := by
  rw [uses_eq_entries,Multiset.count,Multiset.coe_countP,List.countP_append,List.countP_map,List.countP_map]
  rfl

lemma count_cow (s : Sys) (f : Nat) : s.uses.count (f,true) = s.cowMappings f := by
  rw [count_uses,List.countP_eq_zero.mpr (by simp),zero_add,cowMappings]
  apply List.countP_congr
  intro pte _
  rw [decide_eq_true_eq,decide_eq_true_eq,Pte.use,Prod.mk.injEq]
  exact and_congr eq_comm eq_comm

lemma mappings_eq (s : Sys) (f : Nat) :
    s.mappings f = s.cowMappings f + s.entries.countP fun pte => (f,false) = pte.use := by
  unfold mappings cowMappings
  induction s.entries with
  | nil => rfl
  | cons pte entries ih =>
    rw [List.countP_cons,List.countP_cons,List.countP_cons,ih]
    by_cases here : pte.frame = f
    · subst here
      cases cow : pte.cow <;> simp [Pte.use,cow] <;> omega
    · simp [Pte.use,here,Ne.symm here]

lemma unused_iff (s : Sys) (f : Nat) : (∀ b, (f,b) ∉ s.uses) ↔ s.mappings f = 0 ∧ f ∉ s.tables := by
  have member (b : Bool) : (f,b) ∈ s.uses ↔ (f ∈ s.tables ∧ b = false) ∨ ∃ pte ∈ s.entries, pte.frame = f ∧
    pte.cow = b := by
    rw [uses_eq_entries,mem_coe,mem_append]
    simp [Pte.use,eq_comm]
  rw [mappings,countP_eq_zero]
  constructor
  · intro unused
    refine ⟨fun pte inside here => ?_,fun table => ?_⟩
    · exact unused pte.cow ((member _).mpr (.inr ⟨pte,inside,of_decide_eq_true here,rfl⟩))
    · exact unused false ((member _).mpr (.inl ⟨table,rfl⟩))
  · rintro ⟨unmapped,noTable⟩ b used
    rcases (member b).mp used with ⟨table,_⟩ | ⟨pte,inside,here,_⟩
    · exact noTable table
    · exact unmapped pte inside (decide_eq_true here)

end Sys

/-- In every state the counter of a frame is the number of copy-on-write entries that map
it, an entry of another kind is the only one of its frame, the available frames are
exactly those that no entry maps and no table lies in, and only such a frame is handed out. -/
theorem frames_owned (numPages : UInt32) (first : Nat) (mem : Nat → Page) (events : List Event) :
    let s := Run.after step (Sys.boot numPages first mem) events
    (∀ f, (s.vm.info f).cowCounter = s.cowMappings f) ∧
    (∀ pte ∈ s.entries, pte.cow = false → s.mappings pte.frame = 1 ∧ (s.vm.info pte.frame).cowCounter = 0) ∧
    (∀ f, (s.vm.info f).status = .memAvail ↔ (first ≤ f ∧ f < s.vm.numPages) ∧ s.mappings f = 0 ∧ f ∉ s.tables) ∧
    s.vm.freePages = s.vm.available.card ∧
    ∀ pid f vm', (vmmFindFreePage pid).run s.vm = (.ok (some f),vm') → s.mappings f = 0 ∧ f ∉ s.tables := by
  intro s
  have good : Good first s := run_good numPages first mem events
  have counter (f : Nat) : (s.vm.info f).cowCounter = s.cowMappings f := by
    rw [good.balanced.counter,Sys.count_cow]
  refine ⟨counter,fun pte member single => ?_,fun f => ?_,good.balanced.free,fun pid f vm' run => ?_⟩
  · have present : 0 < s.entries.countP fun other => (pte.frame,false) = other.use :=
      List.countP_pos_iff.mpr ⟨pte,member,by simp [Pte.use,single]⟩
    have sole := good.balanced.sole pte.frame
    have counted := s.count_uses pte.frame false
    have noCow : s.cowMappings pte.frame = 0 := by
      rw [← Sys.count_cow]
      apply Multiset.count_eq_zero.mpr
      apply good.balanced.apart
      exact Multiset.count_pos.mp (by omega)
    have all := s.mappings_eq pte.frame
    exact ⟨by omega,by rw [counter,noCow]; rfl⟩
  · rw [good.balanced.avail,s.unused_iff]
  · exact (s.unused_iff f).mp (good.balanced.find run).2.1

theorem frames_owned_shared :
    let s := Run.after step (Sys.boot 16 1 fun _ => zero) [.create,.alloc 0 ⟨0,0,0⟩ zero false 1,.fork 0,
      .alloc 1 ⟨0,0,1⟩ zero false 1]
    (s.vm.info 2).cowCounter = 2 ∧ s.mappings 8 = 1 := by
  have owned := frames_owned 16 1 (fun _ => zero) [.create,.alloc 0 ⟨0,0,0⟩ zero false 1,.fork 0,
    .alloc 1 ⟨0,0,1⟩ zero false 1]
  refine ⟨(owned.1 2).trans (by decide +kernel),(owned.2.1 ⟨8,false,false,false,false,false⟩ ?_ rfl).1⟩
  decide +kernel

/-- A page is mapped, shared with a child by a fork, and the child exits. -/
def lastSharer : List Event := [.create,.alloc 0 ⟨0,0,0⟩ zero false 1,.fork 0,.exit 1]

theorem last_sharer_counted : (Run.after step (Sys.boot 16 1 fun _ => zero) lastSharer).mappings 2 = 1 ∧
    ((Run.after step (Sys.boot 16 1 fun _ => zero) lastSharer).vm.info 2).cowCounter = 1 ∧
    (Run.after step (Sys.boot 16 1 fun _ => zero) lastSharer).mappings 1 = 0 ∧
    ((Run.after step (Sys.boot 16 1 fun _ => zero) lastSharer).vm.info 1).status = .memNotavail := by
  decide +kernel

end UbixOS.Vmm
