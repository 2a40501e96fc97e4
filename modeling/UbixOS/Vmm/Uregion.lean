import UbixOS.Library.Memory
import UbixOS.Vmm.Owner

/-! Anonymous mmap and brk of one address space (`sys/vmm/vmm_uregion.c`), and which live
pages a call leaves as they are. -/
namespace UbixOS.Vmm.Uregion

open Library UInt64 Fallible Va Bytes

abbrev mmapBase : UInt64 := 0x200000000
abbrev brkBase : UInt64 := 0x1C0000000

def mapOneAnonPage (l1 : L1) (va : UInt64) : VmM (Bool × L1) := do
  match ← vmmFindFreePage sysID with
  | none => return (false,l1)
  | some frame =>
    if frame = 0 then return (false,l1)
    else
      let l1 ← if mdUserMapped l1 va then mdUnmapUserPage l1 (of va) else pure l1
      .modify fun vm => vm.setPage frame zero
      return (true,← pmapMapUserPage l1 (of va) frame false)

/-- The loop over `n` pages from `va`. -/
def mapPages (l1 : L1) (va : UInt64) : Nat → VmM (Bool × L1)
  | 0 => return (true,l1)
  | n+1 => do
    let (ok,l1) ← mapOneAnonPage l1 va
    if ok then mapPages l1 (va + 4096) n else return (false,l1)

/-- What `vmm_uregion_mmap_anon` returns; the last two are 0 for its caller. -/
inductive Mapped
  | mapped (va : UInt64)
  | empty
  | noMemory
  deriving DecidableEq, Repr

def npages (len : UInt64) : Nat := ((len + 4095) / 4096).toNat

/-- The result, the tree and the cursor. -/
def mmapAnon (l1 : L1) (next len : UInt64) (fixed : Option UInt64) : VmM (Mapped × L1 × UInt64) :=
  if npages len = 0 then return (.empty,l1,next)
  else do
    let va := match fixed with
      | some addr => pageDown addr
      | none => next
    let (ok,l1) ← mapPages l1 va (npages len)
    if ok then return (.mapped va,l1,if fixed.isSome then next else va + ofNat (npages len) * 4096)
    else return (.noMemory,l1,next)

/-- The loop of `brk`. After all 2^52 pages the address has wrapped and stays below `newbrk` for ever. -/
def growPages (l1 : L1) (newbrk : UInt64) : Nat → UInt64 → VmM (Bool × L1)
  | 0, _ => .fail .endless
  | fuel+1, va =>
    if va < newbrk then do
      let (ok,l1) ← mapOneAnonPage l1 va
      if ok then growPages l1 newbrk fuel (va + 4096) else return (false,l1)
    else return (true,l1)

/-- Whether there was memory, the tree and the break. -/
def brk (l1 : L1) (cur newbrk : UInt64) : VmM (Bool × L1 × UInt64) :=
  if newbrk ≤ cur then return (true,l1,cur)
  else do
    let (ok,l1) ← growPages l1 newbrk (2^52 + 1) (pageUp cur)
    return (ok,l1,if ok then newbrk else cur)

/-- `live` are the pages that calls made and that were not unmapped since. -/
structure Proc where
  vm : Vm
  l1 : L1
  next : UInt64
  brk : UInt64
  live : UInt64 → Bool
  stopped : Bool

inductive Call
  | mmap (len : UInt64) (fixed : Option UInt64)
  | munmap (addr len : UInt64)
  | brk (newbrk : UInt64)
  | store (va : UInt64) (off : Fin pageSize) (byte : UInt8) (pid : Int)

/-- The pages `va`, `va + 4096` and so on, `n` of them. -/
def inRun (va : UInt64) (n : Nat) (p : UInt64) : Bool := (p - va).toNat % 4096 == 0 && (p - va).toNat / 4096 < n

/-- The pages from `va` up to `limit`. -/
def below (va limit p : UInt64) : Bool := va ≤ p && p < limit && (p - va).toNat % 4096 == 0

namespace Proc

/-- A new space on a machine whose frames from `low + 1` on are free. -/
def boot (numPages : UInt32) (low : Nat) (mem : Nat → Page) : Proc :=
  match pmapCreateUserSpace.run (Vm.boot numPages.toNat (low + 1) mem) with
  | (.ok l1,vm) => ⟨vm,l1,mmapBase,brkBase,fun _ => false,false⟩
  | (.error _,vm) => ⟨vm,.new 0,mmapBase,brkBase,fun _ => false,true⟩

/-- A call that returns; a panic stops the kernel where it stands. -/
def finish (s : Proc) (x : VmM α) (done : α → Proc → Option Mapped × Proc) : Option Mapped × Proc :=
  match x.run s.vm with
  | (.ok a,vm) => done a { s with vm }
  | (.error _,_) => (none,{ s with stopped := true })

def addLive (s : Proc) (pages : UInt64 → Bool) : Proc := { s with live := fun p => s.live p || pages p }

def dropLive (s : Proc) (pages : UInt64 → Bool) : Proc := { s with live := fun p => s.live p && !pages p }

end Proc

/-- A call, with what it returns where that tells whether there was memory. On aarch64
munmap leaves anonymous pages mapped; they only cease to be live. -/
def perform (s : Proc) : Call → Option Mapped × Proc
  | .mmap len fixed =>
    s.finish (mmapAnon s.l1 s.next len fixed) fun (result,l1,next) s =>
      (some result,match result with
        | .mapped va => ({ s with l1, next } : Proc).addLive (inRun va (npages len))
        | _ => { s with l1, next })
  | .munmap addr len => (none,s.dropLive (inRun (pageDown addr) ((addr.toNat % 4096 + len.toNat + 4095) / 4096)))
  | .brk newbrk =>
    s.finish (brk s.l1 s.brk newbrk) fun (ok,l1,brk) s' =>
      if ok then (none,({ s' with l1, brk } : Proc).addLive (below (pageUp s.brk) newbrk))
      else (some .noMemory,{ s' with l1, brk })
  | .store va off byte pid => s.finish (userStore s.l1 (of va) off byte pid) fun (_,l1) s => (none,{ s with l1 })

def call (s : Proc) (c : Call) : Option Mapped × Proc := if s.stopped then (none,s) else perform s c

def step (s : Proc) (c : Call) : Proc := (call s c).2

/-- The pages that a call without MAP_FIXED is about to map. -/
def targets (s : Proc) : Call → UInt64 → Bool
  | .mmap len none, p => inRun s.next (npages len) p
  | .brk newbrk, p => s.brk < newbrk && below (pageUp s.brk) newbrk p
  | _, _ => false

/-- No such page shares its descriptor with a live one. -/
def Clear (s : Proc) (c : Call) : Prop := ∀ p q, targets s c p → s.live q → of p ≠ of q

/-- A page keeps its descriptor and its bytes. -/
structure Intact (l1 : L1) (vm : Vm) (l1' : L1) (vm' : Vm) (w : Va) : Prop where
  pte : l1'.pte w = l1.pte w
  bytes : ∀ pte, l1.pte w = some pte → vm'.mem pte.frame = vm.mem pte.frame

lemma Intact.refl (l1 : L1) (vm : Vm) (w : Va) : Intact l1 vm l1 vm w := ⟨rfl,fun _ _ => rfl⟩

lemma Intact.trans (first : Intact l1 vm l1' vm' w)
    (second : Intact l1' vm' l1'' vm'' w) : Intact l1 vm l1'' vm'' w :=
  ⟨second.pte.trans first.pte,fun pte here =>
    (second.bytes pte (first.pte.trans here)).trans (first.bytes pte here)⟩

/-- The state of the one space of a machine. -/
structure Sound (low : Nat) (l1 : L1) (vm : Vm) : Prop where
  balanced : Balanced (low + 1) vm (L1.uses l1)
  own : l1.Private

section Pages

/-- Frame 0 is never free, so the test of the frame and of the old mapping are those of `mapNewPage`. -/
lemma Sound.mapOne_eq (sound : Sound low l1 vm) (va : UInt64) :
    (mapOneAnonPage l1 va).run vm = (mapNewPage l1 (of va) zero false sysID).run vm := by
  have balanced := sound.balanced
  have unmap : (if mdUserMapped l1 va then mdUnmapUserPage l1 (of va) else pure l1) =
      mdUnmapUserPage l1 (of va) := by
    cases mapped : l1.pte (of va) with
    | none => simp [mdUserMapped,pmapExtract,mdUnmapUserPage,mapped]
    | some pte =>
      have used : pte.use ∈ L1.uses l1 := by
        rw [L1.uses_of_pte mapped]
        exact Multiset.mem_cons_self _ _
      have positive := (balanced.usable pte.frame pte.cow used).1
      have nonzero : pte.frame * pageSize + va.toNat % pageSize ≠ 0 := by
        have := Nat.mul_pos (show 0 < pte.frame by omega) (show 0 < pageSize by decide)
        omega
      have extracted : mdUserMapped l1 va = true := by
        rw [mdUserMapped,pmapExtract,mapped]
        exact bne_iff_ne.mpr nonzero
      rw [if_pos extracted]
  rw [mapOneAnonPage,mapNewPage,run_bind,run_bind]
  rcases found : (vmmFindFreePage sysID).run vm with ⟨_ | frame,mid⟩
  · rfl
  cases frame with
  | none => rfl
  | some frame =>
    obtain ⟨taken,_,_⟩ := balanced.find found
    have usable := (taken.usable frame false (Multiset.mem_cons_self _ _)).1
    dsimp only
    rw [if_neg (by omega),← unmap]
    split <;> rfl

/-- There always is a frame, or the kernel stops; and no other page notices. -/
lemma Sound.mapOne (sound : Sound low l1 vm) (run : (mapOneAnonPage l1 va).run vm = (.ok (ok,l1'),vm')) :
    ok = true ∧ Sound low l1' vm' ∧ ∀ w, w ≠ of va → Intact l1 vm l1' vm' w := by
  rw [sound.mapOne_eq va] at run
  have found : ok = true := by
    obtain ⟨frame,mid,found,run⟩ := run_bind_ok.mp run
    cases frame with
    | none =>
      rw [vmmFindFreePage] at found
      dsimp only at found
      split at found
      · cases found
      · split at found <;> cases found
    | some frame =>
      obtain ⟨_,_,_,run⟩ := run_bind_ok.mp run
      rw [run_modify_bind] at run
      obtain ⟨_,_,_,run⟩ := run_bind_ok.mp run
      cases run
      rfl
  have balanced := sound.balanced
  rw [← add_zero (L1.uses l1)] at balanced
  obtain ⟨after,failed | ⟨frame,_,unused,mem,pages⟩⟩ := balanced.mapNewPage sound.own run
  · rw [found] at failed
    cases failed.1
  rw [add_zero] at after unused
  refine ⟨found,⟨after,sound.own.put pages ?_⟩,fun w other => ⟨by rw [pages,if_neg other],fun pte here => ?_⟩⟩
  · rintro _ ⟨⟩
    exact ⟨rfl,rfl,rfl⟩
  have used : pte.use ∈ L1.uses l1 := by
    rw [L1.uses_of_pte here]
    exact Multiset.mem_cons_self _ _
  have apart : pte.frame ≠ frame := by
    rintro rfl
    exact unused pte.cow used
  rw [mem,Function.update_of_ne apart]

lemma inRun_here (va : UInt64) (n : Nat) : inRun va (n + 1) va := by simp [inRun]

lemma inRun_later (small : n < 2^52) (later : inRun (va + 4096) n p) : inRun va (n + 1) p := by
  simp only [inRun,Bool.and_eq_true,beq_iff_eq,decide_eq_true_eq] at later ⊢
  have split : p - va = p - (va + 4096) + 4096 := by grind
  have room : (p - (va + 4096)).toNat + 4096 < 2^64 := by
    omega
  have sum : (p - va).toNat = (p - (va + 4096)).toNat + 4096 := by
    rw [split,UInt64.toNat_add]
    exact Nat.mod_eq_of_lt room
  rw [sum]
  omega

lemma Sound.mapPages (sound : Sound low l1 vm) (small : n ≤ 2^52)
    (run : (mapPages l1 va n).run vm = (.ok (ok,l1'),vm')) :
    ok = true ∧ Sound low l1' vm' ∧ ∀ w, (∀ p, inRun va n p → w ≠ of p) → Intact l1 vm l1' vm' w := by
  induction n generalizing l1 vm va with
  | zero =>
    cases run
    exact ⟨rfl,sound,fun w _ => .refl _ _ w⟩
  | succ n ih =>
    obtain ⟨⟨done,mid⟩,vm1,first,run⟩ := run_bind_ok.mp run
    obtain ⟨rfl,sound1,kept1⟩ := sound.mapOne first
    obtain ⟨success,sound2,kept2⟩ := ih sound1 (by omega) run
    refine ⟨success,sound2,fun w away => ?_⟩
    refine (kept1 w (away va (inRun_here va n))).trans (kept2 w fun p inside => ?_)
    exact away p (inRun_later (by omega) inside)

/-- Past the last page of the address space the loop of `brk` does not end. -/
lemma Sound.growPages_endless (sound : Sound low l1 vm)
    (high : 2^64 - 4096 < newbrk.toNat) (aligned : va.toNat % 4096 = 0) :
    (growPages l1 newbrk fuel va).run vm ≠ (.ok (ok,l1'),vm') := by
  induction fuel generalizing l1 vm va with
  | zero => exact nofun
  | succ fuel ih =>
    have less : va < newbrk := by
      rw [UInt64.lt_iff_toNat_lt]
      have := va.toNat_lt
      omega
    intro run
    rw [growPages,if_pos less] at run
    obtain ⟨⟨done,mid⟩,vm1,first,run⟩ := Fallible.run_bind_ok.mp run
    obtain ⟨rfl,sound1,_⟩ := sound.mapOne first
    refine ih sound1 ?_ run
    rw [UInt64.toNat_add]
    change (va.toNat + 4096) % 2^64 % 4096 = 0
    omega

lemma Sound.growPages (sound : Sound low l1 vm) (aligned : va.toNat % 4096 = 0)
    (run : (growPages l1 newbrk fuel va).run vm = (.ok (ok,l1'),vm')) :
    ok = true ∧ Sound low l1' vm' ∧ ∀ w, (∀ p, below va newbrk p → w ≠ of p) → Intact l1 vm l1' vm' w := by
  induction fuel generalizing l1 vm va with
  | zero => cases run
  | succ fuel ih =>
    by_cases low_end : newbrk.toNat ≤ 2^64 - 4096
    · rw [Uregion.growPages] at run
      split at run
      next less =>
        obtain ⟨⟨done,mid⟩,vm1,first,run⟩ := Fallible.run_bind_ok.mp run
        obtain ⟨rfl,sound1,kept1⟩ := sound.mapOne first
        rw [UInt64.lt_iff_toNat_lt] at less
        have next : (va + 4096).toNat = va.toNat + 4096 := by
          rw [UInt64.toNat_add]
          change (va.toNat + 4096) % 2^64 = va.toNat + 4096
          omega
        obtain ⟨success,sound2,kept2⟩ := ih sound1 (by omega) run
        refine ⟨success,sound2,fun w away => (kept1 w (away va ?_)).trans (kept2 w fun p inside => away p ?_)⟩
        · simp [below,UInt64.lt_iff_toNat_lt,less]
        simp only [below,Bool.and_eq_true,decide_eq_true_eq,beq_iff_eq,UInt64.le_iff_toNat_le] at inside ⊢
        obtain ⟨⟨from_next,limit⟩,multiple⟩ := inside
        rw [UInt64.toNat_sub_of_le _ _ (UInt64.le_iff_toNat_le.mpr from_next)] at multiple
        rw [UInt64.toNat_sub_of_le _ _ (UInt64.le_iff_toNat_le.mpr (by omega))]
        exact ⟨⟨by omega,limit⟩,by omega⟩
      · cases run
        exact ⟨rfl,sound,fun w _ => .refl _ _ w⟩
    · exact absurd run (sound.growPages_endless (by omega) aligned)

lemma npages_lt (len : UInt64) : npages len < 2^52 := by
  rw [npages,UInt64.toNat_div]
  have := (len + 4095).toNat_lt
  change (len + 4095).toNat / 4096 < 2^52
  omega

lemma pageUp_aligned (a : UInt64) : (pageUp a).toNat % 4096 = 0 := by
  have rounded : (pageUp a).toNat = (a + 4096 - 1).toNat / 4096 * 4096 := by
    rw [pageUp,UInt64.toNat_and]
    exact and_highMask (k := 12) (w := 64) (by decide) (UInt64.toNat_lt _)
  omega

lemma Sound.mmapAnon (sound : Sound low l1 vm)
    (run : (mmapAnon l1 next len fixed).run vm = (.ok (result,l1',next'),vm')) :
    result ≠ .noMemory ∧ Sound low l1' vm' ∧ (fixed = none → ∀ va, result = .mapped va → va = next) ∧
      ∀ w, (fixed = none → ∀ p, inRun next (npages len) p → w ≠ of p) → fixed = none → Intact l1 vm l1' vm' w := by
  rw [mmapAnon.eq_def] at run
  split at run
  · cases run
    exact ⟨nofun,sound,nofun,fun w _ _ => .refl l1 vm w⟩
  obtain ⟨⟨ok,l2⟩,mid,pages,run⟩ := run_bind_ok.mp run
  obtain ⟨rfl,sound',kept⟩ := sound.mapPages (npages_lt len).le pages
  cases run
  refine ⟨nofun,sound',?_,?_⟩
  · rintro rfl va ⟨⟩
    rfl
  · rintro w away rfl
    exact kept w (away rfl)

lemma Sound.brk (sound : Sound low l1 vm)
    (run : (brk l1 cur newbrk).run vm = (.ok (ok,l1',cur'),vm')) :
    ok = true ∧ Sound low l1' vm' ∧
      ∀ w, (∀ p, cur < newbrk → below (pageUp cur) newbrk p → w ≠ of p) → Intact l1 vm l1' vm' w := by
  rw [Uregion.brk] at run
  split at run
  · cases run
    exact ⟨rfl,sound,fun w _ => .refl l1 vm w⟩
  rename_i grows
  obtain ⟨⟨ok,l2⟩,mid,pages,run⟩ := Fallible.run_bind_ok.mp run
  obtain ⟨rfl,sound',kept⟩ := sound.growPages (pageUp_aligned cur) pages
  cases run
  exact ⟨rfl,sound',fun w away => kept w fun p => away p (UInt64.not_le.mp grows)⟩

lemma Sound.store (sound : Sound low l1 vm)
    (run : (userStore l1 va off byte pid).run vm = (.ok (ok,l1'),vm')) : Sound low l1' vm' := by
  have balanced := sound.balanced
  rw [← add_zero (L1.uses l1)] at balanced
  obtain ⟨after,⟨-,rfl,-⟩ | ⟨_,-,-,-,rfl,-⟩ | ⟨pte,neu,-,mapped,-,-,pages⟩⟩ := balanced.userStore sound.own run <;>
    rw [add_zero] at after
  · exact ⟨after,sound.own⟩
  · exact ⟨after,sound.own⟩
  refine ⟨after,sound.own.put pages ?_⟩
  rintro _ ⟨⟩
  exact ⟨rfl,(sound.own va pte mapped).wired,rfl⟩

end Pages

/-- Placed by the kernel, so that the process did not ask for anything to be replaced. -/
def Call.placed : Call → Bool
  | .mmap _ fixed => fixed.isNone
  | .brk _ => true
  | _ => false

def Proc.Same (s s' : Proc) : Prop := ∀ p, s.live p → Intact s.l1 s.vm s'.l1 s'.vm (of p)

/-- No live page is replaced, a range that is returned is new, and a call without memory
changes nothing. -/
structure Kept (s : Proc) (c : Call) : Prop where
  same : c.placed → s.Same (call s c).2
  apart : ∀ len va, c = .mmap len none → (call s c).1 = some (.mapped va) → ∀ p, inRun va (npages len) p → ¬s.live p
  failed : (call s c).1 = some .noMemory →
    s.Same (call s c).2 ∧ (call s c).2.brk = s.brk ∧ (call s c).2.next = s.next

def Proc.Good (low : Nat) (s : Proc) : Prop := s.stopped = true ∨ Sound low s.l1 s.vm

section Runs

variable {s : Proc}

lemma Proc.same_refl (s : Proc) : s.Same s := fun p _ => .refl s.l1 s.vm (of p)

lemma Proc.finish_cases {x : VmM α} {done : α → Proc → Option Mapped × Proc} {P : Option Mapped × Proc → Prop}
    (stop : P (none,{ s with stopped := true }))
    (finish : ∀ a vm, x.run s.vm = (.ok a,vm) → P (done a { s with vm })) : P (s.finish x done) := by
  rw [Proc.finish]
  rcases run : x.run s.vm with ⟨_ | a,vm⟩
  · exact stop
  · exact finish a vm run

lemma step_good (good : s.Good low) (c : Call) : (step s c).Good low := by
  rw [step,call]
  split
  · exact good
  rename_i running
  have sound : Sound low s.l1 s.vm := good.resolve_left running
  cases c with
  | mmap len fixed =>
    refine Proc.finish_cases (P := fun r => r.2.Good low) (.inl rfl) ?_
    rintro ⟨result,l1,next⟩ vm run
    obtain ⟨-,sound',-⟩ := sound.mmapAnon run
    cases result <;> exact .inr sound'
  | munmap addr len => exact .inr sound
  | brk newbrk =>
    refine Proc.finish_cases (P := fun r => r.2.Good low) (.inl rfl) ?_
    rintro ⟨ok,l1,brk⟩ vm run
    obtain ⟨rfl,sound',-⟩ := sound.brk run
    exact .inr sound'
  | store va off byte pid =>
    refine Proc.finish_cases (P := fun r => r.2.Good low) (.inl rfl) ?_
    rintro ⟨done,l1⟩ vm run
    exact .inr (sound.store run)

lemma boot_good (numPages : UInt32) (low : Nat) (mem : Nat → Page) : (Proc.boot numPages low mem).Good low := by
  rw [Proc.boot]
  rcases run : pmapCreateUserSpace.run (Vm.boot numPages.toNat (low + 1) mem) with ⟨_ | l1,vm⟩
  · exact .inl rfl
  obtain ⟨balanced,-,empty⟩ := (boot_balanced numPages.toNat (low + 1) mem numPages.toNat_lt).create run
  rw [add_zero] at balanced
  refine .inr ⟨balanced,fun w pte here => ?_⟩
  rw [empty] at here
  cases here

lemma call_kept (good : s.Good low) {c : Call} (clear : Clear s c) : Kept s c := by
  by_cases stopped : s.stopped = true
  · have still : call s c = (none,s) := by rw [call,if_pos stopped]
    constructor <;> rw [still]
    · exact fun _ => s.same_refl
    · exact nofun
    · exact nofun
  have sound : Sound low s.l1 s.vm := good.resolve_left stopped
  cases c with
  | mmap len fixed =>
    have spec : ((call s (.mmap len fixed)).1 ≠ some .noMemory) ∧
        (fixed = none → s.Same (call s (.mmap len fixed)).2 ∧
          ∀ va, (call s (.mmap len fixed)).1 = some (.mapped va) → va = s.next) := by
      rw [call,if_neg stopped]
      refine Proc.finish_cases (P := fun r => r.1 ≠ some .noMemory ∧
        (fixed = none → s.Same r.2 ∧ ∀ va, r.1 = some (.mapped va) → va = s.next))
          ⟨nofun,fun _ => ⟨s.same_refl,nofun⟩⟩ ?_
      rintro ⟨result,l1,next⟩ vm run
      obtain ⟨memory,-,base,kept⟩ := sound.mmapAnon run
      refine ⟨fun same => memory (Option.some.inj same),?_⟩
      rintro rfl
      refine ⟨fun p live => ?_,fun va same => base rfl va (Option.some.inj same)⟩
      have intact := kept (of p) (fun _ q target => (clear q p target live).symm) rfl
      cases result <;> exact intact
    constructor
    · intro placed
      exact (spec.2 (Option.isNone_iff_eq_none.mp placed)).1
    · rintro len va ⟨⟩ result p inside live
      obtain rfl := (spec.2 rfl).2 va result
      exact clear p p inside live rfl
    · exact fun failed => absurd failed spec.1
  | munmap addr len =>
    constructor
    · exact nofun
    · exact nofun
    · rw [call,if_neg stopped]
      exact nofun
  | brk newbrk =>
    have spec : (call s (.brk newbrk)).1 = none ∧ s.Same (call s (.brk newbrk)).2 := by
      rw [call,if_neg stopped]
      refine Proc.finish_cases (P := fun r => r.1 = none ∧ s.Same r.2) ⟨rfl,s.same_refl⟩ ?_
      rintro ⟨ok,l1,brk⟩ vm run
      obtain ⟨rfl,-,kept⟩ := sound.brk run
      refine ⟨rfl,fun p live => kept (of p) fun q grows target => (clear q p ?_ live).symm⟩
      rw [targets,target,decide_eq_true grows]
      rfl
    constructor
    · exact fun _ => spec.2
    · exact nofun
    · rw [spec.1]
      exact nofun
  | store va off byte pid =>
    have spec : (call s (.store va off byte pid)).1 = none := by
      rw [call,if_neg stopped]
      exact Proc.finish_cases (P := fun r => r.1 = none) rfl fun _ _ _ => rfl
    constructor
    · exact nofun
    · exact nofun
    · rw [spec]
      exact nofun

lemma live_mmap {len : UInt64} (live : (step s (.mmap len fixed)).live q) :
    s.live q ∨ ∃ va, (call s (.mmap len fixed)).1 = some (.mapped va) ∧ inRun va (npages len) q := by
  rw [step] at live
  revert live
  rw [call]
  split
  · exact .inl
  refine Proc.finish_cases (P := fun r => r.2.live q = true →
    s.live q ∨ ∃ va, r.1 = some (.mapped va) ∧ inRun va (npages len) q) .inl ?_
  rintro ⟨result,l1,next⟩ vm run live
  cases result with
  | mapped va =>
    rcases (Bool.or_eq_true _ _).mp live with before | new
    · exact .inl before
    · exact .inr ⟨va,rfl,new⟩
  | empty | noMemory => exact .inl live

lemma eq_of_inRun_one (inside : inRun va 1 p) : p = va := by
  simp only [inRun,Bool.and_eq_true,beq_iff_eq,decide_eq_true_eq] at inside
  have zero : p - va = 0 := UInt64.toNat_inj.mp (show (p - va).toNat = 0 by omega)
  rw [← UInt64.sub_add_cancel p va,zero,UInt64.zero_add]

end Runs

/-- In every state that calls reach, a call whose new pages do not share a descriptor with a
live page keeps every live page. -/
theorem anonymous_kept (numPages : UInt32) (low : Nat) (mem : Nat → Page) (calls : List Call) (c : Call)
    (clear : Clear (Run.after step (Proc.boot numPages low mem) calls) c) :
    Kept (Run.after step (Proc.boot numPages low mem) calls) c :=
  call_kept (Run.after_invariant (I := Proc.Good low) (fun _ c good => step_good good c)
    (boot_good numPages low mem) calls) clear

theorem anonymous_kept_second :
    let s := Run.after step (Proc.boot 32 1 fun _ => zero) [.mmap 4096 none]
    Kept s (.mmap 4096 none) ∧ s.live mmapBase ∧ (call s (.mmap 4096 none)).1 = some (.mapped (mmapBase + 4096)) := by
  refine ⟨anonymous_kept 32 1 (fun _ => zero) [.mmap 4096 none] (.mmap 4096 none) ?_,by decide +kernel,
    by decide +kernel⟩
  intro p q target live
  have next : (Run.after step (Proc.boot 32 1 fun _ => zero) [.mmap 4096 none]).next = mmapBase + 4096 := by
    decide +kernel
  rw [targets,next] at target
  rcases live_mmap live with before | ⟨va,result,new⟩
  · revert before
    exact nofun
  have first : (call (Proc.boot 32 1 fun _ => zero) (.mmap 4096 none)).1 = some (.mapped mmapBase) := by
    decide +kernel
  cases result.symm.trans first
  rw [eq_of_inRun_one target,eq_of_inRun_one new]
  decide +kernel

/-- A process maps a page at the cursor with MAP_FIXED and writes to it. -/
def fixedAtCursor : Proc :=
  Run.after step (Proc.boot 32 1 fun _ => zero) [.mmap 4096 (some mmapBase),.store mmapBase 0 7 1]

/-- The next mmap returns that page, with a new frame in place of the written one. -/
theorem anonymous_replaced : ¬Kept fixedAtCursor (.mmap 4096 none) ∧ fixedAtCursor.live mmapBase ∧
      (call fixedAtCursor (.mmap 4096 none)).1 = some (.mapped mmapBase) ∧
      (fixedAtCursor.l1.pte (of mmapBase)).map Pte.frame = some 3 ∧ fixedAtCursor.vm.mem 3 0 = 7 ∧
      ((call fixedAtCursor (.mmap 4096 none)).2.l1.pte (of mmapBase)).map Pte.frame = some 6 ∧
      (call fixedAtCursor (.mmap 4096 none)).2.vm.mem 6 0 = 0 := by
  have live : fixedAtCursor.live mmapBase := by decide +kernel
  have result : (call fixedAtCursor (.mmap 4096 none)).1 = some (.mapped mmapBase) := by decide +kernel
  refine ⟨fun kept => kept.apart 4096 mmapBase rfl result mmapBase (by decide +kernel) live,live,result,?_⟩
  decide +kernel

end UbixOS.Vmm.Uregion
