import UbixOS.Vmm.Frame

/-! Runs of frames: `vmm_find_free_pages_contig` (`sys/vmm/vmm_memory.c`), with the
32-bit sums of its loops. -/
namespace UbixOS.Vmm

open Library

namespace Vm

/-- How far the frames from `i + c` on are free, at most `left` of them; `none` is a read outside the memory map. -/
def freeUpTo (vm : Vm) (i : Nat) : Nat → Nat → Option Nat
  | 0, c => some c
  | left+1, c =>
    if vm.numPages ≤ (i + c) % 2^32 then none
    else if vm.isFree ((i + c) % 2^32) then vm.freeUpTo i left (c + 1)
    else some c

/-- The scan from `i` on, which goes on behind a frame that blocks. -/
def contigFrom (vm : Vm) (count : Nat) : Nat → Nat → Option (Option Nat)
  | 0, _ => none
  | turns+1, i =>
    if (i + count) % 2^32 ≤ vm.numPages then
      match vm.freeUpTo i count 0 with
      | none => none
      | some c => if c = count then some (some i) else vm.contigFrom count turns ((i + c + 1) % 2^32)
    else some none

def takeRun (vm : Vm) (pid : Int) (i : Nat) : Nat → Vm
  | 0 => vm
  | c+1 =>
    let vm := vm.takeRun pid i c
    { vm.setInfo ((i + c) % 2^32) { vm.info ((i + c) % 2^32) with status := .memNotavail, pid } with
      freePages := (vm.freePages + (2^32 - 1)) % 2^32 }

/-- The address it returns and the map it leaves; `none` where the kernel stops or leaves its map. -/
def vmmFindFreePagesContig (vm : Vm) (count : Nat) (pid : Int) : Option (Nat × Vm) :=
  if pid < sysID then none
  else if count = 0 then some (0,vm)
  else
    match vm.contigFrom count (vm.numPages + 1) 0 with
    | none => none
    | some none => some (0,vm)
    | some (some i) => some (i * pageSize,vm.takeRun pid i count)

/-- The `n` frames from `i` on are frames of the map, free and not shared. -/
def FreeRun (vm : Vm) (n i : Nat) : Prop := i + n ≤ vm.numPages ∧ ∀ f, i ≤ f → f < i + n → vm.isFree f = true

/-- The `n` frames from `i` on are the task's, and nothing else has changed. -/
def claimed (vm : Vm) (pid : Int) (n i : Nat) : Vm :=
  { vm with
    info := fun f => if i ≤ f ∧ f < i + n then { vm.info f with status := .memNotavail, pid } else vm.info f
    freePages := (vm.freePages + (2^32 - n)) % 2^32 }

/-- The first free run is claimed and its address returned, or there is none and nothing changes. -/
def ClaimsFirst (vm : Vm) (pid : Int) (n : Nat) (result : Option (Nat × Vm)) : Prop :=
  (∃ i, i ≠ 0 ∧ vm.FreeRun n i ∧ (∀ j < i, ¬vm.FreeRun n j) ∧ result = some (i * pageSize,vm.claimed pid n i)) ∨
    (∀ i, ¬vm.FreeRun n i) ∧ result = some (0,vm)

variable {vm : Vm}

lemma takeRun_eq (vm : Vm) (pid : Int) (small : i + n < 2^32) :
    vm.takeRun pid i (n + 1) = vm.claimed pid (n + 1) i := by
  induction n with
  | zero =>
    rw [takeRun,takeRun,Nat.mod_eq_of_lt small]
    simp only [claimed,setInfo,Vm.mk.injEq,true_and,and_true]
    funext f
    by_cases same : f = i
    · simp [same]
    · rw [Nat.add_zero,Function.update_of_ne same,if_neg (by omega)]
  | succ n ih =>
    rw [takeRun,ih (by omega),Nat.mod_eq_of_lt small]
    simp only [claimed,setInfo,Vm.mk.injEq,true_and,and_true]
    refine ⟨funext fun f => ?_,by omega⟩
    by_cases last : f = i + (n + 1)
    · subst last
      simp
    · rw [Function.update_of_ne last]
      exact if_congr (by omega) rfl rfl

section Scan

variable (frames : vm.numPages < 2^32)
include frames

/-- The inner loop runs off the map, or stops behind free frames at one that is not. -/
lemma freeUpTo_spec (low : i + c ≤ vm.numPages) :
    vm.freeUpTo i k c = none ∧ vm.numPages < i + c + k ∨
      ∃ d ≤ c + k, vm.freeUpTo i k c = some d ∧ i + d ≤ vm.numPages ∧
        (∀ f, i + c ≤ f → f < i + d → vm.isFree f = true) ∧
        (d < c + k → i + d < vm.numPages ∧ vm.isFree (i + d) = false) := by
  induction k generalizing c with
  | zero => exact .inr ⟨c,Nat.le_refl _,rfl,low,by omega,by omega⟩
  | succ k ih =>
    rw [freeUpTo,Nat.mod_eq_of_lt (by omega)]
    split_ifs with outside free
    · exact .inl ⟨rfl,by omega⟩
    · rcases ih (c := c + 1) (by omega) with ⟨off,far⟩ | ⟨d,high,found,inside,run,blocked⟩
      · exact .inl ⟨off,by omega⟩
      refine .inr ⟨d,by omega,found,inside,fun f first last => ?_,fun short => blocked (by omega)⟩
      rcases Nat.eq_or_lt_of_le first with rfl | later
      · exact free
      · exact run f later last
    · exact .inr ⟨c,by omega,rfl,low,by omega,fun _ => ⟨by omega,by simpa using free⟩⟩

/-- On a map of fewer than 2^31 frames the sums of the scan do not wrap. -/
lemma contigFrom_spec (few : vm.numPages < 2^31) (short : n ≤ vm.numPages) (low : i ≤ vm.numPages)
    (none : ∀ j < i, ¬vm.FreeRun n j) (turns : vm.numPages < i + fuel) :
    (∃ r, vm.FreeRun n r ∧ (∀ j < r, ¬vm.FreeRun n j) ∧ vm.contigFrom n fuel i = some (some r)) ∨
      (∀ r, ¬vm.FreeRun n r) ∧ vm.contigFrom n fuel i = some .none := by
  induction fuel generalizing i with
  | zero => omega
  | succ fuel ih =>
    rw [contigFrom,Nat.mod_eq_of_lt (by omega)]
    by_cases room : i + n ≤ vm.numPages
    · obtain ⟨-,far⟩ | ⟨c,high,found,-,run,blocked⟩ := freeUpTo_spec (k := n) frames (Nat.add_zero i ▸ low)
      · omega
      simp only [if_pos room,found]
      by_cases full : c = n
      · subst full
        exact .inl ⟨i,⟨room,run⟩,none,if_pos rfl⟩
      obtain ⟨inside,busy⟩ := blocked (by omega)
      rw [if_neg full,Nat.mod_eq_of_lt (by omega)]
      refine ih (by omega) (fun j before free => ?_) (by omega)
      -- No run contains the frame that blocks, so none starts between here and that frame.
      by_cases early : j < i
      · exact none j early free
      · simp [free.2 (i + c) (by omega) (by omega)] at busy
    · refine .inr ⟨fun r run => ?_,if_neg room⟩
      have := run.1
      exact none r (by omega) run

end Scan

/-- The search is exact on every map of fewer than 2^31 frames, which both ports stay far below. -/
theorem contig_exact (vm : Vm) (n : Nat) (pid : Int) (frames : vm.numPages < 2^31) (zero : vm.isFree 0 = false)
    (positive : 0 < n) (short : n < 2^32) (known : sysID ≤ pid) :
    vm.ClaimsFirst pid n (vm.vmmFindFreePagesContig n pid) := by
  rw [vmmFindFreePagesContig,if_neg (by omega),if_neg (by omega)]
  by_cases many : vm.numPages < n
  · rw [contigFrom,if_neg (by omega)]
    refine .inr ⟨fun i run => ?_,rfl⟩
    have := run.1
    omega
  have turns : vm.numPages < 0 + (vm.numPages + 1) := by omega
  rcases contigFrom_spec (by omega) frames (Nat.le_of_not_lt many) (Nat.zero_le _) (by simp) turns
    with ⟨r,run,first,result⟩ | ⟨empty,result⟩
  · rw [result]
    have inside := run.1
    obtain ⟨m,rfl⟩ : ∃ m, n = m + 1 := ⟨n - 1,by omega⟩
    refine .inl ⟨r,?_,run,first,by rw [← vm.takeRun_eq pid (by omega)]⟩
    rintro rfl
    simp [run.2 0 (Nat.le_refl 0) (by omega)] at zero
  · rw [result]
    exact .inr ⟨empty,rfl⟩

theorem contig_two_of_four : let vm := Vm.boot 4 1 fun _ => Bytes.zero
    vm.ClaimsFirst 1 2 (vm.vmmFindFreePagesContig 2 1) :=
  contig_exact (.boot 4 1 fun _ => Bytes.zero) 2 1 (by decide) (by decide) (by decide) (by decide) (by decide)

end Vm

end UbixOS.Vmm
