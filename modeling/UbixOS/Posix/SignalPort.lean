import UbixOS.Posix.SignalAarch64
import UbixOS.Posix.SignalX8664

/-! What the delivery of a signal and the return from its handler owe each other on any port:
where the frame goes, what it leaves alone, and that the return undoes the delivery. -/
namespace UbixOS.Posix

open Library Memory

structure Window where
  lo : Nat
  hi : Nat

def Window.Has (w : Window) (x : UInt64) : Prop := w.lo ≤ x.toNat ∧ x.toNat < w.hi

def Window.Apart (u v : Window) : Prop := u.hi ≤ v.lo ∨ v.hi ≤ u.lo

/-- The signal code of one architecture, over its trap frames `F` and user-visible registers `R`. -/
structure Port (F R : Type) where
  regs : F → R
  sp : R → UInt64
  /-- bytes below the stack pointer that interrupted code may use -/
  redZone : Nat
  /-- an upper bound of what delivery takes of the stack -/
  need : Sigaction → Nat
  /-- the alignment that the ABI asks for at a function's entry -/
  Aligned : UInt64 → Prop
  deliver : Nat → Sigaction → Machine F → Machine F
  /-- the end of the bytes that delivery writes -/
  ceiling : Sigaction → Machine F → UInt64
  /-- where the stack pointer is after the handler's return, from where it was at its entry -/
  back : UInt64 → UInt64
  /-- the trap at the magic return address -/
  sigreturn : Machine F → Machine F

namespace Port

variable (port : Port F R)

def base (sa : Sigaction) (m : Machine F) : UInt64 := signalHandlerSp m.td sa (port.sp (port.regs m.frame))

def start (sig : Nat) (sa : Sigaction) (m : Machine F) : UInt64 := port.sp (port.regs (port.deliver sig sa m).frame)

def window (sig : Nat) (sa : Sigaction) (m : Machine F) : Window :=
  ⟨(port.start sig sa m).toNat,(port.ceiling sa m).toNat⟩

/-- The return of a handler that left its frame alone gives the registers and the mask back. -/
def Restores (w : Window) (mem : Memory) (scp : UInt64) (regs : R) (mask : Sigset) : Prop :=
  ∀ m : Machine F, (∀ x, w.Has x → m.mem x = mem x) → port.sp (port.regs m.frame) = scp →
    port.regs (port.sigreturn m).frame = regs ∧ (port.sigreturn m).td.sigmask = mask

/-- What one delivery guarantees. -/
structure Delivered (sig : Nat) (sa : Sigaction) (m : Machine F) : Prop where
  low : (port.base sa m).toNat ≤ (port.window sig sa m).lo + port.need sa
  order : (port.window sig sa m).lo < (port.window sig sa m).hi
  high : (port.window sig sa m).hi ≤ (port.base sa m).toNat
  red : port.base sa m = port.sp (port.regs m.frame) →
    (port.window sig sa m).hi + port.redZone ≤ (port.sp (port.regs m.frame)).toNat
  outside : ∀ x, ¬ (port.window sig sa m).Has x → (port.deliver sig sa m).mem x = m.mem x
  aligned : port.Aligned (port.start sig sa m)
  restores : port.Restores (port.window sig sa m) (port.deliver sig sa m).mem (port.back (port.start sig sa m))
    (port.regs m.frame) m.td.savedMask

structure Lawful : Prop where
  delivered : ∀ sig sa m, port.need sa < (port.base sa m).toNat → port.Delivered sig sa m
  deliver_thread : ∀ sig sa m, (port.deliver sig sa m).td = m.td.blockFor sig sa
  sigreturn_mem : ∀ m, (port.sigreturn m).mem = m.mem
  sigreturn_thread : ∀ m, ∃ mask ret, (port.sigreturn m).td = { m.td with sigmask := mask, retval := ret }

lemma Lawful.sigreturn_sigstk {port : Port F R} (lawful : port.Lawful) (m : Machine F) :
    (port.sigreturn m).td.sigstk = m.td.sigstk := by
  obtain ⟨mask,ret,thread⟩ := lawful.sigreturn_thread m
  rw [thread]

lemma Restores.mono {w : Window} {mem mem' : Memory} {scp : UInt64} {regs : R}
    (restores : port.Restores w mem scp regs mask) (same : ∀ x, w.Has x → mem' x = mem x) :
    port.Restores w mem' scp regs mask :=
  fun m agree at' => restores m (fun x inside => (agree x inside).trans (same x inside)) at'

end Port

namespace Aarch64

structure Regs where
  x : Fin 31 → UInt64
  sp : UInt64
  pc : UInt64
  pstate : UInt64

def Trapframe.regs (f : Trapframe) : Regs := ⟨f.x,f.sp,f.elr,f.spsr⟩

def port : Port Trapframe Regs where
  regs := Trapframe.regs
  sp := Regs.sp
  redZone := 0
  need := fun sa => infoNeed sa + 303
  Aligned := fun sp => sp.toNat % 16 = 0
  deliver := signalDeliverFrame
  ceiling := fun sa m => signalHandlerSp m.td sa m.frame.sp
  back := id
  sigreturn := sigreturnTrap

lemma framePlace_toNat (si base : UInt64) (room : 288 ≤ (infoTop si base).toNat) :
    (framePlace si base).toNat = ((infoTop si base).toNat - 288) / 16 * 16 :=
  alignDown16_sub (n := 288) room (by decide)

lemma sysSigreturn_read (real : scp ≠ 0) (holds : Sigcontext.layout.get (m.mem.view scp) = saveContext f td) :
    (sysSigreturn scp m).frame.regs = f.regs ∧ (sysSigreturn scp m).td.sigmask = td.savedMask := by
  have path : (scp == 0) = false := beq_eq_false_iff_ne.mpr real
  simp only [sysSigreturn,path,holds]
  exact ⟨rfl,rfl⟩

lemma port_delivered (sig : Nat) (sa : Sigaction) (m : Machine Trapframe)
    (room : port.need sa < (port.base sa m).toNat) : port.Delivered sig sa m := by
  change infoNeed sa + 303 < (port.base sa m).toNat at room
  have start : port.start sig sa m = framePlace (pushInfo m.mem sig sa (port.base sa m)).1 (port.base sa m) := rfl
  obtain ⟨below,near,same⟩ := pushInfo_spec m.mem sig sa (port.base sa m) (by omega)
  have place := framePlace_toNat (pushInfo m.mem sig sa (port.base sa m)).1 (port.base sa m) (by omega)
  have bound := (port.base sa m).toNat_lt
  have stored : (port.deliver sig sa m).mem = (pushInfo m.mem sig sa (port.base sa m)).2.store (port.start sig sa m)
      (Sigcontext.layout.put (saveContext m.frame m.td)) Sigcontext.layout.size := rfl
  rw [← start] at place
  have low : (port.window sig sa m).lo = (port.start sig sa m).toNat := rfl
  have high : (port.window sig sa m).hi = (port.base sa m).toNat := rfl
  have size := Sigcontext.layout_size
  refine ⟨?_,by omega,Nat.le_of_eq high,?_,?_,?_,?_⟩
  · change _ ≤ _ + (infoNeed sa + 303)
    omega
  · intro here
    rw [high,here]
    exact Nat.le_refl _
  · intro x outside
    have : ¬ ((port.start sig sa m).toNat ≤ x.toNat ∧ x.toNat < (port.base sa m).toNat) := outside
    rw [stored,store_outside (by omega) (by omega)]
    exact same x (by omega)
  · change (port.start sig sa m).toNat % 16 = 0
    omega
  intro later agree here
  apply sysSigreturn_read
  · intro null
    rw [show later.frame.sp = port.start sig sa m from here] at null
    rw [null] at place
    change 0 = _ at place
    omega
  have inside : Sigcontext.layout.get (later.mem.view (port.start sig sa m)) =
      Sigcontext.layout.get ((port.deliver sig sa m).mem.view (port.start sig sa m)) := by
    apply get_congr _ (by omega)
    intro x from' to'
    exact agree x ⟨from',by omega⟩
  rw [show later.frame.sp = port.start sig sa m from here,inside,stored]
  exact get_store _ _ _ _ (by omega)

lemma sigreturnTrap_keeps (m : Machine Trapframe) :
    (sigreturnTrap m).mem = m.mem ∧ ∃ mask ret, (sigreturnTrap m).td =
    { m.td with sigmask := mask, retval := ret } := by
  unfold sigreturnTrap sysSigreturn
  split
  · exact ⟨rfl,m.td.sigmask,_,rfl⟩
  · exact ⟨rfl,_,_,rfl⟩

lemma port_lawful : port.Lawful :=
  ⟨port_delivered,fun _ _ _ => rfl,fun m => (sigreturnTrap_keeps m).1,fun m => (sigreturnTrap_keeps m).2⟩

end Aarch64

namespace X8664

structure Regs where
  rax : UInt64
  rbx : UInt64
  rcx : UInt64
  rdx : UInt64
  rsi : UInt64
  rdi : UInt64
  rbp : UInt64
  r8 : UInt64
  r9 : UInt64
  r10 : UInt64
  r11 : UInt64
  r12 : UInt64
  r13 : UInt64
  r14 : UInt64
  r15 : UInt64
  rip : UInt64
  rflags : UInt64
  rsp : UInt64

def Trapframe.regs (f : Trapframe) : Regs := ⟨f.rax,f.rbx,f.rcx,f.rdx,f.rsi,f.rdi,f.rbp,f.r8,f.r9,f.r10,f.r11,f.r12,
  f.r13,f.r14,f.r15,f.rip,f.rflags,f.rsp⟩

/-- The end of the frame: below the red zone on the interrupted stack. -/
def ceiling (sa : Sigaction) (m : Machine Trapframe) : UInt64 :=
  belowRedZone m.frame.rsp (signalHandlerSp m.td sa m.frame.rsp)

def port : Port Trapframe Regs where
  regs := Trapframe.regs
  sp := Regs.rsp
  redZone := redZone
  need := fun sa => redZone + infoNeed sa + 183
  Aligned := fun rsp => (rsp.toNat + 8) % 16 = 0
  deliver := signalDeliverFrame
  ceiling := ceiling
  back := (· + 8)
  sigreturn := sigreturnTrap

lemma contextPlace_toNat (si below : UInt64) (room : 160 ≤ (infoTop si below).toNat) :
    (contextPlace si below).toNat = ((infoTop si below).toNat - 160) / 16 * 16 :=
  alignDown16_sub (n := 160) room (by decide)

lemma belowRedZone_toNat (rsp base : UInt64) (room : redZone ≤ base.toNat) :
    (belowRedZone rsp base).toNat = if base = rsp then base.toNat - redZone else base.toNat := by
  rw [belowRedZone]
  by_cases here : base = rsp
  · subst here
    rw [if_pos (beq_self_eq_true base),if_pos rfl]
    exact sub_toNat_of_le room
  · rw [if_neg (by simpa using here),if_neg here]

lemma sysSigreturn_read (real : scp ≠ 0) (holds : Sigcontext.layout.get (m.mem.view scp) = saveContext f td) :
    (sysSigreturn scp m).frame.regs = f.regs ∧ (sysSigreturn scp m).td.sigmask = td.savedMask := by
  have path : (scp == 0) = false := beq_eq_false_iff_ne.mpr real
  simp only [sysSigreturn,path,holds]
  exact ⟨rfl,rfl⟩

lemma port_delivered (sig : Nat) (sa : Sigaction) (m : Machine Trapframe)
    (room : port.need sa < (port.base sa m).toNat) : port.Delivered sig sa m := by
  change redZone + infoNeed sa + 183 < (port.base sa m).toNat at room
  have zone : redZone = 128 := rfl
  have below : (ceiling sa m).toNat = if port.base sa m = m.frame.rsp then (port.base sa m).toNat - redZone
      else (port.base sa m).toNat := belowRedZone_toNat m.frame.rsp (port.base sa m) (by omega)
  have under : (ceiling sa m).toNat ≤ (port.base sa m).toNat ∧ (port.base sa m).toNat ≤ (ceiling sa m).toNat + 128 := by
    split at below <;> omega
  obtain ⟨top,near,same⟩ := pushInfo_spec m.mem sig sa (ceiling sa m) (by omega)
  have place := contextPlace_toNat (pushInfo m.mem sig sa (ceiling sa m)).1 (ceiling sa m) (by omega)
  generalize context : contextPlace (pushInfo m.mem sig sa (ceiling sa m)).1 (ceiling sa m) = scAddr at place
  have start : port.start sig sa m = scAddr - 8 := by
    rw [← context]
    rfl
  have slot : (port.start sig sa m).toNat = scAddr.toNat - 8 := by
    rw [start]
    exact sub_toNat_of_le (show (8 : UInt64).toNat ≤ scAddr.toNat by change 8 ≤ _; omega)
  have stored : (port.deliver sig sa m).mem = ((pushInfo m.mem sig sa (ceiling sa m)).2.store scAddr
      (Sigcontext.layout.put (saveContext m.frame m.td)) Sigcontext.layout.size).store (port.start sig sa m)
      (Layout.u64.put X86_64_SIGTRAMP_RETADDR) 8 := by
    rw [start,← context]
    rfl
  have bound := (port.base sa m).toNat_lt
  have low : (port.window sig sa m).lo = (port.start sig sa m).toNat := rfl
  have high : (port.window sig sa m).hi = (ceiling sa m).toNat := rfl
  have size := Sigcontext.layout_size
  refine ⟨?_,by omega,by omega,?_,?_,?_,?_⟩
  · change _ ≤ _ + (redZone + infoNeed sa + 183)
    omega
  · intro here
    rw [if_pos (show port.base sa m = m.frame.rsp from here)] at below
    have equal := congrArg UInt64.toNat here
    change _ + redZone ≤ _
    omega
  · intro x outside
    have : ¬ ((port.start sig sa m).toNat ≤ x.toNat ∧ x.toNat < (ceiling sa m).toNat) := outside
    rw [stored,store_outside (by omega) (by omega),store_outside (by omega) (by omega)]
    exact same x (by omega)
  · change ((port.start sig sa m).toNat + 8) % 16 = 0
    omega
  intro later agree here
  have popped : later.frame.rsp = scAddr := by
    rw [show later.frame.rsp = port.start sig sa m + 8 from here,start]
    exact UInt64.sub_add_cancel _ _
  apply sysSigreturn_read
  · intro null
    rw [popped] at null
    rw [null] at place
    change 0 = _ at place
    omega
  have inside : Sigcontext.layout.get (later.mem.view scAddr) = Sigcontext.layout.get
      (((pushInfo m.mem sig sa (ceiling sa m)).2.store scAddr
        (Sigcontext.layout.put (saveContext m.frame m.td)) Sigcontext.layout.size).view scAddr) := by
    apply get_congr _ (by omega)
    intro x from' to'
    rw [agree x ⟨by omega,by omega⟩,stored]
    exact store_outside (by omega) (by omega)
  rw [popped,inside]
  exact get_store _ _ _ _ (by omega)

lemma sigreturnTrap_keeps (m : Machine Trapframe) :
    (sigreturnTrap m).mem = m.mem ∧ ∃ mask ret, (sigreturnTrap m).td =
    { m.td with sigmask := mask, retval := ret } := by
  unfold sigreturnTrap sysSigreturn
  split
  · exact ⟨rfl,m.td.sigmask,_,rfl⟩
  · exact ⟨rfl,_,_,rfl⟩

lemma port_lawful : port.Lawful :=
  ⟨port_delivered,fun _ _ _ => rfl,fun m => (sigreturnTrap_keeps m).1,fun m => (sigreturnTrap_keeps m).2⟩

end X8664

end UbixOS.Posix
