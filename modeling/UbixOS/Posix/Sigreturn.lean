import UbixOS.Posix.SignalAarch64
import UbixOS.Posix.SignalX8664
import UbixOS.Posix.SignalCheck

/-! What a process can make of its own trap frame through sigreturn. The frame is read from
user memory, so every field of it is the process's choice. -/
namespace UbixOS.Posix

open Library Aarch64 X8664 Sigcontext Trapframe

/-- The two ways into `sys_sigreturn`. -/
inductive SigreturnEntry where
  | trampoline
  | syscall

section Check

variable (mode : F → α) (deliver : Nat → Sigaction → Machine F → Machine F)

/-- Whatever part of the frame delivery keeps, the check keeps. -/
lemma signalCheck_keeps (keeps : ∀ sig sa m, mode (deliver sig sa m).frame = mode m.frame) (m : Machine F) :
    mode (signalCheck deliver m).2.frame = mode m.frame := by
  cases first : firstSignal m.td.unblocked with
  | none => rw [signalCheck_none first]
  | some sig =>
    rw [signalCheck_some first]
    dsimp only
    split
    · unfold runHandler
      dsimp only
      split <;> exact keeps _ _ _
    · rfl

end Check

namespace Aarch64

/-- The user's pointer to the signal frame. -/
def sigreturnArg : SigreturnEntry → Trapframe → UInt64
  | .trampoline, f => f.sp
  | .syscall, f => f.x 0

/-- The way back to EL0: `sys_sigreturn`, then the check for another signal. -/
def sigreturnPath (entry : SigreturnEntry) (m : Machine Trapframe) : Verdict × Machine Trapframe :=
  signalCheck signalDeliverFrame (match entry with
    | .trampoline => sigreturnTrap m
    | .syscall => sigreturnCall m)

lemma sysSigreturn_spsr (scp : UInt64) (m : Machine Trapframe) : (sysSigreturn scp m).frame.spsr =
    if scp = 0 then m.frame.spsr else (Sigcontext.layout.get (m.mem.view scp)).pstate := by
  unfold sysSigreturn
  by_cases null : scp = 0 <;> simp [null]

lemma signalDeliverFrame_spsr (sig : Nat) (sa : Sigaction) (m : Machine Trapframe) :
    (signalDeliverFrame sig sa m).frame.spsr = m.frame.spsr := rfl

lemma sigreturnPath_spsr (entry : SigreturnEntry) (m : Machine Trapframe) : (sigreturnPath entry m).2.frame.spsr =
    if sigreturnArg entry m.frame = 0 then m.frame.spsr
    else (Sigcontext.layout.get (m.mem.view (sigreturnArg entry m.frame))).pstate := by
  apply (signalCheck_keeps spsr _ signalDeliverFrame_spsr _).trans
  cases entry with
  | trampoline => exact sysSigreturn_spsr m.frame.sp m
  | syscall => exact sysSigreturn_spsr (m.frame.x 0) m

/-- The frame goes back to EL0 with the interrupt masks of `before`. -/
def SafeReturn (before after : Trapframe) : Prop :=
  after.user ∧ after.spsr &&& SPSR_DAIF = before.spsr &&& SPSR_DAIF

/-- The PSTATE of the user's signal frame is one that EL0 could have had. -/
def HarmlessFrame (entry : SigreturnEntry) (m : Machine Trapframe) : Prop :=
  let pstate := (Sigcontext.layout.get (m.mem.view (sigreturnArg entry m.frame))).pstate
  sigreturnArg entry m.frame = 0 ∨
    pstate &&& SPSR_M_MASK = 0 ∧ pstate &&& SPSR_DAIF = m.frame.spsr &&& SPSR_DAIF

lemma sigreturnPath_safe (entry : SigreturnEntry) (m : Machine Trapframe) (user : m.frame.user) :
    SafeReturn m.frame (sigreturnPath entry m).2.frame ↔ HarmlessFrame entry m := by
  rw [SafeReturn,Trapframe.user,sigreturnPath_spsr,HarmlessFrame]
  by_cases null : sigreturnArg entry m.frame = 0
  · rw [if_pos null]
    exact ⟨fun _ => .inl null,fun _ => ⟨user,rfl⟩⟩
  · rw [if_neg null,beq_iff_eq]
    exact ⟨.inr,fun harmless => harmless.resolve_left null⟩

end Aarch64

namespace X8664

def sigreturnArg : SigreturnEntry → Trapframe → UInt64
  | .trampoline, f => f.rsp
  | .syscall, f => f.rdi

/-- The way back to ring 3. Only the system call checks for another signal. -/
def sigreturnPath (entry : SigreturnEntry) (m : Machine Trapframe) : Verdict × Machine Trapframe :=
  match entry with
  | .trampoline => (.idle,sigreturnTrap m)
  | .syscall => signalCheck signalDeliverFrame (sigreturnCall m)

/-- The parts of the frame that decide the privilege it returns to. -/
def Trapframe.mode (f : Trapframe) : UInt64 × UInt64 × UInt64 := (f.rflags,f.cs,f.ss)

lemma sysSigreturn_mode (scp : UInt64) (m : Machine Trapframe) : (sysSigreturn scp m).frame.mode =
    (if scp = 0 then m.frame.rflags else (Sigcontext.layout.get (m.mem.view scp)).rflags,m.frame.cs,m.frame.ss) := by
  unfold sysSigreturn
  by_cases null : scp = 0 <;> simp [null,mode]

lemma signalDeliverFrame_mode (sig : Nat) (sa : Sigaction) (m : Machine Trapframe) :
    (signalDeliverFrame sig sa m).frame.mode = m.frame.mode := rfl

lemma sigreturnPath_mode (entry : SigreturnEntry) (m : Machine Trapframe) :
    (sigreturnPath entry m).2.frame.mode = (if sigreturnArg entry m.frame = 0 then m.frame.rflags
      else (Sigcontext.layout.get (m.mem.view (sigreturnArg entry m.frame))).rflags,m.frame.cs,m.frame.ss) := by
  cases entry with
  | trampoline => exact sysSigreturn_mode m.frame.rsp m
  | syscall =>
    apply (signalCheck_keeps mode _ signalDeliverFrame_mode _).trans
    exact sysSigreturn_mode m.frame.rdi m

/-- The RFLAGS of the user's signal frame keep IF set and IOPL zero. -/
def HarmlessFrame (entry : SigreturnEntry) (m : Machine Trapframe) : Prop :=
  let rflags := (Sigcontext.layout.get (m.mem.view (sigreturnArg entry m.frame))).rflags
  sigreturnArg entry m.frame = 0 ∨ rflags &&& RFLAGS_IF ≠ 0 ∧ rflags &&& RFLAGS_IOPL = 0

lemma Trapframe.user_iff (f : Trapframe) : f.user ↔
    (f.mode.1 &&& RFLAGS_IF ≠ 0 ∧ f.mode.1 &&& RFLAGS_IOPL = 0) ∧ f.mode.2.1 = USER_CS ∧ f.mode.2.2 = USER_SS := by
  simp [user,mode,and_assoc]

lemma sigreturnPath_safe (entry : SigreturnEntry) (m : Machine Trapframe) (user : m.frame.user) :
    (sigreturnPath entry m).2.frame.user ↔ HarmlessFrame entry m := by
  obtain ⟨flags,selectors⟩ := m.frame.user_iff.mp user
  rw [user_iff,sigreturnPath_mode,HarmlessFrame]
  by_cases null : sigreturnArg entry m.frame = 0
  · simp only [if_pos null]
    exact ⟨fun _ => .inl null,fun _ => ⟨flags,selectors⟩⟩
  · simp only [if_neg null]
    exact ⟨fun safe => .inr safe.1,fun harmless => ⟨harmless.resolve_left null,selectors⟩⟩

end X8664

/-- On both ports and both ways in, the frame that will be restored returns to user mode
exactly when the signal frame in user memory says so: nothing in it is sanitised. -/
theorem sigreturn_keeps_privilege (entry : SigreturnEntry) : (∀ m : Machine Aarch64.Trapframe, m.frame.user →
      (Aarch64.SafeReturn m.frame (sigreturnPath entry m).2.frame ↔ Aarch64.HarmlessFrame entry m)) ∧
    (∀ m : Machine X8664.Trapframe, m.frame.user →
      ((sigreturnPath entry m).2.frame.user ↔ X8664.HarmlessFrame entry m)) :=
  ⟨sigreturnPath_safe entry,sigreturnPath_safe entry⟩

/-- A process at EL0 that calls sigreturn on a frame it wrote itself. -/
def Aarch64.forged (pstate : UInt64) : Machine Aarch64.Trapframe where
  mem := Memory.store (fun _ => 0) 0x1000 (layout.put ⟨fun _ => 0,0x2000,0x3000,pstate,fun _ => 0⟩) 288
  frame := ⟨fun _ => 0x1000,0x4000,0x340,0x2000⟩
  td := quietThread

/-- A process in ring 3 that calls sigreturn on a frame it wrote itself. -/
def X8664.forged (rflags : UInt64) : Machine X8664.Trapframe where
  mem := Memory.store (fun _ => 0) 0x1000
    (layout.put (.ofWords (fun i => if i = 16 then rflags else 0x2000) fun _ => 0)) 160
  frame := ⟨417,0,0,0,0,0x1000,0,0,0,0,0,0,0,0,0,0x80,0,0x4000,USER_CS,0x202,0x2000,USER_SS⟩
  td := quietThread

lemma Aarch64.forged_pstate (pstate : UInt64) :
    (Sigcontext.layout.get ((forged pstate).mem.view (sigreturnArg .syscall (forged pstate).frame))).pstate =
    pstate := by
  rw [forged]
  exact congrArg Sigcontext.pstate (Memory.get_store Sigcontext.layout _ _ _ (by decide))

lemma X8664.forged_rflags (rflags : UInt64) :
    (Sigcontext.layout.get ((forged rflags).mem.view (sigreturnArg .syscall (forged rflags).frame))).rflags =
    rflags := by
  rw [forged]
  exact congrArg Sigcontext.rflags (Memory.get_store Sigcontext.layout _ _ _ (by decide))

theorem sigreturn_keeps_privilege_forged :
    Aarch64.SafeReturn (Aarch64.forged 0x340).frame (Aarch64.sigreturnPath .syscall (Aarch64.forged 0x340)).2.frame ∧
    (X8664.sigreturnPath .syscall (X8664.forged 0x202)).2.frame.user := by
  obtain ⟨arm,amd⟩ := sigreturn_keeps_privilege .syscall
  constructor
  · apply (arm (Aarch64.forged 0x340) (by decide)).mpr
    exact .inr ⟨by rw [forged_pstate]; decide,by rw [forged_pstate]; decide⟩
  · apply (amd (forged 0x202) (by decide)).mpr
    exact .inr ⟨by rw [forged_rflags]; decide,by rw [forged_rflags]; decide⟩

/-- A forged frame returns to EL1h, and another to ring 3 with IOPL 3 and interrupts off. -/
theorem sigreturn_raises_privilege :
    ((Aarch64.forged 0x3c5).frame.user ∧ (Aarch64.sigreturnPath .syscall (Aarch64.forged 0x3c5)).2.frame.spsr = 0x3c5 ∧
      ¬ (Aarch64.sigreturnPath .syscall (Aarch64.forged 0x3c5)).2.frame.user) ∧
    ((X8664.forged 0x3000).frame.user ∧ (X8664.sigreturnPath .syscall (X8664.forged 0x3000)).2.frame.rflags = 0x3000 ∧
      ¬ (X8664.sigreturnPath .syscall (X8664.forged 0x3000)).2.frame.user) := by
  have spsr : (Aarch64.sigreturnPath .syscall (Aarch64.forged 0x3c5)).2.frame.spsr = 0x3c5 := by
    rw [Aarch64.sigreturnPath_spsr]
    exact Aarch64.forged_pstate 0x3c5
  have rflags : (X8664.sigreturnPath .syscall (X8664.forged 0x3000)).2.frame.rflags = 0x3000 := by
    have mode := congrArg Prod.fst (X8664.sigreturnPath_mode .syscall (X8664.forged 0x3000))
    exact mode.trans (X8664.forged_rflags 0x3000)
  refine ⟨⟨by decide,spsr,?_⟩,by decide,rflags,?_⟩
  · rw [Aarch64.Trapframe.user,spsr]
    decide
  · rw [X8664.Trapframe.user,rflags]
    decide

end UbixOS.Posix
