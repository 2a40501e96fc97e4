import UbixOS.Posix.Signal

/-! Signal frames on aarch64: the sigcontext sits at the handler's stack pointer, and the
handler returns to an address that no process can map. -/
namespace UbixOS.Posix.Aarch64

open Library

instance Trapframe.neZero : NeZero 31 := ⟨by decide⟩

/-- `struct trapframe`, as KERNEL_ENTRY saves it. -/
structure Trapframe where
  x : Fin 31 → UInt64
  elr : UInt64
  spsr : UInt64
  sp : UInt64

structure Sigcontext where
  x : Fin 31 → UInt64
  sp : UInt64
  pc : UInt64
  pstate : UInt64
  mask : Sigset

def Sigcontext.layout : Layout Sigcontext :=
  Layout.iso (.pair (.vec .u64 31) (.pair .u64 (.pair .u64 (.pair .u64 (.vec .u32 4)))))
    (fun c => (c.x,c.sp,c.pc,c.pstate,c.mask)) (fun v => ⟨v.1,v.2.1,v.2.2.1,v.2.2.2.1,v.2.2.2.2⟩) (fun _ => rfl)

lemma Sigcontext.layout_size : Sigcontext.layout.size = 288 := rfl

def AARCH64_SIGTRAMP_RETADDR : UInt64 := 0x0000008000005160

/-- The sigframe's place: below the siginfo if there is one. -/
def framePlace (si base : UInt64) : UInt64 :=
  alignDown16 (infoTop si base - UInt64.ofNat Sigcontext.layout.size)

def saveContext (f : Trapframe) (td : Thread) : Sigcontext := ⟨f.x,f.sp,f.elr,f.spsr,td.savedMask⟩

def signalDeliverFrame (sig : Nat) (sa : Sigaction) (m : Machine Trapframe) : Machine Trapframe :=
  let base := signalHandlerSp m.td sa m.frame.sp
  let (si,mem) := pushInfo m.mem sig sa base
  let newSp := framePlace si base
  { mem := mem.store newSp (Sigcontext.layout.put (saveContext m.frame m.td)) Sigcontext.layout.size
    td := m.td.blockFor sig sa
    frame := {
      x := fun i => if i = 0 then UInt64.ofNat sig else if i = 1 then si else if i = 2 then 0
        else if i = 30 then AARCH64_SIGTRAMP_RETADDR else m.frame.x i
      sp := newSp
      elr := sa.handler
      spsr := m.frame.spsr } }

def sysSigreturn (scp : UInt64) (m : Machine Trapframe) : Machine Trapframe :=
  if scp == 0 then { m with td := { m.td with retval := -1 } }
  else
    let sc := Sigcontext.layout.get (m.mem.view scp)
    { m with
      frame := { x := sc.x, sp := sc.sp, elr := sc.pc, spsr := sc.pstate }
      td := { m.td with sigmask := sc.mask, retval := (sc.x 0).toUInt32.toInt32 } }

/-- The EL0 instruction abort at the magic return address (`aarch64_exception`). -/
def sigreturnTrap (m : Machine Trapframe) : Machine Trapframe := sysSigreturn m.frame.sp m

/-- System call 417: `td_retval[0]` becomes x0 on the way out. -/
def sigreturnCall (m : Machine Trapframe) : Machine Trapframe :=
  let m := sysSigreturn (m.frame.x 0) m
  { m with frame := { m.frame with x := fun i => if i = 0 then m.td.retval.toInt64.toUInt64 else m.frame.x i } }

/-- PSTATE mode bits; zero is EL0t. -/
def SPSR_M_MASK : UInt64 := 0x0f

/-- The D, A, I and F masks of PSTATE. -/
def SPSR_DAIF : UInt64 := 0x3c0

/-- ERET on this frame goes to EL0. -/
def Trapframe.user (f : Trapframe) : Bool := f.spsr &&& SPSR_M_MASK == 0

end UbixOS.Posix.Aarch64
