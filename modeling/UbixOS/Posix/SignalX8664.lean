import UbixOS.Posix.Signal

/-! Signal frames on x86_64: the magic return address is planted just below the sigcontext,
and the 128 bytes below the interrupted stack pointer stay untouched. -/
namespace UbixOS.Posix.X8664

open Library

/-- `struct trapframe`, as the ISR and syscall stubs push it. -/
structure Trapframe where
  rax : UInt64
  rbx : UInt64
  rcx : UInt64
  rdx : UInt64
  rsi : UInt64
  rdi : UInt64
  rbp : UInt64
  r8 : UInt64
  r9 : UInt64
  r10 : UInt64
  r11 : UInt64
  r12 : UInt64
  r13 : UInt64
  r14 : UInt64
  r15 : UInt64
  vector : UInt64
  err : UInt64
  rip : UInt64
  cs : UInt64
  rflags : UInt64
  rsp : UInt64
  ss : UInt64

structure Sigcontext where
  rax : UInt64
  rbx : UInt64
  rcx : UInt64
  rdx : UInt64
  rsi : UInt64
  rdi : UInt64
  rbp : UInt64
  r8 : UInt64
  r9 : UInt64
  r10 : UInt64
  r11 : UInt64
  r12 : UInt64
  r13 : UInt64
  r14 : UInt64
  r15 : UInt64
  rip : UInt64
  rflags : UInt64
  rsp : UInt64
  mask : Sigset

instance Sigcontext.neZero : NeZero 18 := ⟨by decide⟩

/-- The words of the sigcontext, in the order of the structure. -/
def Sigcontext.words (c : Sigcontext) : Fin 18 → UInt64 := fun i => match i with
  | 0 => c.rax | 1 => c.rbx | 2 => c.rcx | 3 => c.rdx | 4 => c.rsi | 5 => c.rdi | 6 => c.rbp
  | 7 => c.r8 | 8 => c.r9 | 9 => c.r10 | 10 => c.r11 | 11 => c.r12 | 12 => c.r13 | 13 => c.r14 | 14 => c.r15
  | 15 => c.rip | 16 => c.rflags | _ => c.rsp

def Sigcontext.ofWords (w : Fin 18 → UInt64) (mask : Sigset) : Sigcontext where
  rax := w 0
  rbx := w 1
  rcx := w 2
  rdx := w 3
  rsi := w 4
  rdi := w 5
  rbp := w 6
  r8 := w 7
  r9 := w 8
  r10 := w 9
  r11 := w 10
  r12 := w 11
  r13 := w 12
  r14 := w 13
  r15 := w 14
  rip := w 15
  rflags := w 16
  rsp := w 17
  mask := mask

def Sigcontext.layout : Layout Sigcontext :=
  Layout.iso (.pair (.vec .u64 18) (.vec .u32 4)) (fun c => (c.words,c.mask)) (fun v => .ofWords v.1 v.2) (fun _ => rfl)

lemma Sigcontext.layout_size : Sigcontext.layout.size = 160 := rfl

def X86_64_SIGTRAMP_RETADDR : UInt64 := 0x0000700000000B16

/-- The red zone of the SysV ABI. -/
def redZone : Nat := 128

/-- Below the interrupted stack pointer's red zone, or the top of a fresh alternate stack. -/
def belowRedZone (rsp base : UInt64) : UInt64 := if base == rsp then rsp - UInt64.ofNat redZone else base

def contextPlace (si below : UInt64) : UInt64 :=
  alignDown16 (infoTop si below - UInt64.ofNat Sigcontext.layout.size)

def saveContext (f : Trapframe) (td : Thread) : Sigcontext where
  rax := f.rax
  rbx := f.rbx
  rcx := f.rcx
  rdx := f.rdx
  rsi := f.rsi
  rdi := f.rdi
  rbp := f.rbp
  r8 := f.r8
  r9 := f.r9
  r10 := f.r10
  r11 := f.r11
  r12 := f.r12
  r13 := f.r13
  r14 := f.r14
  r15 := f.r15
  rip := f.rip
  rflags := f.rflags
  rsp := f.rsp
  mask := td.savedMask

def signalDeliverFrame (sig : Nat) (sa : Sigaction) (m : Machine Trapframe) : Machine Trapframe :=
  let base := signalHandlerSp m.td sa m.frame.rsp
  let below := belowRedZone m.frame.rsp base
  let (si,mem) := pushInfo m.mem sig sa below
  let scAddr := contextPlace si below
  let newRsp := scAddr - 8
  let mem := mem.store scAddr (Sigcontext.layout.put (saveContext m.frame m.td)) Sigcontext.layout.size
  { mem := mem.store newRsp (Layout.u64.put X86_64_SIGTRAMP_RETADDR) 8
    td := m.td.blockFor sig sa
    frame := { m.frame with
      rdi := UInt64.ofNat sig
      rsi := si
      rdx := 0
      rsp := newRsp
      rip := sa.handler } }

def sysSigreturn (scp : UInt64) (m : Machine Trapframe) : Machine Trapframe :=
  if scp == 0 then { m with td := { m.td with retval := -1 } }
  else
    let sc := Sigcontext.layout.get (m.mem.view scp)
    { m with
      frame := { m.frame with
        rax := sc.rax
        rbx := sc.rbx
        rcx := sc.rcx
        rdx := sc.rdx
        rsi := sc.rsi
        rdi := sc.rdi
        rbp := sc.rbp
        r8 := sc.r8
        r9 := sc.r9
        r10 := sc.r10
        r11 := sc.r11
        r12 := sc.r12
        r13 := sc.r13
        r14 := sc.r14
        r15 := sc.r15
        rip := sc.rip
        rflags := sc.rflags
        rsp := sc.rsp }
      td := { m.td with sigmask := sc.mask, retval := sc.rax.toUInt32.toInt32 } }

/-- The page fault at the magic return address (`x86_64_exception`). -/
def sigreturnTrap (m : Machine Trapframe) : Machine Trapframe := sysSigreturn m.frame.rsp m

/-- System call 417: `td_retval[0]` becomes rax on the way out. -/
def sigreturnCall (m : Machine Trapframe) : Machine Trapframe :=
  let m := sysSigreturn m.frame.rdi m
  { m with frame := { m.frame with rax := m.td.retval.toInt64.toUInt64 } }

def RFLAGS_IF : UInt64 := 0x200
def RFLAGS_IOPL : UInt64 := 0x3000

/-- User code and data selectors, with RPL 3. -/
def USER_CS : UInt64 := 0x23
def USER_SS : UInt64 := 0x1b

/-- The return from this trap goes to ring 3 with interrupts on and no port access. -/
def Trapframe.user (f : Trapframe) : Bool :=
  f.rflags &&& RFLAGS_IF != 0 && f.rflags &&& RFLAGS_IOPL == 0 && f.cs == USER_CS && f.ss == USER_SS

end UbixOS.Posix.X8664
