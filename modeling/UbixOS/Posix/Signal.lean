import UbixOS.Library.Memory

/-! The signal state of a thread and the choice of the stack a handler runs on
(posix/signal.c). User memory and the trap frame travel beside it in `Machine`. -/
namespace UbixOS.Posix

open Library UInt64

/-- `sigset_t`: bit N-1 of the first word is signal N. -/
abbrev Sigset := Fin 4 → UInt32

instance Sigset.neZero : NeZero 4 := ⟨by decide⟩

def SA_ONSTACK : UInt32 := 0x0001
def SA_RESETHAND : UInt32 := 0x0004
def SA_NODEFER : UInt32 := 0x0010
def SA_SIGINFO : UInt32 := 0x0040
def SS_DISABLE : UInt32 := 0x0004
def MINSIGSTKSZ : UInt64 := 2048
def TDP_OLDMASK : UInt32 := 0x00000001

def SIG_DFL : UInt64 := 0
def SIG_IGN : UInt64 := 1

structure Sigaction where
  handler : UInt64
  flags : UInt32
  mask : Sigset

/-- What `memset` leaves in an entry of `sigact`. -/
def Sigaction.zero : Sigaction := ⟨0,0,fun _ => 0⟩

structure Sigaltstack where
  sp : UInt64
  size : UInt64
  flags : UInt32

/-- The fields of `struct thread` that the signal code reads and writes. -/
structure Thread where
  retval : Int32
  sigmask : Sigset
  sigact : Nat → Sigaction
  sigPending : UInt32
  oldsigmask : Sigset
  pflags : UInt32
  sigstk : Sigaltstack

def quietThread : Thread where
  retval := 0
  sigmask := fun _ => 0
  sigact := fun _ => .zero
  sigPending := 0
  oldsigmask := fun _ => 0
  pflags := 0
  sigstk := ⟨0,0,SS_DISABLE⟩

/-- A thread at a trap: its user memory, its trap frame and its signal state. -/
structure Machine (F : Type) where
  mem : Memory
  frame : F
  td : Thread

def sigBit (sig : Nat) : UInt32 := 1 <<< UInt32.ofNat (sig - 1)

def Sigaction.has (sa : Sigaction) (flag : UInt32) : Bool := sa.flags &&& flag != 0

def sigstkEnabled (td : Thread) : Bool := td.sigstk.size != 0 && td.sigstk.flags &&& SS_DISABLE == 0

def sigstkOn (td : Thread) (sp : UInt64) : Bool := sigstkEnabled td && decide (sp - td.sigstk.sp < td.sigstk.size)

def signalHandlerSp (td : Thread) (sa : Sigaction) (sp : UInt64) : UInt64 :=
  if sa.has SA_ONSTACK && sigstkEnabled td && !sigstkOn td sp then td.sigstk.sp + td.sigstk.size else sp

def MUSL_SS_DISABLE : UInt32 := 2

/-- musl's `stack_t`. -/
structure MuslStack where
  sp : UInt64
  flags : UInt32
  size : UInt64

def EPERM : Int32 := 1
def ENOMEM : Int32 := 12
def EINVAL : Int32 := 22

/-- The check of the new stack: `onstack` says that the caller runs on the present one. -/
def sigaltstackCheck (onstack : Bool) (nss : MuslStack) : Int32 :=
  if onstack then -EPERM
  else if nss.flags &&& ~~~MUSL_SS_DISABLE != 0 then -EINVAL
  else if nss.flags &&& MUSL_SS_DISABLE == 0 && decide (nss.size < MINSIGSTKSZ) then -ENOMEM
  else 0

def Sigaltstack.ofMusl (nss : MuslStack) : Sigaltstack :=
  if nss.flags &&& MUSL_SS_DISABLE != 0 then ⟨0,0,SS_DISABLE⟩ else ⟨nss.sp,nss.size,0⟩

/-- `sys_sigaltstack` of a caller whose stack pointer is `usp`. `ss` is what `copyin` made of
the new stack and `oss` what `copyout` returned for the old one; each is absent when its
pointer is NULL. -/
def sysSigaltstack (td : Thread) (usp : UInt64) (ss : Option (Except Int32 MuslStack)) (oss : Option Int32) : Thread :=
  let err := match ss with
    | none => 0
    | some (.error e) => e
    | some (.ok nss) => sigaltstackCheck (sigstkOn td usp) nss
  let err := if err == 0 then oss.getD 0 else err
  let td := match ss with
    | some (.ok nss) => if err == 0 then { td with sigstk := Sigaltstack.ofMusl nss } else td
    | _ => td
  { td with retval := err }

def UBX_SIGINFO64_BYTES : Nat := 128

def alignDown16 (x : UInt64) : UInt64 := x &&& (2^64 - 16 : Nat).toUInt64

/-- The bytes of the siginfo: the signal number, then zeros. -/
def siginfo (sig : Nat) : Buffer := Buffer.cat 4 (lePut sig) Buffer.zero

/-- `signal_push_siginfo`: where the siginfo goes, and the memory with it. -/
def signalPushSiginfo (mem : Memory) (sp : UInt64) (sig : Nat) : UInt64 × Memory :=
  let si := alignDown16 (sp - ofNat UBX_SIGINFO64_BYTES)
  (si,mem.store si (siginfo sig) UBX_SIGINFO64_BYTES)

/-- Where the siginfo goes below `base` (0 without `SA_SIGINFO`), and the memory with it. -/
def pushInfo (mem : Memory) (sig : Nat) (sa : Sigaction) (base : UInt64) : UInt64 × Memory :=
  if sa.has SA_SIGINFO then signalPushSiginfo mem base sig else (0,mem)

/-- What the rest of the frame goes below: the siginfo if there is one. -/
def infoTop (si base : UInt64) : UInt64 := if si != 0 then si else base

/-- The mask that the signal frame embeds: the one from before `sigsuspend` if there is one. -/
def Thread.savedMask (td : Thread) : Sigset :=
  if td.pflags &&& TDP_OLDMASK != 0 then td.oldsigmask else td.sigmask

/-- Blocks the handler's mask and, unless `SA_NODEFER`, the signal itself. -/
def Thread.blockFor (td : Thread) (sig : Nat) (sa : Sigaction) : Thread :=
  let word := td.sigmask 0 ||| sa.mask 0
  let word := if sa.has SA_NODEFER then word else word ||| sigBit sig
  { td with
    pflags := td.pflags &&& ~~~TDP_OLDMASK
    sigmask := fun i => if i = 0 then word else td.sigmask i }

lemma alignDown16_toNat (x : UInt64) : (alignDown16 x).toNat = x.toNat / 16 * 16 := by
  rw [alignDown16,UInt64.toNat_and]
  exact and_highMask (k := 4) (w := 64) (by decide) x.toNat_lt

lemma alignDown16_sub (room : n ≤ x.toNat) (small : n < 2^64) :
    (alignDown16 (x - ofNat n)).toNat = (x.toNat - n) / 16 * 16 := by
  have value : (ofNat n).toNat = n := by
    rw [toNat_ofNat']
    exact Nat.mod_eq_of_lt small
  rw [alignDown16_toNat,Memory.sub_toNat_of_le (by omega),value]

/-- The most that the siginfo and its alignment take. -/
def infoNeed (sa : Sigaction) : Nat := if sa.has SA_SIGINFO then 143 else 0

/-- The siginfo lies between the rest of the frame and `base`, and nothing else is written. -/
lemma pushInfo_spec (mem : Memory) (sig : Nat) (sa : Sigaction) (base : UInt64) (room : infoNeed sa < base.toNat) :
    let pushed := pushInfo mem sig sa base
    let top := infoTop pushed.1 base
    top.toNat ≤ base.toNat ∧ base.toNat ≤ top.toNat + infoNeed sa ∧
      ∀ x : UInt64, x.toNat < top.toNat ∨ base.toNat ≤ x.toNat → pushed.2 x = mem x := by
  unfold pushInfo infoNeed at *
  by_cases info : sa.has SA_SIGINFO
  · simp only [info,if_true] at room ⊢
    have place : (signalPushSiginfo mem base sig).1.toNat = (base.toNat - 128) / 16 * 16 :=
      alignDown16_sub (n := 128) (by omega) (by decide)
    have real : infoTop (signalPushSiginfo mem base sig).1 base = (signalPushSiginfo mem base sig).1 := by
      apply if_pos
      apply bne_iff_ne.mpr
      intro null
      rw [null] at place
      change 0 = _ at place
      omega
    rw [real,place]
    refine ⟨by omega,by omega,fun x outside => ?_⟩
    apply Memory.store_outside
    · change (signalPushSiginfo mem base sig).1.toNat + 128 ≤ _
      have := base.toNat_lt
      omega
    · change x.toNat < (signalPushSiginfo mem base sig).1.toNat ∨
        (signalPushSiginfo mem base sig).1.toNat + 128 ≤ x.toNat
      omega
  · simp [info,infoTop]

end UbixOS.Posix
