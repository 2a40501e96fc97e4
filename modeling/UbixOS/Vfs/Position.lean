import UbixOS.Library.Run

/-! The position of an open UbixFS file (fs/vfs/file.c), with the answers of the driver (fs/ubixfs/ubfs_vfs.c) as
they come, and appends to one file through several descriptors. -/
namespace UbixOS.Vfs

open Library

/-- What the calls use of a `fileDescriptor_t`. -/
structure Descriptor where
  offset : Int64
  /-- 32 bits -/
  size : Nat
  /-- `fileAppend` is in `mode` -/
  append : Bool
  deriving DecidableEq

inductive Whence where
  | set
  | cur
  | end_
  | other
  deriving DecidableEq

namespace Descriptor

def asInt (n : Nat) : Int := if n % 2^32 < 2^31 then (n % 2^32 : Nat) else (n % 2^32 : Nat) - 2^32

/-- `ubfs_vfs_read_locked`: an `int`, of the number of bytes read or −1. -/
def vfsRead : Option Nat → Int
  | none => -1
  | some n => asInt n

/-- `ubfs_vfs_write_locked`, with whether UbixFS stored the bytes. -/
def vfsWrite (d : Descriptor) (len : Nat) (stored : Bool) : Int × Descriptor :=
  if !stored then (-1,d)
  else
    let stop := ((d.offset.toInt + len) % 2^64).toNat
    (len,if stop > d.size then { d with size := min stop 0xFFFFFFFF } else d)

/-- `fd->offset += n` -/
def advance (d : Descriptor) (n : Int) : Descriptor := { d with offset := .ofInt (d.offset.toInt + n) }

def fread (d : Descriptor) (len : Nat) (answer : Option Nat) : Int × Descriptor :=
  if len = 0 then (0,d)
  else
    let i := vfsRead answer
    (i,if i > 0 then d.advance i else d)

/-- An append goes to the end of the file, as far as the descriptor knows it. -/
def seekEnd (d : Descriptor) : Descriptor := if d.append then { d with offset := .ofInt d.size } else d

/-- `fwrite`; `len` is `size * nmemb`, an `int` that is not negative. -/
def fwrite (d : Descriptor) (len : Nat) (stored : Bool) : Int × Descriptor :=
  let (res,d) := d.seekEnd.vfsWrite len stored
  (res,d.advance len)

def fputc (d : Descriptor) (ch : UInt8) (stored : Bool) : Int × Descriptor :=
  let d := (d.vfsWrite 1 stored).2
  (ch.toNat,d.advance 1)

/-- `fgetc`; the byte that the driver stores, if it stores one, or its failure. -/
def fgetc (d : Descriptor) (answer : Option (Option UInt8)) : Int × Descriptor :=
  let ch := (answer.bind id).getD 0
  let got := vfsRead (answer.map fun stored => if stored.isSome then 1 else 0)
  if got = 0 then (-1,d) else (ch.toNat,d.advance 1)

def lseek (d : Descriptor) (offset : Int64) (whence : Whence) : Int × Descriptor :=
  let seek (o : Int64) : Int × Descriptor := ((max o 0).toInt,{ d with offset := max o 0 })
  match whence with
  | .set => seek offset
  | .cur => seek (d.offset + offset)
  | .end_ => seek (.ofInt d.size + offset)
  | .other => (-1,d)

end Descriptor

/-- A call, with what the driver answers. -/
inductive FileCall where
  | fread (len : Nat) (answer : Option Nat)
  | fwrite (len : Nat) (stored : Bool)
  | fputc (ch : UInt8) (stored : Bool)
  | fgetc (answer : Option (Option UInt8))
  | lseek (offset : Int64) (whence : Whence)

namespace FileCall

def run (d : Descriptor) : FileCall → Int × Descriptor
  | .fread len answer => d.fread len answer
  | .fwrite len stored => d.fwrite len stored
  | .fputc ch stored => d.fputc ch stored
  | .fgetc answer => d.fgetc answer
  | .lseek offset whence => d.lseek offset whence

def step (d : Descriptor) (call : FileCall) : Descriptor := (call.run d).2

def moved : FileCall → Nat
  | .fread len answer => if len = 0 then 0 else answer.getD 0
  | .fwrite len stored => if stored then len else 0
  | .fputc _ stored => if stored then 1 else 0
  | .fgetc answer => if (answer.bind id).isSome then 1 else 0
  | .lseek .. => 0

def start (d : Descriptor) : FileCall → Int
  | .fwrite .. => if d.append then d.size else d.offset.toInt
  | _ => d.offset.toInt

/-- A transfer advances the position by what it moved, and a byte is reported only if it was read. -/
def Law (d : Descriptor) : FileCall → Prop
  | .lseek .. => True
  | .fgetc answer => (step d (.fgetc answer)).offset.toInt = d.offset.toInt + moved (.fgetc answer) ∧
    ∀ c : UInt8, (run d (.fgetc answer)).1 = c.toNat → answer = some (some c)
  | call => (step d call).offset.toInt = call.start d + call.moved

/-- No write fails, no `fgetc` fails, no read is of more than an `int` counts, and the position fits in an `off_t`. -/
def Smooth (d : Descriptor) : FileCall → Prop
  | .lseek .. => True
  | call => call.start d + call.moved < 2^63 ∧ match call with
    | .fread len answer => len = 0 ∨ ∀ n ∈ answer, n < 2^31
    | .fwrite len stored => stored = true ∨ len % 2^64 = 0
    | .fputc _ stored => stored = true
    | .fgetc answer => answer ≠ none
    | .lseek .. => True

lemma vfsWrite_offset (d : Descriptor) (len : Nat) (stored : Bool) : (d.vfsWrite len stored).2.offset = d.offset := by
  unfold Descriptor.vfsWrite
  split
  · rfl
  · simp only
    split <;> rfl

lemma ofInt_toInt (n m : Int) : (Int64.ofInt n).toInt = m ↔ (n - m) % 2^64 = 0 ∧ -2^63 ≤ m ∧ m < 2^63 := by
  rw [Int64.toInt_ofInt,Int.bmod,show Int64.size = 2^64 from rfl]
  split <;> omega

lemma advance_offset (d : Descriptor) (n m : Int) : (d.advance n).offset.toInt = m ↔
    (d.offset.toInt + n - m) % 2^64 = 0 ∧ -2^63 ≤ m ∧ m < 2^63 := ofInt_toInt ..

lemma seekEnd_offset (d : Descriptor) (len : Nat) (stored : Bool) :
    (d.seekEnd.offset.toInt - start d (.fwrite len stored)) % 2^64 = 0 := by
  have kept := (ofInt_toInt d.size _).mp rfl
  unfold Descriptor.seekEnd start
  cases d.append <;> simp only [if_true,Bool.false_eq_true,if_false] <;> omega

lemma fread_offset (d : Descriptor) (some_ : len ≠ 0) (answer : Option Nat) :
    (d.fread len answer).2.offset.toInt = d.offset.toInt + answer.getD 0 ↔
      d.offset.toInt + answer.getD 0 < 2^63 ∧ ∀ n ∈ answer, n < 2^31 := by
  have low := d.offset.le_toInt
  have high := d.offset.toInt_lt
  rw [Descriptor.fread,if_neg some_]
  cases answer with
  | none =>
    simp [Descriptor.vfsRead]
    omega
  | some n =>
    have small : -2^31 ≤ Descriptor.asInt n ∧ Descriptor.asInt n < 2^31 ∧ (Descriptor.asInt n - n) % 2^32 = 0 := by
      unfold Descriptor.asInt
      split <;> omega
    change (if Descriptor.asInt n > 0 then d.advance (Descriptor.asInt n) else d).offset.toInt = d.offset.toInt + n ↔
      d.offset.toInt + n < 2^63 ∧ ∀ k ∈ some n, k < 2^31
    simp only [Option.mem_some_iff,forall_eq']
    split
    · rw [advance_offset]
      omega
    · omega

lemma law_iff (d : Descriptor) (call : FileCall) : call.Law d ↔ call.Smooth d := by
  have low := d.offset.le_toInt
  have high := d.offset.toInt_lt
  cases call with
  | fread len answer =>
    by_cases none : len = 0
    · simp [Law,Smooth,step,run,Descriptor.fread,start,moved,none]
      omega
    · simpa only [Law,Smooth,step,run,start,moved,none,if_false,false_or] using fread_offset d none answer
  | fwrite len stored =>
    have place := seekEnd_offset d len stored
    have above : -2^63 ≤ start d (.fwrite len stored) := by
      dsimp only [start]
      split <;> omega
    simp only [Law,Smooth,step,run,Descriptor.fwrite,advance_offset,vfsWrite_offset,moved]
    cases stored <;> simp only [if_true,Bool.false_eq_true,if_false,false_or,true_or,and_true] <;> omega
  | fputc ch stored =>
    cases stored <;> simp [Law,Smooth,step,run,Descriptor.fputc,advance_offset,vfsWrite_offset,start,moved]
    omega
  | fgetc answer =>
    rcases answer with _ | _ | c
    · simp [Law,Smooth,step,run,Descriptor.fgetc,Descriptor.vfsRead,advance_offset,moved]
    · simp [Law,Smooth,step,run,Descriptor.fgetc,Descriptor.vfsRead,Descriptor.asInt,start,moved]
      omega
    · have same (other : UInt8) : c.toNat = other.toNat → c = other := UInt8.toNat_inj.mp
      simp [Law,Smooth,step,run,Descriptor.fgetc,Descriptor.vfsRead,Descriptor.asInt,advance_offset,start,moved]
      exact ⟨fun law => law.1.2,fun fits => ⟨⟨by omega,fits⟩,same⟩⟩
  | lseek offset whence => simp [Law,Smooth]

/-- Over every sequence of calls the position follows what was moved exactly if no write and no `fgetc` fails, no read
is longer than an `int` can count and no position leaves `off_t`. -/
theorem position_law (d : Descriptor) (calls : List FileCall) :
    (∀ before call later, calls = before ++ call :: later → call.Law (Run.after step d before)) ↔
      Run.Legal step Smooth d calls := by
  induction calls generalizing d with
  | nil => simp [Run.Legal]
  | cons first rest ih =>
    rw [Run.Legal,← law_iff,← ih]
    constructor
    · intro law
      exact ⟨law [] first rest rfl,fun before call later split => law (first :: before) call later (by rw [split]; rfl)⟩
    · rintro ⟨here,there⟩ (_ | ⟨e,before⟩) call later split
      · cases split
        exact here
      · cases split
        exact there before call later rfl

/-- A failed write moves the position, and `fgetc` reports a byte of a failed read. -/
theorem failed_calls_move :
    ((Descriptor.mk 5 5 false).fwrite 3 false).2.offset = 8 ∧ (Descriptor.mk 5 5 false).fgetc none = (0,⟨6,5,false⟩) ∧
    ¬Law ⟨5,5,false⟩ (.fwrite 3 false) ∧ ¬Law ⟨5,5,false⟩ (.fgetc none) := by
  refine ⟨by decide,by decide,?_,?_⟩ <;> simp [law_iff,Smooth]

end FileCall

open Function
open FileCall (start)

/-- `size` is the inode's. Beside a descriptor stands the end of the file it has seen: what `fopen` found, or
where its own writes have moved it. -/
structure Shared where
  data : Nat → UInt8
  size : Nat
  fds : Nat → Option (Descriptor × Nat)

/-- What the driver does: it stores all, or fails after `placed` bytes, perhaps with the new size. -/
structure Answer where
  stored : Bool
  placed : Nat
  grown : Bool

namespace Shared

/-- With whether `ubfs_fs_getattr` found the size. -/
def fopen (w : Shared) (i : Nat) (append found : Bool) : Shared :=
  let n := if found then w.size else 0
  let size := min n 0xFFFFFFFF
  { w with fds := update w.fds i (some (⟨if append then .ofInt size else 0,size,append⟩,n)) }

def fwrite (w : Shared) (i : Nat) (buf : Nat → UInt8) (len : Nat) (answer : Answer) : Shared :=
  match w.fds i with
  | none => w
  | some (d,seen) =>
    let off := start d (.fwrite len answer.stored)
    let first := (off % 2^64).toNat
    let stop := ((off + len) % 2^64).toNat
    { data := fun j =>
        if first ≤ j ∧ j < first + (if answer.stored then len else answer.placed) then buf (j - first) else w.data j
      size := if answer.stored || answer.grown then max w.size stop else w.size
      fds := update w.fds i (some ((d.fwrite len answer.stored).2,if answer.stored then max seen stop else seen)) }

inductive Event where
  | fopen (i : Nat) (append found : Bool)
  | fwrite (i : Nat) (buf : Nat → UInt8) (len : Nat) (answer : Answer)
  | lseek (i : Nat) (offset : Int64) (whence : Whence)

def step (w : Shared) : Event → Shared
  | .fopen i append found => w.fopen i append found
  | .fwrite i buf len answer => w.fwrite i buf len answer
  | .lseek i offset whence =>
    { w with fds := update w.fds i ((w.fds i).map fun (d,seen) => ((d.lseek offset whence).2,seen)) }

/-- A descriptor keeps what it has seen, as far as 32 bits go, and the file may be longer. -/
def Behind (w : Shared) : Prop := ∀ i d seen, w.fds i = some (d,seen) → d.size = min seen 0xFFFFFFFF ∧ seen ≤ w.size

lemma fwrite_size {d : Descriptor} (kept : d.size = min n 0xFFFFFFFF) (len : Nat) (stored : Bool) :
    (d.fwrite len stored).2.size =
      min (if stored then max n ((start d (.fwrite len stored) + len) % 2^64).toNat else n) 0xFFFFFFFF := by
  have place := FileCall.seekEnd_offset d len stored
  have size : d.seekEnd.size = d.size := by
    unfold Descriptor.seekEnd
    split <;> rfl
  change (d.seekEnd.vfsWrite len stored).2.size = _
  unfold Descriptor.vfsWrite
  cases stored with
  | false => exact size.trans kept
  | true =>
    simp only [Bool.not_true,if_true,Bool.false_eq_true,if_false]
    by_cases more : ((d.seekEnd.offset.toInt + len) % 2^64).toNat > d.seekEnd.size
    · rw [if_pos more]
      dsimp only
      omega
    · rw [if_neg more]
      omega

lemma Behind.put {w : Shared} (behind : w.Behind) (grows : w.size ≤ n)
    (new : ∀ d seen, x = some (d,seen) → d.size = min seen 0xFFFFFFFF ∧ seen ≤ n) : Behind ⟨f,n,update w.fds i x⟩ := by
  intro k d seen here
  by_cases same : k = i
  · subst same
    exact new d seen (by simpa using here)
  · exact (behind k d seen (by simpa [same] using here)).imp_right (Nat.le_trans · grows)

lemma step_behind (w : Shared) (e : Event) (behind : w.Behind) : (w.step e).Behind := by
  cases e with
  | fopen i append found => exact behind.put Nat.le.refl (by cases found <;> simp)
  | lseek i offset whence =>
    refine behind.put Nat.le.refl fun d seen here => ?_
    obtain ⟨old,was,rfl⟩ : ∃ old, w.fds i = some (old,seen) ∧ (old.lseek offset whence).2 = d := by simpa using here
    cases whence <;> exact behind i old seen was
  | fwrite i buf len answer =>
    simp only [step,fwrite]
    split
    · exact behind
    next d seen was =>
      obtain ⟨kept,low⟩ := behind i d seen was
      refine behind.put (by split <;> omega) fun _ _ here => ?_
      cases here
      refine ⟨fwrite_size kept len answer.stored,?_⟩
      cases answer.stored <;> cases answer.grown <;> simp <;> omega

/-- An append starts at the end of the file exactly if the descriptor has seen that end and 32 bits hold it. Then it
leaves every byte of the file alone. -/
theorem append_at_end_iff (data : Nat → UInt8) (size : Nat) (events : List Event) (i : Nat) (d : Descriptor)
    (seen : Nat) :
    let w := Run.after step ⟨data,size,fun _ => none⟩ events
    w.fds i = some (d,seen) → d.append = true → ∀ buf len answer,
      (start d (.fwrite len answer.stored) = w.size ↔ seen = w.size ∧ w.size < 2^32) ∧
      (seen = w.size → w.size < 2^32 → ∀ j < w.size, (w.fwrite i buf len answer).data j = w.data j) := by
  intro w here append buf len answer
  have behind : w.Behind := Run.after_invariant step_behind (by simp [Behind]) events
  obtain ⟨kept,low⟩ := behind i d seen here
  have first : start d (.fwrite len answer.stored) = d.size := if_pos append
  rw [first]
  refine ⟨by omega,fun same small j below => ?_⟩
  simp only [fwrite,here,first]
  exact if_neg (by omega)

/-- Two descriptors append in turn, the second opened behind the first one's bytes. -/
theorem append_in_turn :
    let w := Run.after step ⟨fun _ => 0,3,fun _ => none⟩
      [.fopen 0 true true,.fwrite 0 (fun _ => 1) 5 ⟨true,0,false⟩,.fopen 1 true true]
    w.size = 8 ∧ (w.fwrite 1 (fun _ => 2) 5 ⟨true,0,false⟩).data 7 = 1 :=
  ⟨rfl,(append_at_end_iff (fun _ => 0) 3
    [.fopen 0 true true,.fwrite 0 (fun _ => 1) 5 ⟨true,0,false⟩,.fopen 1 true true] 1 ⟨8,8,true⟩ 8
    rfl rfl (fun _ => 2) 5 ⟨true,0,false⟩).2 rfl (by decide) 7 (by decide)⟩

/-- Of two descriptors of an empty file, the second overwrites what the first has appended. -/
theorem append_overwrites :
    let w := Run.after step ⟨fun _ => 0,0,fun _ => none⟩
      [.fopen 0 true true,.fopen 1 true true,.fwrite 0 (fun _ => 1) 5 ⟨true,0,false⟩]
    w.size = 5 ∧ w.data 0 = 1 ∧ (w.fwrite 1 (fun _ => 2) 5 ⟨true,0,false⟩).data 0 = 2 := ⟨rfl,rfl,rfl⟩

end Shared

end UbixOS.Vfs
