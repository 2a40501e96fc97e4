import UbixOS.Library.Run

/-! Pipes (posix/vfs_calls.c, sys/pipe.h). Readers test the buffer count and the writer count
outside the pipe lock, so a read is several steps; an append, a removal from the queue and a
change of the end counts are one step each, under the lock. -/
namespace UbixOS.Posix.Pipe

open Library Function List

/-- `struct pipeBuf`. A queued buffer always has bytes left. -/
structure PipeBuf where
  data : List UInt8
  offset : Nat
  live : offset < data.length

def PipeBuf.rest (b : PipeBuf) : List UInt8 := b.data.drop b.offset

/-- `struct pipeInfo`; `bufs` is the list from `headPB` to `tailPB`. -/
structure PipeInfo where
  rfdCNT : Int
  wfdCNT : Int
  bCNT : Int
  bufs : List PipeBuf

def PipeInfo.queued (p : PipeInfo) : List UInt8 := (p.bufs.map PipeBuf.rest).flatten

inductive PipeEnd where
  | read
  | write
  deriving DecidableEq

def PipeInfo.count (p : PipeInfo) : PipeEnd → Int
  | .read => p.rfdCNT
  | .write => p.wfdCNT

def PipeInfo.bump (p : PipeInfo) (d : Int) : PipeEnd → PipeInfo
  | .read => { p with rfdCNT := p.rfdCNT + d }
  | .write => { p with wfdCNT := p.wfdCNT + d }

/-- How far a `sys_read` of the pipe has come. -/
inductive Call where
  | idle
  /-- about to test `bCNT` -/
  | start (nbyte : Nat) (nonblock : Bool)
  /-- `bCNT` was 0; about to test `wfdCNT` -/
  | sawEmpty (nbyte : Nat) (nonblock : Bool)
  /-- a writer was there: tests for a signal, then sleeps -/
  | waiting (nbyte : Nat)
  /-- about to take the lock -/
  | locking (nbyte : Nat)
  deriving DecidableEq

structure World where
  pipe : PipeInfo
  freed : Bool
  /-- a buffer was overrun, or the pipe was used after it was freed -/
  fault : Bool
  call : Nat → Call
  /-- the bytes of the appended buffers, and those that reads returned -/
  written : List UInt8
  read : List UInt8

def created : World := ⟨⟨1,1,0,[]⟩,false,false,fun _ => .idle,[],[]⟩

/-- A read that returned: the length asked for and `td_retval[0]`. -/
structure Return where
  nbyte : Nat
  retval : Int32

inductive Event where
  | enter (r : Nat) (nbyte : Nat) (nonblock : Bool)
  | testBuffers (r : Nat)
  | testWriters (r : Nat)
  | interrupt (r : Nat)
  /-- the sleep ends and the loop starts again -/
  | again (r : Nat)
  | take (r : Nat)
  /-- `sys_write`; `alloc` says that both allocations succeed -/
  | write (data : List UInt8) (alloc : Bool)
  | refEnd (e : PipeEnd)
  | releaseEnd (e : PipeEnd)

def UBIX_USER_EAGAIN : Int32 := 11
def EINTR : Int32 := 4

namespace World

def enter (w : World) (r : Nat) (c : Call) : World := { w with call := update w.call r c }

def return_ (w : World) (r nbyte : Nat) (retval : Int32) : Option Return × World :=
    (some ⟨nbyte,retval⟩,w.enter r .idle)

def access (w : World) (use : Option Return × World) : Option Return × World :=
  if w.freed then (none,{ w with fault := true }) else use

end World

/-- The section of `sys_read` under the lock. -/
def takeBytes (w : World) (r nbyte : Nat) : Option Return × World :=
  match w.pipe.bufs with
  | [] => w.return_ r nbyte (-UBIX_USER_EAGAIN)
  | b :: rest =>
    let n := min nbyte (b.data.length - b.offset)
    let pipe := if more : b.offset + n < b.data.length then { w.pipe with bufs := ⟨b.data,b.offset + n,more⟩ :: rest }
      else { w.pipe with bufs := rest, bCNT := w.pipe.bCNT - 1 }
    { w with pipe, read := w.read ++ b.rest.take n }.return_ r nbyte (Int32.ofNat n)

/-- `kmalloc` takes a 32-bit length and refuses 0 and what is above 0xFFFFFFE0. -/
def allocates (length : Nat) : Bool := length % 2^32 ≠ 0 ∧ length % 2^32 ≤ 0xFFFFFFE0

def sysWrite (w : World) (data : List UInt8) (alloc : Bool) : World :=
  if fits : allocates data.length ∧ alloc then
    if 2^32 ≤ data.length then { w with fault := true }
    else { w with
      pipe := { w.pipe with
        bCNT := w.pipe.bCNT + 1
        bufs := w.pipe.bufs ++ [⟨data,0,by
          have nonzero := fits.1
          simp only [allocates,Bool.decide_and,Bool.and_eq_true,decide_eq_true_eq] at nonzero
          exact Nat.pos_of_ne_zero fun zero => nonzero.1 (by simp [zero])⟩] }
      written := w.written ++ data }
  else w

/-- `pipe_release_end`: the pipe goes when both counts are down. -/
def pipeReleaseEnd (w : World) (e : PipeEnd) : World :=
  let pipe := w.pipe.bump (-1) e
  if pipe.rfdCNT ≤ 0 ∧ pipe.wfdCNT ≤ 0 then { w with pipe := { pipe with bufs := [] }, freed := true }
  else { w with pipe }

/-- The return of a read, if the event is one, and the state after it. -/
def perform (w : World) (e : Event) : Option Return × World :=
  if w.fault then (none,w)
  else match e with
  | .enter r nbyte nonblock => match w.call r with
    | .idle => (none,w.enter r (.start nbyte nonblock))
    | _ => (none,w)
  | .testBuffers r => match w.call r with
    | .start nbyte nonblock =>
      w.access (none,w.enter r (if w.pipe.bCNT = 0 then .sawEmpty nbyte nonblock else .locking nbyte))
    | _ => (none,w)
  | .testWriters r => match w.call r with
    | .sawEmpty nbyte nonblock =>
      w.access (if w.pipe.wfdCNT ≤ 0 then w.return_ r nbyte 0
        else if nonblock then w.return_ r nbyte (-UBIX_USER_EAGAIN)
        else (none,w.enter r (.waiting nbyte)))
    | _ => (none,w)
  | .interrupt r => match w.call r with
    | .waiting nbyte => w.return_ r nbyte (-EINTR)
    | _ => (none,w)
  | .again r => match w.call r with
    | .waiting nbyte => (none,w.enter r (.start nbyte false))
    | _ => (none,w)
  | .take r => match w.call r with
    | .locking nbyte => w.access (takeBytes w r nbyte)
    | _ => (none,w)
  | .write data alloc => w.access (none,sysWrite w data alloc)
  | .refEnd e => w.access (none,{ w with pipe := w.pipe.bump 1 e })
  | .releaseEnd e => w.access (none,pipeReleaseEnd w e)

def step (w : World) (e : Event) : World := (perform w e).2

def Call.saw : Call → Bool
  | .sawEmpty _ _ => true
  | _ => false

/-- The call goes through an open end and is not longer than 32 bits can say; no read is under
way when the pipe is freed; and when the last write end goes, a reader that has found the pipe
empty but not yet looked for writers still finds it empty. -/
def Orderly (w : World) : Event → Prop
  | .enter _ _ _ => 0 < w.pipe.rfdCNT
  | .write data _ => 0 < w.pipe.wfdCNT ∧ data.length < 2^32
  | .refEnd e => 0 < w.pipe.count e
  | .releaseEnd e => 0 < w.pipe.count e ∧
    ((w.pipe.bump (-1) e).rfdCNT ≤ 0 ∧ (w.pipe.bump (-1) e).wfdCNT ≤ 0 → ∀ r, w.call r = .idle) ∧
    ((w.pipe.bump (-1) e).wfdCNT ≤ 0 → ∀ r, (w.call r).saw = true → w.pipe.bufs = [])
  | _ => True

structure Good (w : World) : Prop where
  sound : w.fault = false
  ends : w.freed = true ↔ w.pipe.rfdCNT ≤ 0 ∧ w.pipe.wfdCNT ≤ 0
  idle : w.freed = true → ∀ r, w.call r = .idle
  order : w.read <+: w.written
  stream : w.freed = false → w.written = w.read ++ w.pipe.queued
  count : w.freed = false → w.pipe.bCNT = w.pipe.bufs.length
  drained : w.pipe.wfdCNT ≤ 0 → ∀ r, (w.call r).saw = true → w.pipe.bufs = []
  small : ∀ b ∈ w.pipe.bufs, b.data.length < 2^32

section Steps

variable {w : World}

lemma Good.notFreed (good : Good w) (busy : w.call r ≠ .idle) : w.freed = false := by
  cases h : w.freed with
  | false => rfl
  | true => exact absurd (good.idle h r) busy

lemma Good.notFreed_of_open (good : Good w) (positive : 0 < w.pipe.count e) : w.freed = false := by
  cases h : w.freed with
  | false => rfl
  | true =>
    obtain ⟨noReader,noWriter⟩ := good.ends.mp h
    cases e with
    | read => exact absurd positive (not_lt.mpr noReader)
    | write => exact absurd positive (not_lt.mpr noWriter)

lemma access_eq (present : w.freed = false) : w.access use = use := by
  rw [World.access,present]
  rfl

/-- A read moves to a phase that says nothing about the pipe. -/
lemma Good.enter (good : Good w) (present : c ≠ .idle → w.freed = false)
    (drained : c.saw = true → w.pipe.wfdCNT ≤ 0 → w.pipe.bufs = []) : Good (w.enter r c) := by
  have call (x : Nat) : (w.enter r c).call x = if x = r then c else w.call x := update_apply ..
  refine ⟨good.sound,good.ends,fun freed x => ?_,good.order,good.stream,good.count,fun none x saw => ?_,good.small⟩
  · rw [call]
    split
    · by_contra busy
      exact absurd freed (by change ¬ w.freed = true; rw [present busy]; nofun)
    · exact good.idle freed x
  · rw [call] at saw
    split at saw
    · exact drained saw none
    · exact good.drained none x saw

lemma Good.return_ (good : Good w) : Good (w.return_ r nbyte retval).2 :=
  good.enter (fun busy => absurd rfl busy) nofun

lemma rest_split (b : PipeBuf) (n : Nat) : b.rest = b.rest.take n ++ b.data.drop (b.offset + n) := by
  rw [← drop_drop]
  exact (take_append_drop n _).symm

lemma Good.takeBytes (good : Good w) (present : w.freed = false) : Good (takeBytes w r nbyte).2 := by
  unfold Pipe.takeBytes
  cases queue : w.pipe.bufs with
  | nil => exact good.return_
  | cons b rest =>
    have stream := good.stream present
    rw [PipeInfo.queued,queue,map_cons,flatten_cons,rest_split b (min nbyte (b.data.length - b.offset)),
      append_assoc,← append_assoc] at stream
    have count := good.count present
    rw [queue] at count
    refine Good.return_ (w := { w with pipe := _, read := _ }) ?_
    have nowhere (none : w.pipe.wfdCNT ≤ 0) (x : Nat) (saw : (w.call x).saw = true) : False := by
      have := good.drained none x saw
      rw [queue] at this
      cases this
    have small := good.small
    rw [queue,forall_mem_cons] at small
    split
    · refine ⟨good.sound,good.ends,good.idle,⟨_,stream.symm⟩,fun _ => stream,fun _ => count,fun none x saw => ?_,
        forall_mem_cons.mpr small⟩
      exact (nowhere none x saw).elim
    rename_i whole
    have gone : b.data.drop (b.offset + min nbyte (b.data.length - b.offset)) = [] :=
      drop_eq_nil_of_le (Nat.not_lt.mp whole)
    rw [gone,nil_append] at stream
    refine ⟨good.sound,good.ends,good.idle,⟨_,stream.symm⟩,fun _ => stream,fun _ => ?_,fun none x saw => ?_,small.2⟩
    · rw [count]
      simp
    · exact (nowhere none x saw).elim

lemma Good.sysWrite (good : Good w) (writer : 0 < w.pipe.wfdCNT)
    (small : data.length < 2^32) : Good (sysWrite w data alloc) := by
  have present := good.notFreed_of_open (e := .write) writer
  unfold Pipe.sysWrite
  split
  · rw [if_neg (Nat.not_le.mpr small)]
    have stream := good.stream present
    have appended : w.written ++ data = w.read ++ (w.pipe.queued ++ data) := by
      rw [stream,append_assoc]
    refine ⟨good.sound,good.ends,good.idle,⟨_,appended.symm⟩,fun _ => ?_,fun _ => ?_,fun none =>
      absurd writer (not_lt.mpr none),
      fun b member => ?_⟩
    · rw [appended]
      simp [PipeInfo.queued,PipeBuf.rest]
    · rw [good.count present]
      simp
    rcases mem_append.mp member with old | new
    · exact good.small b old
    · rw [mem_singleton.mp new]
      exact small
  · exact good

lemma Good.refEnd (good : Good w) (positive : 0 < w.pipe.count e) : Good { w with pipe := w.pipe.bump 1 e } := by
  have present := good.notFreed_of_open positive
  have still : ¬ ((w.pipe.bump 1 e).rfdCNT ≤ 0 ∧ (w.pipe.bump 1 e).wfdCNT ≤ 0) := by
    cases e <;> simp only [PipeInfo.bump,PipeInfo.count] at positive ⊢ <;> omega
  have same : (w.pipe.bump 1 e).bufs = w.pipe.bufs ∧ (w.pipe.bump 1 e).bCNT = w.pipe.bCNT ∧
      ((w.pipe.bump 1 e).wfdCNT ≤ 0 → w.pipe.wfdCNT ≤ 0) := by
    cases e
    · exact ⟨rfl,rfl,id⟩
    refine ⟨rfl,rfl,fun none => ?_⟩
    change w.pipe.wfdCNT + 1 ≤ 0 at none
    omega
  refine ⟨good.sound,⟨fun freed => ?_,fun no => absurd no still⟩,good.idle,good.order,fun _ => ?_,fun _ => ?_,
    fun none x saw => ?_,
    by rw [same.1]; exact good.small⟩
  · rw [present] at freed
    cases freed
  · rw [PipeInfo.queued,same.1]
    exact good.stream present
  · rw [same.1,same.2.1]
    exact good.count present
  · exact same.1.trans (good.drained (same.2.2 none) x saw)

lemma Good.releaseEnd (good : Good w) (ok : Orderly w (.releaseEnd e)) : Good (pipeReleaseEnd w e) := by
  obtain ⟨positive,last,race⟩ := ok
  have present := good.notFreed_of_open positive
  have same : (w.pipe.bump (-1) e).bufs = w.pipe.bufs ∧ (w.pipe.bump (-1) e).bCNT = w.pipe.bCNT := by
    cases e <;> exact ⟨rfl,rfl⟩
  unfold pipeReleaseEnd
  dsimp only
  split
  next dead =>
    exact ⟨good.sound,⟨fun _ => dead,fun _ => rfl⟩,fun _ => last dead,good.order,nofun,nofun,fun _ _ _ => rfl,nofun⟩
  rename_i alive
  refine ⟨good.sound,⟨fun freed => ?_,fun dead => absurd dead alive⟩,good.idle,good.order,fun _ => ?_,fun _ => ?_,
    fun none x saw => same.1.trans (race none x saw),by rw [same.1]; exact good.small⟩
  · rw [show w.freed = true from freed] at present
    cases present
  · rw [PipeInfo.queued,same.1]
    exact good.stream present
  · rw [same.1,same.2]
    exact good.count present

lemma Good.step (good : Good w) (ok : Orderly w e) : Good (step w e) := by
  unfold Pipe.step perform
  rw [if_neg (by rw [good.sound]; nofun)]
  cases e with
  | enter r nbyte nonblock =>
    dsimp only
    split
    · exact good.enter (fun _ => good.notFreed_of_open (e := .read) ok) nofun
    · exact good
  | testBuffers r =>
    dsimp only
    split
    next here =>
      have present := good.notFreed (r := r) (by rw [here]; nofun)
      rw [access_eq present]
      refine good.enter (fun _ => present) fun saw _ => ?_
      by_cases zero : w.pipe.bCNT = 0
      · have count := good.count present
        rw [zero] at count
        exact eq_nil_of_length_eq_zero (by omega)
      · rw [if_neg zero] at saw
        cases saw
    · exact good
  | testWriters r =>
    dsimp only
    split
    next here =>
      have present := good.notFreed (r := r) (by rw [here]; nofun)
      rw [access_eq present]
      split
      · exact good.return_
      split
      · exact good.return_
      · exact good.enter (fun _ => present) nofun
    · exact good
  | interrupt r =>
    dsimp only
    split
    · exact good.return_
    · exact good
  | again r =>
    dsimp only
    split
    next here => exact good.enter (fun _ => good.notFreed (r := r) (by rw [here]; nofun)) nofun
    · exact good
  | take r =>
    dsimp only
    split
    next here =>
      have present := good.notFreed (r := r) (by rw [here]; nofun)
      rw [access_eq present]
      exact good.takeBytes present
    · exact good
  | write data alloc =>
    dsimp only
    rw [access_eq (good.notFreed_of_open (e := .write) ok.1)]
    exact good.sysWrite ok.1 ok.2
  | refEnd e =>
    dsimp only
    rw [access_eq (good.notFreed_of_open ok)]
    exact good.refEnd ok
  | releaseEnd e =>
    dsimp only
    rw [access_eq (good.notFreed_of_open ok.1)]
    exact good.releaseEnd ok

lemma ofNat_ne_zero (positive : 0 < n) (small : n < 2^32) : Int32.ofNat n ≠ 0 := by
  intro zero
  have bits := congrArg (fun x : Int32 => x.toBitVec.toNat) zero
  change (BitVec.ofNat 32 n).toNat = 0 at bits
  rw [BitVec.toNat_ofNat,Nat.mod_eq_of_lt small] at bits
  omega

/-- A read of a non-zero length that returns 0 has found no writer and everything read. -/
lemma Good.endOfFile (good : Good w) (returns : (perform w e).1 = some ret)
    (asked : ret.nbyte ≠ 0) (zero : ret.retval = 0) : w.pipe.wfdCNT ≤ 0 ∧ w.read = w.written := by
  unfold perform at returns
  rw [if_neg (by rw [good.sound]; nofun)] at returns
  cases e with
  | testWriters r =>
    dsimp only at returns
    split at returns
    next nbyte nonblock here =>
      have present := good.notFreed (r := r) (by rw [here]; nofun)
      rw [access_eq present] at returns
      split at returns
      next none =>
        refine ⟨none,?_⟩
        have empty := good.drained none r (by rw [here]; rfl)
        rw [good.stream present,PipeInfo.queued,empty]
        simp
      · split at returns
        · cases returns
          cases zero
        · cases returns
    · cases returns
  | take r =>
    dsimp only at returns
    split at returns
    next nbyte here =>
      have present := good.notFreed (r := r) (by rw [here]; nofun)
      rw [access_eq present,Pipe.takeBytes] at returns
      split at returns
      · cases returns
        cases zero
      rename_i b rest queue
      cases returns
      have live := b.live
      have small := good.small b (by rw [queue]; exact mem_cons_self)
      exact absurd zero (ofNat_ne_zero (by change nbyte ≠ 0 at asked; omega) (by omega))
    · cases returns
  | interrupt r =>
    dsimp only at returns
    split at returns
    · cases returns
      cases zero
    · cases returns
  | enter r nbyte nonblock | again r =>
    dsimp only at returns
    split at returns <;> cases returns
  | testBuffers r =>
    dsimp only at returns
    split at returns
    · unfold World.access at returns
      split at returns <;> cases returns
    · cases returns
  | write data alloc | refEnd e | releaseEnd e =>
    dsimp only [World.access] at returns
    split at returns <;> cases returns

end Steps

lemma created_good : Good created :=
  ⟨rfl,by decide,nofun,prefix_rfl,fun _ => rfl,fun _ => rfl,nofun,nofun⟩

/-- In every state of an orderly run: the bytes read are a prefix of the bytes written, and
together with the queued bytes they are all of them while the pipe exists; `bCNT` is the number
of queued buffers; and a read of a non-zero length returns 0 only when no write end is open and
every written byte has been read. -/
theorem pipe_is_fifo (events : List Event) (legal : Run.Legal step Orderly created events) :
    let w := Run.after step created events
    w.fault = false ∧ w.read <+: w.written ∧
    (w.freed = false → w.written = w.read ++ w.pipe.queued ∧ w.pipe.bCNT = w.pipe.bufs.length) ∧
    ∀ e ret, (perform w e).1 = some ret → ret.nbyte ≠ 0 → ret.retval = 0 → w.pipe.wfdCNT ≤ 0 ∧ w.read = w.written := by
  have good := legal.invariant (I := Good) (fun _ _ good ok => good.step ok) created_good
  exact ⟨good.sound,good.order,fun present => ⟨good.stream present,good.count present⟩,
    fun _ _ returns asked zero => good.endOfFile returns asked zero⟩

theorem pipe_is_fifo_short :
    let events : List Event :=
      [.enter 7 4 false,.testBuffers 7,.testWriters 7,.write [1,2] true,.releaseEnd .write,.again 7,
      .testBuffers 7,.take 7]
    let w := Run.after step created events
    w.read <+: w.written ∧ w.read = [1,2] := by
  intro events w
  have fifo := pipe_is_fifo events
    ⟨show 0 < created.pipe.rfdCNT by decide,trivial,trivial,⟨by decide,by decide⟩,
      ⟨by decide,fun dead => absurd dead (by decide),fun _ r saw => ?_⟩,
      trivial,trivial,trivial,trivial⟩
  · exact ⟨fifo.2.1,by decide⟩
  exfalso
  by_cases here : r = 7
  · subst here
    revert saw
    decide
  have idle : (Run.after step created [.enter 7 4 false,.testBuffers 7,.testWriters 7,.write [1,2] true]).call r =
    .idle := by
    change update (update (update _ 7 _) 7 _) 7 _ r = _
    rw [update_of_ne here,update_of_ne here,update_of_ne here]
    rfl
  change ((Run.after step created [.enter 7 4 false,.testBuffers 7,.testWriters 7,.write [1,2] true]).call r).saw =
    true at saw
  rw [idle] at saw
  cases saw

/-- A reader finds the pipe empty, a writer appends a byte and closes the last write end, and
the reader then finds no writer: it returns end of file with the byte queued. Blocking or not. -/
theorem pipe_eof_loses_bytes :
    let w (nonblock : Bool) :=
      Run.after step created [.enter 7 1 nonblock,.testBuffers 7,.write [1] true,.releaseEnd .write]
    let lost (w : World) := (perform w (.testWriters 7)).1 = some ⟨1,0⟩ ∧ w.pipe.queued = [1] ∧ w.read = []
    lost (w false) ∧ lost (w true) :=
  ⟨⟨rfl,rfl,rfl⟩,rfl,rfl,rfl⟩

end UbixOS.Posix.Pipe
