import UbixOS.Library.Fifo
import UbixOS.Library.Run

/-! Pseudo-terminal sessions (sys/posix/tty.c): the slots of the pool, the raw masters of
`posix_openpt`, and the descriptors that name a slot by its number. -/
namespace UbixOS.Posix.Pty

open Library List Option Run
open Function (update update_self update_of_ne update_eq_self update_idem)

def TTY_OUTBUF_SIZE : Nat := 8192

/-- `TTY_PTY_BASE` up to `TTY_MAX_TERMS`. -/
def slots : List Nat := range' 5 8

structure Term where
  inuse : Bool := false
  owner : Nat := 0
  hasMaster : Bool := false
  masterRefs : Nat := 0
  /-- `t_outbuf`, by the number of its `kmalloc` -/
  outbuf : Option Nat := none
  /-- `t_outhead`, `t_outtail` and the bytes of the ring -/
  ring : Fifo UInt8 := ⟨0,0,fun _ => 0⟩
  /-- the `pty_alloc` the slot was last taken by -/
  session : Nat := 0
  /-- what this session's ring took in and what `ptm_read` handed out of it -/
  accepted : List UInt8 := []
  delivered : List UInt8 := []
  /-- what was fed to this session's line discipline -/
  injected : List UInt8 := []

/-- A master descriptor of a process. The kernel stores the slot alone; the session is the one
that the descriptor was opened for. -/
structure Fd where
  slot : Nat
  session : Nat
  holder : Nat
  deriving DecidableEq

structure State where
  terms : Nat → Term
  fds : List Fd
  sessions : Nat
  /-- how many rings were allocated, and the ones that were freed -/
  rings : Nat
  freed : List Nat
  /-- a byte was fetched through a null `t_outbuf` -/
  fault : Bool

def start : State := ⟨fun _ => {},[],0,0,[],false⟩

namespace State

def put (s : State) (slot : Nat) (t : Term) : State := {s with terms := update s.terms slot t}

def ptyAlloc (s : State) (pid : Nat) : Option Nat × State :=
  match slots.find? fun slot => !(s.terms slot).inuse with
  | none => (none,s)
  | some slot =>
    let t : Term := {inuse := true, owner := pid, ring := (s.terms slot).ring, session := s.sessions}
    (some slot,{s.put slot t with sessions := s.sessions+1})

def ptyFree (s : State) (slot : Nat) : State :=
  if slot ∈ slots then s.put slot {s.terms slot with inuse := false, owner := 0} else s

/-- `memory`: whether `kmalloc` has a ring to give. -/
def ptyOpenMaster (s : State) (pid : Nat) (memory : Bool) : Option Nat × State :=
  match s.ptyAlloc pid with
  | (none,s) => (none,s)
  | (some slot,s) =>
    if memory then
      let ring := {(s.terms slot).ring with head := 0, tail := 0}
      let t := {s.terms slot with outbuf := some s.rings, ring := ring, hasMaster := true, masterRefs := 1}
      (some slot,{s.put slot t with rings := s.rings+1})
    else (none,s.ptyFree slot)

def ptyMasterForkRef (s : State) (slot : Nat) : State :=
  if slot ∈ slots then
    if (s.terms slot).inuse && (s.terms slot).hasMaster then
      s.put slot {s.terms slot with masterRefs := (s.terms slot).masterRefs+1}
    else s
  else s

def ptyCloseMaster (s : State) (slot : Nat) : State :=
  if slot ∈ slots then
    if 1 < (s.terms slot).masterRefs then
      s.put slot {s.terms slot with masterRefs := (s.terms slot).masterRefs-1}
    else
      let t := {s.terms slot with masterRefs := 0, hasMaster := false, outbuf := none}
      ptyFree {s.put slot t with freed := (s.terms slot).outbuf.toList ++ s.freed} slot
  else s

/-- `room`: whether the process has a free descriptor. -/
def sysPosixOpenpt (s : State) (pid : Nat) (memory room : Bool) : State :=
  match s.ptyOpenMaster pid memory with
  | (none,s) => s
  | (some slot,s) =>
    if room then {s with fds := ⟨slot,(s.terms slot).session,pid⟩ :: s.fds} else s.ptyCloseMaster slot

def ttyHangupByOwner (s : State) (pid : Nat) : State :=
  slots.foldl (fun s slot =>
    if (s.terms slot).inuse && (s.terms slot).owner == pid then s.ptyFree slot else s) s

end State

def Term.ptmPush (t : Term) (c : UInt8) : Term :=
  {t with
    ring := t.ring.push TTY_OUTBUF_SIZE c
    accepted := if Fifo.next TTY_OUTBUF_SIZE t.ring.head = t.ring.tail then t.accepted else t.accepted ++ [c]}

def Term.ptmOutput (t : Term) (onlcr : Bool) (string : List UInt8) : Term :=
  if t.outbuf.isNone then t
  else string.foldl (fun t c => (if c == 10 && onlcr then t.ptmPush 13 else t).ptmPush c) t

namespace State

/-- `tty_print` as far as a raw master is concerned. -/
def ttyPrint (s : State) (slot : Nat) (stopped onlcr : Bool) (string : List UInt8) : State :=
  if stopped then s
  else if (s.terms slot).hasMaster then s.put slot ((s.terms slot).ptmOutput onlcr string)
  else s

/-- A read of an empty ring returns nothing or sleeps; it is tried again after the wakeup. -/
def ptmRead (s : State) (slot n : Nat) : State :=
  if slot ∈ slots ∧ (s.terms slot).inuse then
    if n = 0 ∨ (s.terms slot).ring.head = (s.terms slot).ring.tail then s
    else if (s.terms slot).outbuf.isNone then {s with fault := true}
    else
      let got := (s.terms slot).ring.drain TTY_OUTBUF_SIZE n
      s.put slot {s.terms slot with ring := got.2, delivered := (s.terms slot).delivered ++ got.1}
  else s

def ptmWrite (s : State) (slot : Nat) (bytes : List UInt8) : State :=
  if slot ∈ slots ∧ (s.terms slot).inuse then
    s.put slot {s.terms slot with injected := (s.terms slot).injected ++ bytes}
  else s

end State

inductive Event where
  | openpt (pid : Nat) (memory room : Bool)
  /-- a graphical terminal takes a slot without a raw master -/
  | alloc (pid : Nat)
  /-- `dup` by the holder itself or `fork` to a child -/
  | dup (fd : Fd) (holder : Nat)
  | close (fd : Fd)
  | read (fd : Fd) (n : Nat)
  | write (fd : Fd) (bytes : List UInt8)
  | free (slot : Nat)
  /-- `endTask`: `fd_close_on_exit` passes over master descriptors -/
  | exit (pid : Nat)
  /-- `fork` and `endTask` hand a terminal on to another process -/
  | own (slot pid : Nat)
  | print (slot : Nat) (stopped onlcr : Bool) (string : List UInt8)

def step (s : State) : Event → State
  | .openpt pid memory room => s.sysPosixOpenpt pid memory room
  | .alloc pid => (s.ptyAlloc pid).2
  | .dup fd holder => {s.ptyMasterForkRef fd.slot with fds := {fd with holder := holder} :: s.fds}
  | .close fd => {s.ptyCloseMaster fd.slot with fds := s.fds.erase fd}
  | .read fd n => s.ptmRead fd.slot n
  | .write fd bytes => s.ptmWrite fd.slot bytes
  | .free slot => s.ptyFree slot
  | .exit pid => {s.ttyHangupByOwner pid with fds := s.fds.filter (·.holder ≠ pid)}
  | .own slot pid => s.put slot {s.terms slot with owner := pid}
  | .print slot stopped onlcr string => s.ttyPrint slot stopped onlcr string

/-- The events that are system calls on a master descriptor. -/
def Event.on : Event → Option Fd
  | .dup fd _ | .close fd | .read fd _ | .write fd _ => some fd
  | _ => none

namespace State

/-- No call on a master descriptor changes a slot that stands for another session. -/
def Isolated (s : State) : Prop := ∀ e, ∀ fd ∈ e.on, fd ∈ s.fds → ∀ slot,
  (s.terms slot).session ≠ fd.session → (step s e).terms slot = s.terms slot

/-- A ring is with a session in use or it was freed, once. -/
def FreedOnce (s : State) : Prop := s.freed.Nodup ∧ ∀ ring < s.rings,
  (ring ∈ s.freed ↔ ∀ slot, (s.terms slot).outbuf ≠ some ring) ∧
  ∀ slot, (s.terms slot).outbuf = some ring → (s.terms slot).inuse

/-- What `ptm_read` has returned is the beginning of what the ring took in; the ring holds the rest. -/
def InOrder (s : State) : Prop := ∀ slot, (s.terms slot).outbuf.isSome →
  (s.terms slot).delivered ++ (s.terms slot).ring.contents TTY_OUTBUF_SIZE = (s.terms slot).accepted

end State

/-- A slot is released by the last close of its master descriptors and by nothing before. -/
def Released (s : State) : Event → Prop
  | .free slot => ∀ fd ∈ s.fds, fd.slot ≠ slot
  | .exit pid => ∀ fd ∈ s.fds, fd.holder ≠ pid ∧ (s.terms fd.slot).owner ≠ pid
  | e => ∀ fd ∈ e.on, fd ∈ s.fds

structure Kept (t : Term) (mine : List Fd) : Prop where
  session : ∀ fd ∈ mine, t.inuse ∧ fd.session = t.session
  refs : t.masterRefs = mine.length
  master : t.hasMaster = true ↔ mine ≠ []
  ring : t.outbuf.isSome ↔ mine ≠ []
  order : t.outbuf.isSome → t.ring.Inside TTY_OUTBUF_SIZE ∧
    t.delivered ++ t.ring.contents TTY_OUTBUF_SIZE = t.accepted

/-- The rings of the slots and the freed ones are all that were ever allocated. -/
structure Rings (outbuf : Nat → Option Nat) (rings : Nat) (freed : List Nat) : Prop where
  nodup : freed.Nodup
  old : ∀ ring ∈ freed, ring < rings
  held : ∀ slot ring, outbuf slot = some ring → ring < rings ∧ ring ∉ freed
  apart : ∀ a b ring, outbuf a = some ring → outbuf b = some ring → a = b
  all : ∀ ring < rings, ring ∈ freed ∨ ∃ slot, outbuf slot = some ring

def mine (fds : List Fd) (slot : Nat) : List Fd := fds.filter (·.slot = slot)

structure Sound (s : State) : Prop where
  kept : ∀ slot, Kept (s.terms slot) (mine s.fds slot)
  pool : ∀ fd ∈ s.fds, fd.slot ∈ slots
  rings : Rings (fun slot => (s.terms slot).outbuf) s.rings s.freed
  fault : s.fault = false

variable {s : State}

lemma mem_mine : fd ∈ mine fds slot ↔ fd ∈ fds ∧ fd.slot = slot := by
  simp [mine]

lemma Sound.own (sound : Sound s) (member : fd ∈ s.fds) :
    (s.terms fd.slot).inuse ∧ fd.session = (s.terms fd.slot).session :=
  (sound.kept fd.slot).session fd (mem_mine.mpr ⟨member,rfl⟩)

lemma Kept.unused (kept : Kept t fds) (idle : t.inuse = false) : fds = [] := by
  apply eq_nil_iff_forall_not_mem.mpr
  intro fd member
  exact absurd (kept.session fd member).1 (by simp [idle])

lemma kept_nil : Kept t [] ↔ t.masterRefs = 0 ∧ t.hasMaster = false ∧ t.outbuf = none := by
  constructor
  · intro kept
    have master := kept.master
    have ring := kept.ring
    simp at master ring
    exact ⟨kept.refs,master,ring⟩
  · rintro ⟨refs,master,ring⟩
    exact ⟨by simp,by simp [refs],by simp [master],by simp [ring],by simp [ring]⟩

lemma mine_nil (free : ∀ fd ∈ s.fds, fd.slot ≠ slot) : mine s.fds slot = [] := by
  apply filter_eq_nil_iff.mpr
  intro fd member
  simpa using free fd member

lemma start_sound : Sound start := by
  refine ⟨fun slot => kept_nil.mpr ⟨rfl,rfl,rfl⟩,by simp [start],⟨by simp [start],?_,?_,?_,?_⟩,rfl⟩ <;> simp [start]

/-- A slot and its descriptors change together, the other slots not at all. -/
lemma Sound.update (sound : Sound s) (fds : List Fd)
    (sessions : Nat) (kept : Kept t (mine fds slot)) (others : ∀ k ≠ slot, mine fds k = mine s.fds k)
    (pool : slot ∈ slots ∨ mine fds slot = [])
    (rings : Rings (update (fun k => (s.terms k).outbuf) slot t.outbuf) n freed) :
    Sound ⟨update s.terms slot t,fds,sessions,n,freed,s.fault⟩ := by
  refine ⟨fun k => ?_,fun fd member => ?_,?_,sound.fault⟩
  · by_cases same : k = slot
    · subst same
      simpa using kept
    · simpa [same,others k same] using sound.kept k
  · by_cases same : fd.slot = slot
    · rcases pool with inside | none
      · rwa [same]
      · have := mem_mine.mpr ⟨member,same⟩
        simp [none] at this
    · have old : fd ∈ mine s.fds fd.slot := others fd.slot same ▸ mem_mine.mpr ⟨member,rfl⟩
      exact sound.pool fd (mem_mine.mp old).1
  · convert rings using 1
    funext k
    by_cases same : k = slot
    · subst same
      simp
    · simp [same]

lemma Sound.put (sound : Sound s) (sessions : Nat) (kept : Kept t (mine s.fds slot))
    (same : t.outbuf = (s.terms slot).outbuf) :
    Sound {s.put slot t with sessions := sessions} := by
  refine sound.update s.fds sessions kept (fun _ _ => rfl) ?_ ?_
  · by_cases none : mine s.fds slot = []
    · exact .inr none
    obtain ⟨fd,member⟩ := exists_mem_of_ne_nil _ none
    have := mem_mine.mp member
    exact .inl (this.2 ▸ sound.pool fd this.1)
  · rw [same,update_eq_self]
    exact sound.rings

lemma Rings.attach (rings : Rings outbuf n freed) (empty : outbuf slot = none) :
    Rings (update outbuf slot (some n)) (n+1) freed := by
  have fresh : ∀ k, outbuf k ≠ some n := fun k equal => absurd (rings.held k n equal).1 (by simp)
  refine ⟨rings.nodup,fun ring member => Nat.lt_succ_of_lt (rings.old ring member),?_,?_,?_⟩
  · intro k ring equal
    by_cases same : k = slot
    · subst same
      obtain rfl : n = ring := by simpa using equal
      exact ⟨by simp,fun member => absurd (rings.old n member) (by simp)⟩
    · rw [update_of_ne same] at equal
      exact ⟨Nat.lt_succ_of_lt (rings.held k ring equal).1,(rings.held k ring equal).2⟩
  · intro a b ring left right
    by_cases one : a = slot <;> by_cases two : b = slot <;> simp [one,two] at left right ⊢
    · exact absurd (left ▸ right) (fresh b)
    · exact absurd (right ▸ left) (fresh a)
    · exact rings.apart a b ring left right
  · intro ring below
    rcases Nat.lt_succ_iff_lt_or_eq.mp below with old | rfl
    · refine (rings.all ring old).imp_right fun ⟨k,equal⟩ => ⟨k,?_⟩
      rwa [update_of_ne]
      rintro rfl
      simp [empty] at equal
    · exact .inr ⟨slot,by simp⟩

lemma Rings.release (rings : Rings outbuf n freed) (slot ring : Nat) (held : outbuf slot = some ring) :
    Rings (update outbuf slot none) n (ring :: freed) := by
  have old := rings.held slot ring held
  have kept k r (equal : update outbuf slot none k = some r) : k ≠ slot ∧ outbuf k = some r := by
    by_cases same : k = slot
    · subst same
      simp at equal
    · exact ⟨same,by rwa [update_of_ne same] at equal⟩
  refine ⟨nodup_cons.mpr ⟨old.2,rings.nodup⟩,?_,?_,?_,?_⟩
  · intro r member
    rcases mem_cons.mp member with rfl | member
    · exact old.1
    · exact rings.old r member
  · intro k r equal
    obtain ⟨other,equal⟩ := kept k r equal
    refine ⟨(rings.held k r equal).1,?_⟩
    rw [mem_cons,not_or]
    refine ⟨?_,(rings.held k r equal).2⟩
    rintro rfl
    exact other (rings.apart k slot r equal held)
  · exact fun a b r left right => rings.apart a b r (kept a r left).2 (kept b r right).2
  intro r below
  by_cases same : r = ring
  · exact .inl (by simp [same])
  refine (rings.all r below).imp (mem_cons_of_mem ring) fun ⟨k,equal⟩ => ⟨k,?_⟩
  rwa [update_of_ne]
  rintro rfl
  rw [held] at equal
  exact same (some.inj equal).symm

lemma ptyFree_sound (sound : Sound s) (idle : mine s.fds slot = []) : Sound (s.ptyFree slot) := by
  unfold State.ptyFree
  split_ifs
  · refine sound.put s.sessions ?_ rfl
    have kept := sound.kept slot
    rw [idle,kept_nil] at kept ⊢
    exact kept
  · exact sound

lemma ptyAlloc_sound (sound : Sound s) (pid : Nat) : Sound (s.ptyAlloc pid).2 ∧ ∀ slot ∈ (s.ptyAlloc pid).1,
    slot ∈ slots ∧ mine (s.ptyAlloc pid).2.fds slot = [] ∧ ((s.ptyAlloc pid).2.terms slot).inuse ∧
    ((s.ptyAlloc pid).2.terms slot).delivered = ((s.ptyAlloc pid).2.terms slot).accepted := by
  unfold State.ptyAlloc
  split
  · exact ⟨sound,by simp⟩
  rename_i slot found
  have unused : mine s.fds slot = [] := (sound.kept slot).unused (by simpa using find?_some found)
  have kept := sound.kept slot
  rw [unused,kept_nil] at kept
  refine ⟨sound.put _ ?_ kept.2.2.symm,?_⟩
  · rw [unused,kept_nil]
    exact ⟨rfl,rfl,rfl⟩
  intro k member
  obtain rfl : slot = k := by simpa using member
  exact ⟨mem_of_find?_eq_some found,unused,by simp [State.put],by simp [State.put]⟩

lemma mine_cons : mine (fd :: fds) slot = if fd.slot = slot then fd :: mine fds slot else mine fds slot := by
  simp [mine,filter_cons]

lemma sysPosixOpenpt_sound (sound : Sound s) (pid : Nat) (memory room : Bool) :
    Sound (s.sysPosixOpenpt pid memory room) := by
  obtain ⟨sound,taken⟩ := ptyAlloc_sound sound pid
  unfold State.sysPosixOpenpt State.ptyOpenMaster
  rcases equal : s.ptyAlloc pid with ⟨_ | slot,u⟩ <;> rw [equal] at sound taken
  · exact sound
  obtain ⟨inside,unused,inuse,started⟩ := taken slot rfl
  have kept := sound.kept slot
  rw [unused,kept_nil] at kept
  cases memory
  · exact ptyFree_sound sound unused
  have attached := sound.rings.attach kept.2.2
  let ring : Fifo UInt8 := {(u.terms slot).ring with head := 0, tail := 0}
  cases room
  · have released := attached.release slot u.rings (by simp)
    rw [update_idem] at released
    have closed := sound.update u.fds (t := {u.terms slot with
      inuse := false, owner := 0, hasMaster := false, masterRefs := 0, outbuf := none, ring := ring}) u.sessions
      (by rw [unused]; exact kept_nil.mpr ⟨rfl,rfl,rfl⟩) (fun _ _ => rfl) (.inl inside) released
    simpa [State.ptyCloseMaster,inside,State.ptyFree,State.put] using closed
  let fd : Fd := ⟨slot,(u.terms slot).session,pid⟩
  have only : mine (fd :: u.fds) slot = [fd] := by simp [mine_cons,unused,fd]
  have empty : ring.contents TTY_OUTBUF_SIZE = [] := Fifo.contents_empty rfl
  have inside' : ring.Inside TTY_OUTBUF_SIZE := ⟨by simp [ring,TTY_OUTBUF_SIZE],by simp [ring,TTY_OUTBUF_SIZE]⟩
  have fine : Kept {u.terms slot with
      hasMaster := true, masterRefs := 1, outbuf := some u.rings, ring := ring} [fd] := by
    refine ⟨?_,rfl,by simp,by simp,fun _ => ⟨inside',?_⟩⟩
    · simpa [fd] using inuse
    · simpa [empty] using started
  have opened := sound.update (fd :: u.fds) u.sessions (only ▸ fine)
    (fun k other => by simp [mine_cons,fd,Ne.symm other]) (.inl inside) attached
  simpa [State.put] using opened

lemma ptyMasterForkRef_sound (sound : Sound s) (member : fd ∈ s.fds) (holder : Nat) :
    Sound {s.ptyMasterForkRef fd.slot with fds := {fd with holder := holder} :: s.fds} := by
  have kept := sound.kept fd.slot
  have here : fd ∈ mine s.fds fd.slot := mem_mine.mpr ⟨member,rfl⟩
  have some := ne_nil_of_mem here
  have master := kept.master.mpr some
  have opened := sound.update ({fd with holder := holder} :: s.fds)
    (t := {s.terms fd.slot with masterRefs := (s.terms fd.slot).masterRefs+1}) s.sessions (by
      rw [mine_cons,if_pos rfl]
      refine ⟨?_,by simp [kept.refs],by simp [master],by simp [kept.ring.mpr some],kept.order⟩
      intro other within
      rcases mem_cons.mp within with rfl | within
      · exact kept.session fd here
      · exact kept.session other within)
    (fun k other => by simp [mine_cons,Ne.symm other]) (.inl (sound.pool fd member))
    (by rw [update_eq_self]; exact sound.rings)
  simpa [State.ptyMasterForkRef,sound.pool fd member,(kept.session fd here).1,master,State.put] using opened

lemma mine_erase (fd : Fd) : mine (fds.erase fd) slot = (mine fds slot).erase fd := by
  unfold mine
  rw [erase_filter]

lemma ptyCloseMaster_sound (sound : Sound s) (member : fd ∈ s.fds) :
    Sound {s.ptyCloseMaster fd.slot with fds := s.fds.erase fd} := by
  have kept := sound.kept fd.slot
  have here : fd ∈ mine s.fds fd.slot := mem_mine.mpr ⟨member,rfl⟩
  have some := ne_nil_of_mem here
  have inside := sound.pool fd member
  have others k (other : k ≠ fd.slot) : mine (s.fds.erase fd) k = mine s.fds k := by
    rw [mine_erase]
    exact erase_of_not_mem fun within => other (mem_mine.mp within).2.symm
  have fewer := length_erase_of_mem here
  by_cases shared : 1 < (s.terms fd.slot).masterRefs
  · have left : (mine s.fds fd.slot).erase fd ≠ [] := by
      rw [← length_pos_iff,fewer,← kept.refs]
      omega
    have closed := sound.update (s.fds.erase fd)
      (t := {s.terms fd.slot with masterRefs := (s.terms fd.slot).masterRefs-1}) s.sessions (by
        rw [mine_erase]
        refine ⟨fun other within => kept.session other (mem_of_mem_erase within),by simp [fewer,kept.refs],
          iff_of_true (kept.master.mpr some) left,iff_of_true (kept.ring.mpr some) left,kept.order⟩)
      others (.inl inside) (by rw [update_eq_self]; exact sound.rings)
    simpa [State.ptyCloseMaster,inside,shared,State.put] using closed
  · have last : (mine s.fds fd.slot).erase fd = [] := by
      rw [← length_eq_zero_iff,fewer,← kept.refs]
      omega
    obtain ⟨ring,held⟩ := isSome_iff_exists.mp (kept.ring.mpr some)
    have closed := sound.update (s.fds.erase fd) (t := {s.terms fd.slot with
      masterRefs := 0, hasMaster := false, outbuf := none, inuse := false, owner := 0}) s.sessions (by
        rw [mine_erase,last]
        exact kept_nil.mpr ⟨rfl,rfl,rfl⟩)
      others (.inl inside) (sound.rings.release fd.slot ring held)
    simpa [State.ptyCloseMaster,inside,shared,State.put,State.ptyFree,held] using closed

lemma ptmPush_kept (kept : Kept t fds) (c : UInt8) : Kept (t.ptmPush c) fds := by
  refine ⟨kept.session,kept.refs,kept.master,kept.ring,fun ring => ?_⟩
  obtain ⟨inside,order⟩ := kept.order ring
  refine ⟨Fifo.push_inside inside c,?_⟩
  simp only [Term.ptmPush,Fifo.push_contents inside]
  split_ifs
  · exact order
  · rw [← append_assoc,order]

lemma ptmOutput_kept (kept : Kept t fds) (onlcr : Bool) (string : List UInt8) :
    Kept (t.ptmOutput onlcr string) fds ∧ (t.ptmOutput onlcr string).outbuf = t.outbuf := by
  unfold Term.ptmOutput
  split_ifs
  · exact ⟨kept,rfl⟩
  refine foldlRecOn string (motive := fun u => Kept u fds ∧ u.outbuf = t.outbuf) _ ⟨kept,rfl⟩
    fun u good c _ => ?_
  split_ifs
  · exact ⟨ptmPush_kept (ptmPush_kept good.1 13) c,good.2⟩
  · exact ⟨ptmPush_kept good.1 c,good.2⟩

lemma ttyPrint_sound (sound : Sound s) (stopped onlcr : Bool) (string : List UInt8) :
    Sound (s.ttyPrint slot stopped onlcr string) := by
  unfold State.ttyPrint
  split_ifs
  · exact sound
  · obtain ⟨kept,same⟩ := ptmOutput_kept (sound.kept slot) onlcr string
    exact sound.put s.sessions kept same
  · exact sound

lemma ptmRead_sound (sound : Sound s) (member : fd ∈ s.fds) (n : Nat) : Sound (s.ptmRead fd.slot n) := by
  have kept := sound.kept fd.slot
  have ring := kept.ring.mpr (ne_nil_of_mem (mem_mine.mpr ⟨member,rfl⟩))
  unfold State.ptmRead
  split_ifs with used empty null
  · exact sound
  · simp [isNone_iff_eq_none.mp null] at ring
  · obtain ⟨inside,order⟩ := kept.order ring
    obtain ⟨front,within⟩ := Fifo.drain_contents n inside
    refine sound.put s.sessions ⟨kept.session,kept.refs,kept.master,kept.ring,fun _ => ⟨within,?_⟩⟩ rfl
    rw [append_assoc,front,order]
  · exact sound

lemma ptmWrite_sound (sound : Sound s) (bytes : List UInt8) : Sound (s.ptmWrite slot bytes) := by
  have kept := sound.kept slot
  unfold State.ptmWrite
  split_ifs
  · exact sound.put s.sessions ⟨kept.session,kept.refs,kept.master,kept.ring,kept.order⟩ rfl
  · exact sound

lemma ptyFree_fds : (s.ptyFree slot).fds = s.fds := by
  unfold State.ptyFree
  split_ifs <;> rfl

lemma ptyFree_other (other : k ≠ slot) : (s.ptyFree slot).terms k = s.terms k := by
  unfold State.ptyFree
  split_ifs <;> simp [State.put,other]

lemma ttyHangupByOwner_sound (sound : Sound s) (spared : ∀ fd ∈ s.fds, (s.terms fd.slot).owner ≠ pid) :
    Sound (s.ttyHangupByOwner pid) ∧ (s.ttyHangupByOwner pid).fds = s.fds := by
  have kept : Sound (s.ttyHangupByOwner pid) ∧ (s.ttyHangupByOwner pid).fds = s.fds ∧
      ∀ fd ∈ s.fds, ((s.ttyHangupByOwner pid).terms fd.slot).owner ≠ pid := by
    refine foldlRecOn slots (motive := fun u => Sound u ∧ u.fds = s.fds ∧
      ∀ fd ∈ s.fds, (u.terms fd.slot).owner ≠ pid) _ ⟨sound,rfl,spared⟩ fun u ⟨good,same,free⟩ slot _ => ?_
    split_ifs with owned
    · have owned : (u.terms slot).owner = pid := by simpa using (Bool.and_eq_true_iff.mp owned).2
      have away : ∀ fd ∈ u.fds, fd.slot ≠ slot := by
        rintro fd member rfl
        exact free fd (same ▸ member) owned
      refine ⟨ptyFree_sound good (mine_nil away),ptyFree_fds.trans same,fun fd member => ?_⟩
      have other := away fd (same.symm ▸ member)
      rw [ptyFree_other other]
      exact free fd member
    · exact ⟨good,same,free⟩
  exact ⟨kept.1,kept.2.1⟩

lemma step_sound (sound : Sound s) (e : Event) (released : Released s e) : Sound (step s e) := by
  cases e with
  | openpt pid memory room => exact sysPosixOpenpt_sound sound pid memory room
  | alloc pid => exact (ptyAlloc_sound sound pid).1
  | dup fd holder => exact ptyMasterForkRef_sound sound (released fd rfl) holder
  | close fd => exact ptyCloseMaster_sound sound (released fd rfl)
  | read fd n => exact ptmRead_sound sound (released fd rfl) n
  | write fd bytes => exact ptmWrite_sound sound bytes
  | free slot => exact ptyFree_sound sound (mine_nil released)
  | exit pid =>
    obtain ⟨good,same⟩ := ttyHangupByOwner_sound sound fun fd member => (released fd member).2
    have all : s.fds.filter (·.holder ≠ pid) = (s.ttyHangupByOwner pid).fds := by
      rw [same]
      simpa using fun fd member => (released fd member).1
    simp only [step,all]
    exact good
  | own slot pid =>
    have kept := sound.kept slot
    exact sound.put s.sessions ⟨kept.session,kept.refs,kept.master,kept.ring,kept.order⟩ rfl
  | print slot stopped onlcr string => exact ttyPrint_sound sound stopped onlcr string

lemma step_other (on : fd ∈ e.on) (other : slot ≠ fd.slot) : (step s e).terms slot = s.terms slot := by
  cases e with
  | openpt | alloc | free | exit | own | print => simp [Event.on] at on
  | dup fd holder =>
    obtain rfl := some.inj on
    simp only [step,State.ptyMasterForkRef]
    split_ifs <;> simp [State.put,other]
  | close fd =>
    obtain rfl := some.inj on
    simp only [step,State.ptyCloseMaster]
    split_ifs <;> simp [State.put,other,ptyFree_other]
  | read fd n =>
    obtain rfl := some.inj on
    simp only [step,State.ptmRead]
    split_ifs <;> simp [State.put,other]
  | write fd bytes =>
    obtain rfl := some.inj on
    simp only [step,State.ptmWrite]
    split_ifs <;> simp [State.put,other]

lemma Sound.isolated (sound : Sound s) : s.Isolated := by
  intro e fd on member slot foreign
  refine step_other on ?_
  rintro rfl
  exact foreign (sound.own member).2.symm

lemma Sound.freedOnce (sound : Sound s) : s.FreedOnce := by
  have rings := sound.rings
  refine ⟨rings.nodup,fun ring below => ⟨⟨?_,?_⟩,?_⟩⟩
  · exact fun gone slot held => (rings.held slot ring held).2 gone
  · exact fun away => (rings.all ring below).resolve_right fun ⟨slot,held⟩ => away slot held
  intro slot held
  have kept := sound.kept slot
  obtain ⟨fd,member⟩ := exists_mem_of_ne_nil _ (kept.ring.mp (by simp [held]))
  exact (kept.session fd member).1

/-- Sessions are apart in every run in which a slot with open master descriptors is released by
their last close only. -/
theorem sessions_isolated (events : List Event) (legal : Run.Legal step Released start events) :
    (after step start events).Isolated ∧ (after step start events).FreedOnce ∧
    (after step start events).InOrder ∧ (after step start events).fault = false := by
  have sound : Sound (after step start events) :=
    legal.invariant (fun s e good released => step_sound good e released) start_sound
  exact ⟨sound.isolated,sound.freedOnce,fun slot ring => ((sound.kept slot).order ring).2,sound.fault⟩

theorem sessions_isolated_shared :
    (after step start [.openpt 1 true true,.dup ⟨5,0,1⟩ 2,.print 5 false true [104,10],.read ⟨5,0,2⟩ 2,
      .close ⟨5,0,1⟩,.close ⟨5,0,2⟩,.exit 1,.openpt 3 true true]).Isolated :=
  (sessions_isolated _ (by simp [Run.Legal,Released]; decide)).1

/-- The opener of a master exits while a child still holds a copy: the slot is handed out again
and the child's close tears the new session down. The ring of the first one is lost. -/
theorem stale_master_closes_session :
    let s := after step start [.openpt 1 true true,.dup ⟨5,0,1⟩ 2,.exit 1,.openpt 3 true true]
    ⟨5,0,2⟩ ∈ s.fds ∧ (s.terms 5).session = 1 ∧ (s.terms 5).inuse ∧
      ((step s (.close ⟨5,0,2⟩)).terms 5).inuse = false ∧ ¬s.Isolated ∧ ¬s.FreedOnce := by
  intro s
  have held : ⟨5,0,2⟩ ∈ s.fds := by decide
  have closed : ((step s (.close ⟨5,0,2⟩)).terms 5).inuse = false := by decide
  have rings slot : (s.terms slot).outbuf ≠ some 0 := by
    by_cases same : slot = 5
    · subst same
      decide
    · simp [s,same,step,State.sysPosixOpenpt,State.ptyOpenMaster,State.ptyAlloc,slots,start,State.put,
        State.ptyMasterForkRef,range',State.ttyHangupByOwner,State.ptyFree]
  refine ⟨held,by decide,by decide,closed,fun isolated => ?_,fun freed => ?_⟩
  · have same := isolated (.close ⟨5,0,2⟩) ⟨5,0,2⟩ rfl held 5 (by decide)
    rw [same] at closed
    exact absurd closed (by decide)
  · exact absurd ((freed.2 0 (by decide)).1.mpr rings) (by decide)

end UbixOS.Posix.Pty
