import UbixOS.Posix.Descrip

/-! `duplicate_descriptor` on entries of every type, with the objects behind them: the references
that it takes and drops, in order. -/
namespace UbixOS.Posix.Dup2

open Descrip (O_FILES)
open Pipe (PipeEnd)

/-- `struct file`, by its `fd_type`; a null `fd` or `data` is `none`. -/
inductive File where
  | regular (fd : Option Nat)
  | socket (socket : Nat)
  | pipe (data : Option Nat) (pipeEnd : PipeEnd)
  | dir (data : Option Nat)
  | tty
  | ttyv (data : Nat)
  /-- `ops`: `f_ops->close` is there -/
  | ptmaster (data : Nat) (ops : Bool)
  deriving DecidableEq

inductive Obj where
  | file (n : Nat)
  | socket (n : Nat)
  | pipe (n : Nat) (pipeEnd : PipeEnd)
  | dir (n : Nat)
  | master (slot : Nat)
  deriving DecidableEq

/-- The object an entry holds a reference to. Terminals are not counted. -/
def File.obj : File → Option Obj
  | .regular fd => fd.map .file
  | .socket n => some (.socket n)
  | .pipe data e => data.map (.pipe · e)
  | .dir data => data.map .dir
  | .tty | .ttyv _ => none
  | .ptmaster slot _ => some (.master slot)

/-- Neither a socket, which `close_fdslot` does not close, nor a master, whose close empties the slot. -/
def File.plain : File → Bool
  | .socket _ | .ptmaster _ _ => false
  | _ => true

structure State where
  files : Nat → Option File
  taken : List Obj
  dropped : List Obj

namespace State

def drop (s : State) (o : Obj) : State := { s with dropped := s.dropped ++ [o] }

def take (s : State) (o : Obj) : State := { s with taken := s.taken ++ [o] }

/-- The slot still has the entry read from it, or is empty. -/
def fdestroy (s : State) (fp : File) (fd : Nat) : Int × State :=
  if s.files fd = some fp then (0,{ s with files := Function.update s.files fd none }) else (-1,s)

def ptmFoClose (s : State) (fp : File) (slot fd : Nat) : State := ((s.drop (.master slot)).fdestroy fp fd).2

def closeFdslot (s : State) (fd : Nat) : Int × State :=
  match s.files fd with
  | none => (-1,s)
  | some f => match f with
    | .dir (some n) => (s.drop (.dir n)).fdestroy f fd
    | .ptmaster slot true => (s.ptmFoClose f slot fd).fdestroy f fd
    | .pipe (some n) e => (s.drop (.pipe n e)).fdestroy f fd
    | .regular (some n) => (s.drop (.file n)).fdestroy f fd
    -- A socket has no `fd`: the default case closes nothing.
    | _ => s.fdestroy f fd

/-- The references of a copy. A copy of a socket takes none. -/
def share (s : State) : File → State
  | .regular (some n) => s.take (.file n)
  | .pipe (some n) e => s.take (.pipe n e)
  | .ptmaster slot _ => s.take (.master slot)
  | .dir (some n) => s.take (.dir n)
  | _ => s

def ENOMEM : Int := 12

/-- `alloc` says that there is memory for the new entry. -/
def duplicateDescriptor (s : State) (source dest : Int) (alloc : Bool) : Int × State :=
  if source < 0 ∨ source ≥ O_FILES ∨ s.files source.toNat = none then (-1,s)
  else if dest < 0 ∨ dest ≥ O_FILES then (-1,s)
  else if source = dest then (0,s)
  else
    let (closed,s) := if s.files dest.toNat = none then (0,s) else s.closeFdslot dest.toNat
    if closed ≠ 0 then (-1,s)
    else match alloc, s.files source.toNat with
      | true, some fp => (0,{ s.share fp with files := Function.update s.files dest.toNat (some fp) })
      | _, _ => (-ENOMEM,s)

/-- Refused, the call has done nothing; otherwise `dest` is a copy of `source`, and what was there
has been dropped once. -/
structure AllOrNothing (s : State) (source dest : Int) (alloc : Bool) : Prop where
  refused : (s.duplicateDescriptor source dest alloc).1 ≠ 0 → (s.duplicateDescriptor source dest alloc).2 = s
  done : (s.duplicateDescriptor source dest alloc).1 = 0 → let s' := (s.duplicateDescriptor source dest alloc).2
    if source = dest then s' = s else s'.files = Function.update s.files dest.toNat (s.files source.toNat) ∧
      s'.dropped = s.dropped ++ ((s.files dest.toNat).bind File.obj).toList

variable {s : State} {f : File}

lemma closeFdslot_plain (here : s.files fd = some f) (plain : f.plain = true) : s.closeFdslot fd =
    (0,{ s with files := Function.update s.files fd none, dropped := s.dropped ++ f.obj.toList }) := by
  cases f with
  | socket | ptmaster => cases plain
  | tty | ttyv => simp [closeFdslot,here,fdestroy,File.obj]
  | regular n | pipe n | dir n => cases n <;> simp [closeFdslot,here,fdestroy,drop,File.obj]

lemma closeFdslot_odd (here : s.files fd = some f) (odd : f.plain = false) : (s.closeFdslot fd).2.files fd = none ∧
    ((s.closeFdslot fd).1 = 0 → f.obj.isSome ∧ (s.closeFdslot fd).2.dropped = s.dropped) := by
  cases f with
  | socket => simp [closeFdslot,here,fdestroy,File.obj]
  | ptmaster slot ops => cases ops <;> simp [closeFdslot,here,fdestroy,ptmFoClose,drop,File.obj]
  | _ => cases odd

lemma share_dropped : (s.share f).dropped = s.dropped := by
  cases f with
  | regular n | pipe n | dir n => cases n <;> rfl
  | _ => rfl

lemma closeFdslot_others (other : i ≠ fd) : (s.closeFdslot fd).2.files i = s.files i := by
  unfold closeFdslot ptmFoClose fdestroy
  repeat' split
  all_goals simp_all [drop]

section Replaced
variable {source dest : Int} (range : 0 ≤ source ∧ source < O_FILES) (opened : s.files source.toNat = some fp)
  (inside : 0 ≤ dest ∧ dest < O_FILES) (apart : source ≠ dest) (there : s.files dest.toNat = some f) (alloc : Bool)
include range opened inside apart there

/-- The call past its checks: `t` is the state after the old entry has been closed. -/
lemma duplicateDescriptor_replace : s.duplicateDescriptor source dest alloc =
      let t := (s.closeFdslot dest.toNat).2
      if (s.closeFdslot dest.toNat).1 ≠ 0 then (-1,t) else if alloc then
        (0,{ t.share fp with files := Function.update t.files dest.toNat (some fp) }) else (-ENOMEM,t) := by
  have still : (s.closeFdslot dest.toNat).2.files source.toNat = some fp := by
    rw [closeFdslot_others (by omega),opened]
  rw [duplicateDescriptor,if_neg (by simp [opened]; omega),if_neg (by omega),if_neg apart,if_neg (by simp [there])]
  dsimp only
  rw [still]
  cases alloc <;> rfl

lemma allOrNothing_plain (plain : f.plain = true) : s.AllOrNothing source dest alloc ↔ alloc = true := by
  have call := duplicateDescriptor_replace range opened inside apart there alloc
  rw [closeFdslot_plain there plain] at call
  cases alloc with
  | false =>
    refine iff_of_false (fun ⟨refused,_⟩ => ?_) nofun
    have kept := congrArg (·.files dest.toNat) (refused (by simp [call,ENOMEM]))
    simp [call,there] at kept
  | true =>
    refine iff_of_true ⟨fun failed => absurd ?_ failed,fun _ => ?_⟩ rfl
    · simp [call]
    · simp [call,apart,opened,there,share_dropped]

lemma allOrNothing_odd (odd : f.plain = false) : ¬s.AllOrNothing source dest alloc := by
  rintro ⟨refused,done⟩
  obtain ⟨emptied,leaked⟩ := closeFdslot_odd there odd
  have call := duplicateDescriptor_replace range opened inside apart there alloc
  rw [call] at refused done
  by_cases closed : (s.closeFdslot dest.toNat).1 = 0
  · obtain ⟨held,dropped⟩ := leaked closed
    cases alloc with
    | false =>
      have kept := congrArg (·.files dest.toNat) (refused (by simp [closed,ENOMEM]))
      simp [closed,emptied,there] at kept
    | true =>
      have once := (done (by simp [closed]))
      obtain ⟨o,held⟩ := Option.isSome_iff_exists.mp held
      simp [closed,apart,share_dropped,dropped,there,held] at once
  · have kept := congrArg (·.files dest.toNat) (refused (by simp [closed]))
    simp [closed,emptied,there] at kept

end Replaced
end State

/-- `dup2` is all or nothing exactly when there is nothing to close, or a plain entry and memory
for the new one. -/
theorem dup2_all_or_nothing (s : State) (source dest : Int) (alloc : Bool) (range : 0 ≤ source ∧ source < O_FILES)
    (opened : s.files source.toNat ≠ none) : s.AllOrNothing source dest alloc ↔
      (0 ≤ dest → dest < O_FILES → source ≠ dest → ∀ f, s.files dest.toNat = some f → f.plain = true ∧
        alloc = true) := by
  obtain ⟨fp,opened⟩ := Option.ne_none_iff_exists'.mp opened
  have passed : ¬(source < 0 ∨ source ≥ O_FILES ∨ s.files source.toNat = none) := by
    simp [opened]
    omega
  by_cases inside : 0 ≤ dest ∧ dest < O_FILES
  · by_cases same : source = dest
    · subst same
      have call : s.duplicateDescriptor source source alloc = (0,s) := by
        rw [State.duplicateDescriptor,if_neg passed,if_neg (by omega),if_pos rfl]
      exact iff_of_true ⟨fun failed => absurd (by rw [call]) failed,fun _ => by simp [call]⟩ fun _ _ other =>
        absurd rfl other
    cases there : s.files dest.toNat with
    | none =>
      have call : s.duplicateDescriptor source dest alloc = if alloc then
          (0,{ s.share fp with files := Function.update s.files dest.toNat (some fp) }) else (-State.ENOMEM,s) := by
        rw [State.duplicateDescriptor,if_neg passed,if_neg (by omega),if_neg same,if_pos there]
        dsimp only
        rw [opened]
        cases alloc <;> rfl
      refine iff_of_true ⟨fun failed => ?_,fun done => ?_⟩ fun _ _ _ f found => by cases found
      · cases alloc <;> simp_all
      · cases alloc <;> simp_all [State.share_dropped,State.ENOMEM]
    | some f =>
      cases plain : f.plain with
      | true =>
        rw [State.allOrNothing_plain range opened inside same there alloc plain]
        simp [inside,same,plain]
      | false =>
        refine iff_of_false (State.allOrNothing_odd range opened inside same there alloc plain) fun safe => ?_
        simpa [plain] using (safe inside.1 inside.2 same f rfl).1
  · have call : s.duplicateDescriptor source dest alloc = (-1,s) := by
      rw [State.duplicateDescriptor,if_neg passed,if_pos (by omega)]
    exact iff_of_true ⟨fun _ => by rw [call],fun done => by simp [call] at done⟩ fun low high =>
      absurd ⟨low,high⟩ inside

/-- The entry as the tables of all processes have it (`Descrip`): a null `data` and a master without a
close leave nothing to close. -/
def File.entry : File → Descrip.File
  | .regular fd => .regular fd
  | .socket _ => .device .socket
  | .pipe (some n) e => .pipe n e
  | .dir (some n) => .dir n
  | .pipe none _ | .dir none => .regular none
  | .tty => .device .tty
  | .ttyv _ | .ptmaster _ false => .device .ttyv
  | .ptmaster _ true => .device .ptmaster

namespace State

/-- The state is that of one table of `t`, entry by entry. -/
def Shows (s : State) (t : Descrip.State) (table : Nat) : Prop := ∀ i, t.slot (table,i) = (s.files i).map File.entry

section Shows
variable {s : State} {t : Descrip.State}

lemma add_slot (d : Int) (r : Descrip.Ref) : (t.add d r).slot = t.slot := by
  cases r with
  | pipe n e => cases e <;> rfl
  | _ => rfl

lemma access_slot {t' : Descrip.State} (same : t'.slot = t.slot) (o : Descrip.Obj) : (t.access o t').slot = t.slot := by
  unfold Descrip.State.access
  split_ifs
  · exact same
  · rfl

lemma shareRef_slot (f : Descrip.File) : (t.shareRef f).slot = t.slot := by
  cases f with
  | regular fd =>
    cases fd with
    | none => rfl
    | some n => exact access_slot (add_slot ..) _
  | pipe | dir => exact access_slot (add_slot ..) _
  | device => rfl

lemma closeFdslot_slot (here : t.slot k = some f) : (t.closeFdslot k).2.slot = Function.update t.slot k none := by
  have fclose (n : Nat) : (t.fclose n).slot = t.slot := by
    unfold Descrip.State.fclose
    split_ifs
    · exact add_slot ..
    · rfl
    · rfl
  have vfsClosedir (n : Nat) : (t.vfsClosedir n).slot = t.slot := by
    refine access_slot ?_ _
    dsimp only
    split_ifs <;> exact add_slot ..
  have pipeReleaseEnd (n : Nat) (e : PipeEnd) : (t.pipeReleaseEnd n e).slot = t.slot := by
    refine access_slot ?_ _
    dsimp only
    split_ifs <;> exact add_slot ..
  unfold Descrip.State.closeFdslot
  rw [here]
  split <;> simp_all [Descrip.State.fdestroy,Descrip.State.setSlot]

lemma closeFdslot_files (here : s.files fd = some f) :
    (s.closeFdslot fd).2.files = Function.update s.files fd none := by
  unfold closeFdslot
  rw [here]
  dsimp only
  split <;> simp [fdestroy,ptmFoClose,drop,here]

lemma Shows.update (shows : s.Shows t table) (x : Option File) {s' : State} {t' : Descrip.State}
    (files : s'.files = Function.update s.files fd x)
    (slot : t'.slot = Function.update t.slot (table,fd) (x.map File.entry)) : s'.Shows t' table := by
  intro i
  rw [files,slot]
  by_cases same : i = fd
  · simp [same]
  · simpa [same] using shows i

lemma Shows.closeFdslot (shows : s.Shows t table) (fd : Nat) :
    ((t.closeFdslot (table,fd)).1 = true ↔ (s.closeFdslot fd).1 = 0) ∧
      (s.closeFdslot fd).2.Shows (t.closeFdslot (table,fd)).2 table := by
  have there := shows fd
  cases here : s.files fd with
  | none =>
    rw [here] at there
    simpa [State.closeFdslot,Descrip.State.closeFdslot,here,there] using shows
  | some f =>
    rw [here] at there
    refine ⟨?_,shows.update none (closeFdslot_files here) (closeFdslot_slot there)⟩
    unfold State.closeFdslot Descrip.State.closeFdslot
    rw [here,there]
    cases f with
    | regular n | pipe n | dir n => cases n <;> simp [File.entry,fdestroy,drop,here]
    | ptmaster slot ops => cases ops <;> simp [File.entry,fdestroy,ptmFoClose,drop,here]
    | _ => simp [File.entry,fdestroy,here]

/-- The call once `dest` is closed, which went well for both or for neither. -/
lemma Shows.copied (shows : s.Shows t table) {closed : Int} {ok : Bool} (alike : ok = true ↔ closed = 0)
    (source dest : Nat) (alloc : Bool) :
    (if closed ≠ 0 then (-1,s)
      else match alloc, s.files source with
        | true, some fp => (0,{ s.share fp with files := Function.update s.files dest (some fp) })
        | _, _ => (-ENOMEM,s)).2.Shows
    (if ok ∧ alloc then
      match t.slot (table,source) with
      | none => { t with fault := true }
      | some f => (t.shareRef f).setSlot (table,dest) (some f)
    else t) table := by
  by_cases failed : closed ≠ 0
  · rw [if_pos failed,if_neg fun both => failed (alike.mp both.1)]
    exact shows
  rw [if_neg failed]
  cases alloc with
  | false =>
    rw [if_neg fun both => Bool.false_ne_true both.2]
    exact shows
  | true =>
    rw [if_pos ⟨alike.mpr (not_not.mp failed),rfl⟩,shows source]
    cases s.files source with
    | none => exact shows
    | some fp =>
      refine shows.update (some fp) rfl ?_
      simp [Descrip.State.setSlot,shareRef_slot]

/-- Both models of the call leave the same entries. -/
lemma Shows.duplicateDescriptor (shows : s.Shows t table) (source dest : Nat) (alloc : Bool) :
    (s.duplicateDescriptor source dest alloc).2.Shows (t.duplicateDescriptor table source dest alloc) table := by
  have empty (i : Nat) : t.slot (table,i) = none ↔ s.files i = none := by
    rw [shows i,Option.map_eq_none_iff]
  unfold State.duplicateDescriptor Descrip.State.duplicateDescriptor
  simp only [Int.toNat_natCast,empty]
  by_cases bad : source ≥ O_FILES ∨ s.files source = none
  · rw [if_pos (.inr (bad.imp_left Int.ofNat_le.mpr)),if_pos (bad.imp_right .inl)]
    exact shows
  have passed : ¬((source : Int) < 0 ∨ (source : Int) ≥ O_FILES ∨ s.files source = none) := by
    refine not_or.mpr ⟨by omega,fun far => bad (far.imp_left Int.ofNat_le.mp)⟩
  rw [if_neg passed]
  by_cases far : dest ≥ O_FILES
  · rw [if_pos (.inr (Int.ofNat_le.mpr far)),if_pos (.inr (.inr (.inl far)))]
    exact shows
  rw [if_neg (show ¬((dest : Int) < 0 ∨ (dest : Int) ≥ O_FILES) by omega)]
  by_cases same : source = dest
  · rw [if_pos (congrArg Nat.cast same),if_pos (.inr (.inr (.inr same)))]
    exact shows
  have clear : ¬(source ≥ O_FILES ∨ s.files source = none ∨ dest ≥ O_FILES ∨ source = dest) := by
    rw [← or_assoc]
    exact not_or.mpr ⟨bad,not_or.mpr ⟨far,same⟩⟩
  rw [if_neg (show ¬(source : Int) = dest by omega),if_neg clear]
  by_cases free : s.files dest = none
  · rw [if_pos free,if_pos free]
    exact shows.copied (iff_of_true rfl rfl) source dest alloc
  · rw [if_neg free,if_neg free]
    obtain ⟨alike,shows⟩ := shows.closeFdslot dest
    exact shows.copied alike source dest alloc

end Shows
end State

/-- A file at 0; a master, a socket and a file at 1, 2 and 3. -/
def table : State := ⟨fun fd => [File.regular (some 0),.ptmaster 4 true,.socket 5,.regular (some 6)][fd]?,[],[]⟩

theorem dup2_all_or_nothing_file : table.AllOrNothing 0 3 true :=
  (dup2_all_or_nothing table 0 3 true (by decide) (by decide)).mpr fun _ _ _ f found => by
    cases found
    decide

/-- A master is closed and the call fails; a socket is overwritten; without memory the entry is lost. -/
theorem dup2_loses : ((table.duplicateDescriptor 0 1 true).1 = -1 ∧
    (table.duplicateDescriptor 0 1 true).2.dropped = [.master 4]) ∧
    ((table.duplicateDescriptor 0 2 true).1 = 0 ∧ (table.duplicateDescriptor 0 2 true).2.dropped = []) ∧
    ((table.duplicateDescriptor 0 3 false).1 = -State.ENOMEM ∧ (table.duplicateDescriptor 0 3 false).2.files 3 = none) ∧
    ¬table.AllOrNothing 0 1 true ∧ ¬table.AllOrNothing 0 2 true ∧ ¬table.AllOrNothing 0 3 false := by
  refine ⟨by decide,by decide,by decide,?_,?_,?_⟩
  · exact State.allOrNothing_odd (by decide) rfl (by decide) (by decide) rfl _ rfl
  · exact State.allOrNothing_odd (by decide) rfl (by decide) (by decide) rfl _ rfl
  · rw [State.allOrNothing_plain (by decide) rfl (by decide) (by decide) rfl _ rfl]
    decide

end UbixOS.Posix.Dup2
