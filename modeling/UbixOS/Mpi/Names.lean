import UbixOS.Mpi.Wakeup

/-! The names of the mailboxes. `mpi_createMbox` stores the first 63 bytes of a name, but looks
for all of it. -/
namespace UbixOS.Mpi

open Library World List Run State

/-- A new mailbox gets a name that fits in its field. -/
def Event.Short : Event → Prop
  | .enter _ (.createMbox name _) => name.length < nameSize
  | _ => True

structure Named (s : State) (boxes : List Addr) (queue : Addr → List Addr) : Prop where
  sound : Sound s boxes queue
  unique : ∀ b ∈ boxes, ∀ c ∈ boxes, (s.mbox b).name = (s.mbox c).name → b = c

/-- Mailbox number `n` is in use, with this name and owner. -/
def Held (s : State) (boxes : List Addr) (n : Nat) (name : Name) (t : Tid) : Prop :=
  ∃ b ∈ boxes, s.serial b = n ∧ (s.mbox b).name = name ∧ (s.mbox b).pid = t

namespace Named

variable {w : World} (named : Named s boxes queue)
include named

lemma find (held : Held s boxes n name t) : ∃ b, s.findMbox name = some b ∧ s.serial b = n := by
  obtain ⟨b,member,serial,called,-⟩ := held
  rw [named.sound.rep.findMbox_eq]
  cases found : boxes.find? fun a => (s.mbox a).name = name with
  | none => exact absurd called (by simpa using find?_eq_none.mp found b member)
  | some c =>
    have same : (s.mbox c).name = name := by simpa using find?_some found
    exact ⟨c,rfl,named.unique c (mem_of_find?_eq_some found) b member (same.trans called.symm) ▸ serial⟩

lemma left (left : Sound.Left s boxes doomed s') :
    ∃ boxes' queue', Named s' boxes' queue' ∧ ∀ n name t, ¬doomed name t → Held s boxes n name t →
      Held s' boxes' n name t := by
  obtain ⟨boxes',queue',sound,lasting,fewer,others⟩ := left
  refine ⟨boxes',queue',⟨sound,fun b inside c inside' same => ?_⟩,?_⟩
  · rw [lasting.name,lasting.name] at same
    exact named.unique b (fewer inside) c (fewer inside') same
  · rintro n name t spared ⟨b,member,rfl,rfl,rfl⟩
    exact ⟨b,others b member spared,congrFun lasting.serial b,lasting.name b,lasting.pid b⟩

lemma link (fresh : a ∉ s.heap) (absent : s.findMbox name = none) (short : name.length < nameSize) (t : Tid) :
    Named (s.link a name t) (a :: boxes) (Function.update queue a []) ∧
      Held (s.link a name t) (a :: boxes) s.created name t ∧
    ∀ n name' t', Held s boxes n name' t' → Held (s.link a name t) (a :: boxes) n name' t' := by
  have whole : name.take (nameSize - 1) = name := take_of_length_le (Nat.le_sub_one_of_lt short)
  have ne {c : Addr} (member : c ∈ boxes) : c ≠ a := fun same => fresh (same ▸ named.sound.rep.box_heap member)
  have other (c : Addr) (member : c ∈ boxes) : (s.mbox c).name ≠ name := by
    rw [named.sound.rep.findMbox_eq] at absent
    simpa using find?_eq_none.mp absent c member
  refine ⟨⟨named.sound.link fresh name t,?_⟩,
    ⟨a,mem_cons_self,by simp [State.link],by simp [State.link,whole],by simp [State.link]⟩,?_⟩
  · intro b inside c inside'
    rcases mem_cons.mp inside with rfl | old <;> rcases mem_cons.mp inside' with rfl | old'
    · exact fun _ => rfl
    · simpa [State.link,ne old',whole] using fun same => absurd same.symm (other c old')
    · simpa [State.link,ne old,whole] using fun same => absurd same (other b old)
    · simpa [State.link,ne old,ne old'] using named.unique b old c old'
  · rintro n name' t' ⟨b,member,held⟩
    exact ⟨b,.tail a member,by simpa [State.link,ne member] using held⟩

end Named

lemma World.step_named {w : World} (named : Named w.mpi boxes queue) (short : e.Short) :
    ∃ boxes' queue', Named (w.step e).mpi boxes' queue' ∧
      (∀ n name t, ¬e.dooms name t → Held w.mpi boxes n name t → Held (w.step e).mpi boxes' n name t) ∧
      ∀ t name, e.Creates w t name → Held (w.step e).mpi boxes' w.mpi.created name t := by
  rcases step_cases named.sound e with left | ⟨t,name,a,⟨alloc,rfl,idle,success⟩,absent,fresh,same⟩
  · have created : (w.step e).mpi.created = w.mpi.created := by
      obtain ⟨_,_,_,lasting,_⟩ := left
      exact lasting.created
    obtain ⟨boxes',queue',named',kept⟩ := named.left left
    refine ⟨boxes',queue',named',kept,?_⟩
    rintro t name ⟨alloc,rfl,idle,success⟩
    rcases Rep.createMbox_cases (s := w.mpi) t name alloc with same | ⟨-,a,-,same⟩
    · simp [same] at success
    · simp [step,enter,idle,same,link] at created
  · obtain ⟨named',held,kept⟩ := named.link fresh absent short t
    rw [same]
    refine ⟨_,_,named',fun n name' t' _ => kept n name' t',?_⟩
    rintro t' name' ⟨alloc',same',-⟩
    cases same'
    exact held

lemma World.run_named (named : Named w.mpi boxes queue) (short : ∀ e ∈ events, Event.Short e) :
    ∃ boxes' queue', Named (after step w events).mpi boxes' queue' ∧ ∀ n name t, (∀ e ∈ events, ¬e.dooms name t) →
      Held w.mpi boxes n name t → Held (after step w events).mpi boxes' n name t := by
  induction events generalizing w boxes queue with
  | nil => exact ⟨boxes,queue,named,fun _ _ _ _ held => held⟩
  | cons e events ih =>
    obtain ⟨first,others⟩ := forall_mem_cons.mp short
    obtain ⟨_,_,named,kept,-⟩ := step_named named first
    obtain ⟨boxes',queue',named,later⟩ := ih named others
    refine ⟨boxes',queue',named,fun n name t spared held => ?_⟩
    obtain ⟨now,after⟩ := forall_mem_cons.mp spared
    exact later n name t after (kept n name t now held)

/-- If every new mailbox gets a name of less than 64 bytes, no two in the list have the same
name, and `findMbox` finds what `mpi_createMbox` made until it is destroyed. -/
theorem names_unique (events : List Event) (short : ∀ e ∈ events, Event.Short e) :
    let s := (after step .boot events).mpi
    (∃ boxes, Path s.next s.mboxList boxes ∧ (boxes.map fun b => (s.mbox b).name).Nodup) ∧
    ∀ before e later t name, events = before ++ e :: later → e.Creates (after step .boot before) t name →
      (∀ e' ∈ later, ¬e'.dooms name t) →
      ∃ b, s.findMbox name = some b ∧ s.serial b = (after step .boot before).mpi.created := by
  have start : Named boot.mpi [] fun _ => [] := ⟨⟨rep_empty,ledger_empty⟩,nofun⟩
  refine ⟨?_,?_⟩
  · obtain ⟨boxes,queue,named,-⟩ := run_named start short
    exact ⟨boxes,named.sound.rep.boxes_path,named.sound.rep.boxes_nodup.map_on named.unique⟩
  rintro before e later t name rfl creates spared
  obtain ⟨first,rest⟩ := forall_mem_append.mp short
  obtain ⟨now,rest⟩ := forall_mem_cons.mp rest
  obtain ⟨_,_,named,-⟩ := run_named start first
  obtain ⟨_,_,named,-,made⟩ := step_named named now
  obtain ⟨_,_,named,kept⟩ := run_named named rest
  rw [after_append,after_cons]
  exact named.find (kept _ _ _ spared (made t name creates))

theorem names_unique_fallAsleep :
    let s := (after step .boot fallAsleep).mpi
    ∃ b, s.findMbox [97] = some b ∧ s.serial b = 0 :=
  (names_unique fallAsleep (by simp [fallAsleep,Event.Short,nameSize])).2 [] _ _ 1 [97] rfl ⟨twoBlocks,rfl,rfl,rfl⟩
    (by simp [Event.dooms])

/-- A name of 64 bytes is never found: it makes two mailboxes with the same stored name. -/
theorem long_name_twice :
    let long : Name := replicate 64 97
    let s := (after step .boot [.enter 1 (.createMbox long twoBlocks),.enter 1 (.createMbox long twoBlocks)]).mpi
    Path s.next s.mboxList [1,0] ∧ (s.mbox 0).name = (s.mbox 1).name ∧ s.findMbox long = none :=
  ⟨⟨rfl,rfl,rfl⟩,rfl,rfl⟩

end UbixOS.Mpi
