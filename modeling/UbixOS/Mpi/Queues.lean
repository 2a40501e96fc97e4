import UbixOS.Mpi.System

/-! The mailbox list and the message queues in memory, and what each function does to them. -/
namespace UbixOS.Mpi

open Library Function List State

/-- The list holds the mailboxes `boxes`, the newest first, and mailbox `b` the messages
`queue b`. These are all the blocks in use, and no block is used twice. -/
structure Rep (s : State) (boxes : List Addr) (queue : Addr → List Addr) : Prop where
  /-- read from the oldest mailbox, so that `prev` leads on and `next` back -/
  links : Deque.Holds ⟨boxes.getLast?,s.mboxList,s.next,s.prev⟩ boxes.reverse
  path : ∀ b ∈ boxes, Path s.messageNext (s.mbox b).msg (queue b)
  last : ∀ b ∈ boxes, (s.mbox b).msgLast = (queue b).getLast?
  nodup : ∀ b ∈ boxes, (queue b).Nodup
  apart : ∀ b ∈ boxes, ∀ c ∈ boxes, ∀ m ∈ queue b, m ∈ queue c → b = c
  other : ∀ b ∈ boxes, ∀ m ∈ queue b, m ∉ boxes
  heap : ∀ a, a ∈ s.heap ↔ a ∈ boxes ∨ ∃ b ∈ boxes, a ∈ queue b
  fault : s.fault = false

lemma rep_empty : Rep .empty [] fun _ => [] :=
  ⟨Deque.holds_nil _ _,nofun,nofun,nofun,nofun,nofun,fun a => by simp [empty],rfl⟩

lemma length_le_card {xs : List Addr} {heap : Finset Addr} (nodup : xs.Nodup) (inside : ∀ x ∈ xs, x ∈ heap) :
    xs.length ≤ heap.card := by
  rw [← toFinset_card_of_nodup nodup]
  exact Finset.card_le_card fun x member => inside x (mem_toFinset.mp member)

/-- The mailboxes are the same, but for what they hold. -/
structure Lasting (s s' : State) : Prop where
  created : s'.created = s.created
  serial : s'.serial = s.serial
  name : ∀ c, (s'.mbox c).name = (s.mbox c).name
  pid : ∀ c, (s'.mbox c).pid = (s.mbox c).pid

lemma Lasting.refl : Lasting s s := ⟨rfl,rfl,fun _ => rfl,fun _ => rfl⟩

lemma Lasting.trans (first : Lasting s s') (second : Lasting s' s'') : Lasting s s'' :=
  ⟨second.created.trans first.created,second.serial.trans first.serial,fun c => (second.name c).trans (first.name c),
    fun c => (second.pid c).trans (first.pid c)⟩

namespace Rep

variable (rep : Rep s boxes queue)
include rep

lemma boxes_path : Path s.next s.mboxList boxes := by
  have path := rep.links.back
  rwa [reverse_reverse] at path

lemma boxes_nodup : boxes.Nodup := nodup_reverse.mp rep.links.nodup

lemma box_heap (member : b ∈ boxes) : b ∈ s.heap := (rep.heap b).mpr (.inl member)

lemma message_heap (member : b ∈ boxes) (inside : m ∈ queue b) : m ∈ s.heap :=
  (rep.heap m).mpr (.inr ⟨b,member,inside⟩)

lemma boxes_length : boxes.length ≤ s.heap.card := length_le_card rep.boxes_nodup fun _ => rep.box_heap

lemma queue_length (member : b ∈ boxes) : (queue b).length ≤ s.heap.card :=
  length_le_card (rep.nodup b member) fun _ => rep.message_heap member

lemma head (member : b ∈ boxes) : (s.mbox b).msg = (queue b).head? := (rep.path b member).start

lemma findMbox_eq (name : Name) : s.findMbox name = boxes.find? fun a => (s.mbox a).name = name :=
  Chains.search_eq _ _ rep.boxes_path rep.boxes_length

lemma findMbox_mem (found : s.findMbox name = some b) : b ∈ boxes := by
  rw [rep.findMbox_eq] at found
  exact mem_of_find?_eq_some found

lemma link (fresh : a ∉ s.heap) (name : Name) (pid : Tid) :
    Rep (s.link a name pid) (a :: boxes) (update queue a []) := by
  have notBox : a ∉ boxes := fun inside => fresh (rep.box_heap inside)
  have notMessage {c : Addr} (member : c ∈ boxes) : a ∉ queue c := fun inside => fresh (rep.message_heap member inside)
  have ne {c : Addr} (member : c ∈ boxes) : c ≠ a := fun same => notBox (same ▸ member)
  have split {P : Addr → Prop} (new : P a) (old : ∀ c ∈ boxes, P c) : ∀ c ∈ a :: boxes, P c :=
    List.forall_mem_cons.mpr ⟨new,old⟩
  refine ⟨?_,split ?_ fun c member => ?_,split ?_ fun c member => ?_,split ?_ fun c member => ?_,
    split ?_ fun c member => split ?_ fun d member' => ?_,split ?_ fun c member => ?_,fun x => ?_,rep.fault⟩
  · have pushed := rep.links.push (x := a) fun inside => notBox (List.mem_reverse.mp inside)
    have oldest : (a :: boxes).getLast? = (Deque.push ⟨boxes.getLast?,s.mboxList,s.next,s.prev⟩ a).head := by
      rw [Deque.push,rep.boxes_path.start]
      cases boxes <;> simp
    rw [List.reverse_cons,oldest]
    exact pushed
  · simp [State.link,Library.Path]
  · simpa [State.link,ne member] using rep.path c member
  · simp [State.link]
  · simpa [State.link,ne member] using rep.last c member
  · simp
  · simpa [ne member] using rep.nodup c member
  · simp
  · simp
  · simpa [ne member,ne member'] using rep.apart c member d member'
  · simp
  · intro m inside
    rw [update_of_ne (ne member)] at inside
    rintro (_ | ⟨_,member'⟩)
    · exact notMessage member inside
    · exact rep.other c member m inside member'
  · have queues : (∃ c ∈ boxes, x ∈ update queue a [] c) ↔ ∃ c ∈ boxes, x ∈ queue c := by
      refine exists_congr fun c => and_congr_right fun member => ?_
      rw [update_of_ne (ne member)]
    simp [State.link,queues,rep.heap,or_assoc]

section
variable (member : b ∈ boxes)
include member

lemma requeue
    (list : s'.mboxList = s.mboxList ∧ s'.next = s.next ∧ s'.prev = s.prev) (mbox : ∀ c ≠ b, s'.mbox c = s.mbox c)
    (kept : ∀ c ∈ boxes, c ≠ b → ∀ m ∈ queue c, s'.messageNext m = s.messageNext m)
    (path : Path s'.messageNext (s'.mbox b).msg q) (last : (s'.mbox b).msgLast = q.getLast?) (nodup : q.Nodup)
    (fresh : ∀ m ∈ q, m ∈ queue b ∨ m ∉ s.heap) (heap : ∀ a, a ∈ s'.heap ↔ a ∈ q ∨ a ∈ s.heap ∧ a ∉ queue b)
    (fault : s'.fault = false) : Rep s' boxes (update queue b q) := by
  have split {P : Addr → List Addr → Prop} (here : P b q) (there : ∀ c ∈ boxes, c ≠ b → P c (queue c)) :
      ∀ c ∈ boxes, P c (update queue b q c) := by
    intro c inside
    by_cases same : c = b
    · subst same
      rwa [update_self]
    · rw [update_of_ne same]
      exact there c inside same
  -- A message of another mailbox is no message of the new queue.
  have strange {c : Addr} (inside : c ∈ boxes) (ne : c ≠ b) {m : Addr} (new : m ∈ q) (old : m ∈ queue c) : False := by
    rcases fresh m new with here | unused
    · exact ne (rep.apart c inside b member m old here)
    · exact unused (rep.message_heap inside old)
  refine ⟨?_,split path fun c inside ne => ?_,split (P := fun c xs => (s'.mbox c).msgLast =
    xs.getLast?) last fun c inside ne => ?_,
    split nodup fun c inside _ => rep.nodup c inside,
    ?_,split (P := fun _ xs => ∀ m ∈ xs, m ∉ boxes) (fun m new inBoxes => ?_) fun c inside _ => rep.other c inside,
    fun a => ?_,fault⟩
  · rw [list.1,list.2.1,list.2.2]
    exact rep.links
  · rw [mbox c ne]
    exact (rep.path c inside).congr (kept c inside ne)
  · rw [mbox c ne]
    exact rep.last c inside
  · refine split (P := fun c xs => ∀ d ∈ boxes, ∀ m ∈ xs, m ∈ update queue b q d → c = d) ?_ fun c inside ne => ?_
    · exact split (P := fun d xs => ∀ m ∈ q, m ∈ xs → b = d) (fun _ _ _ => rfl)
        fun d inside ne m new old => (strange inside ne new old).elim
    · exact split (P := fun d xs => ∀ m ∈ queue c, m ∈ xs → c = d)
        (fun m old new => (strange inside ne new old).elim) fun d inside' _ => rep.apart c inside d inside'
  · rcases fresh m new with here | unused
    · exact rep.other b member m here inBoxes
    · exact unused (rep.box_heap inBoxes)
  rw [heap,rep.heap]
  constructor
  · rintro (new | ⟨box | ⟨c,inside,old⟩,notHere⟩)
    · exact .inr ⟨b,member,by rwa [update_self]⟩
    · exact .inl box
    · have ne : c ≠ b := fun same => notHere (same ▸ old)
      exact .inr ⟨c,inside,by rwa [update_of_ne ne]⟩
  rintro (box | ⟨c,inside,new⟩)
  · exact .inr ⟨.inl box,fun here => rep.other b member a here box⟩
  by_cases same : c = b
  · subst same
    rw [update_self] at new
    exact .inl new
  · rw [update_of_ne same] at new
    exact .inr ⟨.inr ⟨c,inside,new⟩,fun here => same (rep.apart c inside b member a new here)⟩

lemma append_eq (m : Addr) (message : Message) : s.append b m message = { s with
    heap := insert m s.heap
    seq := s.nextId
    message := update s.message m message
    messageNext := relink (update s.messageNext m none) (queue b).getLast? (some m)
    mbox := update s.mbox b { s.mbox b with msg := (queue b).head?.or (some m), msgLast := some m }
    posted := update s.posted (s.serial b) (s.posted (s.serial b) ++ [message]) } := by
  have head := rep.head member
  have last := rep.last b member
  cases contents : queue b with
  | nil =>
    rw [contents] at head last
    simp only [append,head,head?_nil]
    rfl
  | cons first rest =>
    rw [contents,getLast?_eq_getLast_of_ne_nil (cons_ne_nil first rest)] at last
    rw [contents] at head
    simp only [append,head,last,head?_cons,getLast?_eq_getLast_of_ne_nil (cons_ne_nil first rest)]
    rw [Option.some_or,← head?_cons (a := first) (l := rest),← head]
    rfl

lemma append (fresh : m ∉ s.heap) (message : Message) :
    Rep (s.append b m message) boxes (update queue b (queue b ++ [m])) := by
  have notQueued {c : Addr} (inside : c ∈ boxes) : m ∉ queue c := fun old => fresh (rep.message_heap inside old)
  rw [rep.append_eq member]
  refine rep.requeue member ⟨rfl,rfl,rfl⟩ (fun c ne => update_of_ne ne ..) (fun c inside ne x old => ?_) ?_ ?_ ?_ ?_
    (fun x => ?_) rep.fault
  · have notNew : x ≠ m := fun same => notQueued inside (same ▸ old)
    have untouched : ∀ y ∈ (queue b).getLast?, x ≠ y := by
      rintro y isLast rfl
      exact ne (rep.apart c inside b member x old (mem_of_getLast? isLast))
    cases isLast : (queue b).getLast? with
    | none => exact update_of_ne notNew ..
    | some y =>
      change update (update s.messageNext m none) y (some m) x = _
      rw [update_of_ne (untouched y isLast),update_of_ne notNew]
  · have path := (rep.path b member).snoc (rep.nodup b member) (notQueued member)
    simpa using path
  · simp
  · exact nodup_append.mpr ⟨rep.nodup b member,nodup_singleton m,fun x old y new same =>
      notQueued member (mem_singleton.mp new ▸ same ▸ old)⟩
  · intro x inside
    rcases mem_append.mp inside with old | new
    · exact .inl old
    · rw [mem_singleton.mp new]
      exact .inr fresh
  · have held (here : x ∈ queue b) : x ∈ s.heap := rep.message_heap member here
    simp only [Finset.mem_insert,mem_append,mem_singleton]
    tauto

lemma append_lasting (m : Addr) (message : Message) : Lasting s (s.append b m message) := by
  rw [rep.append_eq member]
  refine ⟨rfl,rfl,fun c => ?_,fun c => ?_⟩ <;> by_cases same : c = b <;> simp [same]

lemma takeFirst_eq (contents : queue b = m :: rest) (current : Tid) : s.takeFirst b m current = { s with
      mbox := update s.mbox b { s.mbox b with msg := rest.head?, msgLast := rest.getLast? }
      fetched := update s.fetched (s.serial b) (s.fetched (s.serial b) ++ [(current,s.message m)])
      heap := s.heap.erase m } := by
  have path := rep.path b member
  have last := rep.last b member
  have held : m ∈ s.heap := rep.message_heap member (contents ▸ mem_cons_self)
  rw [contents] at path last
  have next : s.messageNext m = rest.head? := path.2.start
  have tail : (if rest.head? = none then none else (s.mbox b).msgLast) = rest.getLast? := by
    rw [last]
    cases rest <;> simp
  simp only [takeFirst,kfree,if_pos held,next,tail]

lemma takeFirst (contents : queue b = m :: rest) (current : Tid) :
    Rep (s.takeFirst b m current) boxes (update queue b rest) := by
  have nodup := rep.nodup b member
  have path := rep.path b member
  rw [contents] at nodup path
  obtain ⟨notLater,nodup⟩ := nodup_cons.mp nodup
  rw [rep.takeFirst_eq member contents]
  refine rep.requeue member ⟨rfl,rfl,rfl⟩ (fun c ne => update_of_ne ne ..) (fun _ _ _ _ _ => rfl) ?_ ?_ nodup ?_
    (fun x => ?_) rep.fault
  · have rest' := path.2
    rw [rest'.start] at rest'
    simpa using rest'
  · simp
  · exact fun x inside => .inl (contents ▸ .tail m inside)
  have held (here : x ∈ m :: rest) : x ∈ s.heap := rep.message_heap member (contents ▸ here)
  have other (here : x ∈ rest) : x ≠ m := fun same => notLater (same ▸ here)
  rw [contents,mem_cons] at *
  simp only [Finset.mem_erase]
  tauto

lemma takeFirst_lasting (contents : queue b = m :: rest) (current : Tid) : Lasting s (s.takeFirst b m current) := by
  rw [rep.takeFirst_eq member contents]
  refine ⟨rfl,rfl,fun c => ?_,fun c => ?_⟩ <;> by_cases same : c = b <;> simp [same]

end

omit rep in
lemma freeMessages_eq (path : Path s.messageNext start q)
    (nodup : q.Nodup) (held : ∀ m ∈ q, m ∈ s.heap) (enough : q.length ≤ fuel) :
    freeMessages n fuel start s = { s with
      heap := s.heap \ q.toFinset
      released := update s.released n (s.released n ++ q.map s.message) } := by
  induction q generalizing fuel start s with
  | nil =>
    cases path
    cases fuel <;> simp [freeMessages]
  | cons m q ih =>
    obtain ⟨rfl,path⟩ := path
    obtain ⟨notLater,nodup⟩ := nodup_cons.mp nodup
    cases fuel with
    | zero => cases enough
    | succ fuel =>
      have here : m ∈ s.heap := held m mem_cons_self
      simp only [freeMessages,kfree,if_pos here]
      have left (x : Addr) (inside : x ∈ q) : x ∈ s.heap.erase m :=
        Finset.mem_erase.mpr ⟨fun same => notLater (same ▸ inside),held x (.tail m inside)⟩
      have heap : s.heap.erase m \ q.toFinset = s.heap \ (m :: q).toFinset := by
        ext x
        simp only [Finset.mem_sdiff,Finset.mem_erase,mem_toFinset,mem_cons]
        tauto
      refine (ih (s := { s with
        heap := s.heap.erase m, released := update s.released n (s.released n ++ [s.message m]) })
        path nodup left (Nat.le_of_succ_le_succ enough)).trans ?_
      simp [heap]

lemma destroy_eq (member : b ∈ boxes) : s.destroy b = { s.unlink b with
    heap := (s.heap \ (queue b).toFinset).erase b
    released := update s.released (s.serial b) (s.released (s.serial b) ++ (queue b).map s.message) } := by
  have freed := freeMessages_eq (s := s.unlink b) (n := s.serial b) (rep.path b member) (rep.nodup b member)
    (fun m inside => rep.message_heap member inside) (rep.queue_length member)
  have left : b ∈ s.heap \ (queue b).toFinset := by
    rw [Finset.mem_sdiff,mem_toFinset]
    exact ⟨rep.box_heap member,fun inside => rep.other b member b inside member⟩
  rw [destroy,freed]
  exact if_pos left

lemma unlink_links (member : b ∈ boxes) : Deque.Holds ⟨(boxes.erase b).getLast?,(s.unlink b).mboxList,(s.unlink b).next,
    (s.unlink b).prev⟩ (boxes.erase b).reverse := by
  have removed := rep.links.remove (mem_reverse.mpr member)
  have order : boxes.reverse.erase b = (boxes.erase b).reverse := by
    rw [rep.links.nodup.erase_eq_filter,rep.boxes_nodup.erase_eq_filter,filter_reverse]
  rw [order] at removed
  have oldest := removed.forth.start
  rw [head?_reverse] at oldest
  have ne {c : Addr} (inside : c ∈ (boxes.erase b).reverse) : c ≠ b :=
    (rep.boxes_nodup.mem_erase_iff.mp (mem_reverse.mp inside)).1
  have newest : (Deque.remove ⟨boxes.getLast?,s.mboxList,s.next,s.prev⟩ b).tail = (s.unlink b).mboxList := by
    simp only [Deque.remove,unlink]
    cases s.prev b <;> rfl
  rw [← oldest,← newest]
  exact removed.congr (fun c inside => (update_of_ne (ne inside) ..).symm)
    fun c inside => (update_of_ne (ne inside) ..).symm

lemma destroy (member : b ∈ boxes) : Rep (s.destroy b) (boxes.erase b) queue := by
  have still {c : Addr} : c ∈ boxes.erase b ↔ c ≠ b ∧ c ∈ boxes := rep.boxes_nodup.mem_erase_iff
  have old {c : Addr} (inside : c ∈ boxes.erase b) : c ∈ boxes := (still.mp inside).2
  rw [rep.destroy_eq member]
  refine ⟨rep.unlink_links member,fun c inside => rep.path c (old inside),fun c inside => rep.last c (old inside),
    fun c inside => rep.nodup c (old inside),fun c inside d inside' => rep.apart c (old inside) d (old inside'),
    fun c inside m here there => rep.other c (old inside) m here (old there),fun a => ?_,rep.fault⟩
  rw [Finset.mem_erase,Finset.mem_sdiff,mem_toFinset,rep.heap,still]
  constructor
  · rintro ⟨ne,box | ⟨c,inside,here⟩,notHere⟩
    · exact .inl ⟨ne,box⟩
    · exact .inr ⟨c,still.mpr ⟨fun same => notHere (same ▸ here),inside⟩,here⟩
  rintro (⟨ne,box⟩ | ⟨c,inside,here⟩)
  · exact ⟨ne,.inl box,fun here => rep.other b member a here box⟩
  obtain ⟨ne,inside⟩ := still.mp inside
  refine ⟨fun same => rep.other c inside a here (same ▸ member),.inr ⟨c,inside,here⟩,fun here' => ?_⟩
  exact ne (rep.apart c inside b member a here here')

omit rep in
lemma createMbox_cases (current : Tid) (name : Name) (alloc : Allocator) : s.createMbox current name alloc = (-1,s) ∨
    s.findMbox name = none ∧ ∃ a ∉ s.heap, s.createMbox current name alloc = (0,s.link a name current) := by
  unfold createMbox
  split
  · exact .inl rfl
  next absent =>
    split
    · exact .inl rfl
    next a picked => exact .inr ⟨absent,a,alloc.fresh _ a picked,rfl⟩

omit rep in
lemma spamOne_cases (current : Tid) (type : UInt32) (data : Bytes MESSAGE_LENGTH) (alloc : Allocator) (b : Addr) :
    s.spamOne current type data alloc b = s ∨
      ∃ m ∉ s.heap, ∃ message, s.spamOne current type data alloc b = s.append b m message := by
  unfold spamOne
  split
  · exact .inl rfl
  next m picked => exact .inr ⟨m,alloc.fresh _ m picked,_,rfl⟩

lemma postMessage_cases (current : Tid) (name : Name) (msg : Message) (alloc : Allocator) :
    s.postMessage current name msg alloc = (none,s) ∨ ∃ b ∈ boxes, ∃ m ∉ s.heap, ∃ message,
      s.postMessage current name msg alloc = (some b,s.append b m message) := by
  unfold postMessage
  split
  · exact .inl rfl
  next b found =>
    split
    · exact .inl rfl
    next m picked => exact .inr ⟨b,rep.findMbox_mem found,m,alloc.fresh _ m picked,_,rfl⟩

lemma fetchMessage_cases (current : Tid) (name : Name) : s.fetchMessage current name = (none,s) ∨
    ∃ b ∈ boxes, ∃ m rest, queue b = m :: rest ∧ (s.mbox b).pid = current ∧
      s.fetchMessage current name = (some (s.message m),s.takeFirst b m current) := by
  unfold fetchMessage
  split
  · exact .inl rfl
  next b found =>
    have member := rep.findMbox_mem found
    split
    · exact .inl rfl
    next m first =>
      split
      · exact .inl rfl
      next owner =>
        rw [rep.head member] at first
        obtain ⟨rest,contents⟩ := head?_eq_some_iff.mp first
        exact .inr ⟨b,member,m,rest,contents,not_not.mp owner,rfl⟩

lemma destroyMbox_cases (current : Tid) (name : Name) : (s.destroyMbox current name).2 = s ∨
    ∃ b ∈ boxes, s.findMbox name = some b ∧ (s.mbox b).pid = current ∧
      (s.destroyMbox current name).2 = s.destroy b := by
  unfold destroyMbox
  split
  · exact .inl rfl
  next b found =>
    split
    · exact .inl rfl
    next owner => exact .inr ⟨b,rep.findMbox_mem found,found,not_not.mp owner,rfl⟩

end Rep

end UbixOS.Mpi
