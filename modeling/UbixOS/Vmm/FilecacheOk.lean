import UbixOS.Vmm.Filecache
import UbixOS.Library.Deque

/-! The file-page cache keeps its tables together: the same entries are in both hash tables,
one for a file page and one for a frame, and those without a mapping are on the LRU list. -/
namespace UbixOS.Vmm.Filecache

open Library Function List Filecache

def inact (c : Filecache) : Deque Nat := ⟨c.inactHead,c.inactTail,c.inactPrev,c.inactNext⟩

lemma inactPush_inact (c : Filecache) (e : Nat) : (c.inactPush e).inact = c.inact.push e := by
  simp only [inact,inactPush,Deque.push,relink]
  cases c.inactTail <;> rfl

lemma inactRemove_inact (c : Filecache) (e : Nat) : (c.inactRemove e).inact = c.inact.remove e := by
  simp only [inact,inactRemove,Deque.remove,relink]
  cases c.inactPrev e <;> cases c.inactNext e <;> rfl

/-- The frame the tables give for a file page. -/
def page (c : Filecache) (key : PageKey) : Option UInt32 := (c.findKey key).map fun e => (c.entry e).phys

def pushed (c : Filecache) (key : PageKey) (phys : UInt32) : Filecache := { c.setEntry c.fresh ⟨key,phys,1⟩ with
  fresh := c.fresh + 1
  keyChains := c.keyChains.push (keyHash key) c.fresh
  physChains := c.physChains.push (physHash phys) c.fresh
  count := c.count + 1 }

/-- `linked` are the entries in the tables, newest first, `idle` those that no mapping uses. -/
structure Ok (c : Filecache) (linked idle : List Nat) : Prop where
  keys : c.keyChains.Linked fun b => linked.filter fun e => keyHash (c.entry e).key = b
  phys : c.physChains.Linked fun b => linked.filter fun e => physHash (c.entry e).phys = b
  nodup : linked.Nodup
  old : ∀ e ∈ linked, e < c.fresh
  keyInj : ∀ e ∈ linked, ∀ e' ∈ linked, (c.entry e).key = (c.entry e').key → e = e'
  physInj : ∀ e ∈ linked, ∀ e' ∈ linked, (c.entry e).phys = (c.entry e').phys → e = e'
  inact : c.inact.Holds idle
  unused : ∀ e, e ∈ idle ↔ e ∈ linked ∧ (c.entry e).refcnt = 0

section

variable {c : Filecache} (ok : c.Ok linked idle)
include ok

lemma Ok.length_le : linked.length ≤ c.fresh := by
  have inside : linked ⊆ range c.fresh := fun e member => mem_range.mpr (ok.old e member)
  have shorter := (ok.nodup.subperm inside).length_le
  rwa [length_range] at shorter

lemma Ok.short (part : Nat → Bool) : (linked.filter part).length ≤ c.fresh :=
  Nat.le_trans (length_filter_le _ _) ok.length_le

lemma Ok.findKey (e : Nat) : c.findKey key = some e ↔ e ∈ linked ∧ (c.entry e).key = key := by
  refine (c.keyChains.search_iff (fun e => (c.entry e).key) (ok.keys.path _) (ok.short _) ?_).trans ?_
  · exact fun x here y there => ok.keyInj x (mem_filter.mp here).1 y (mem_filter.mp there).1
  · grind

lemma Ok.findPhys {phys : UInt32} (e : Nat) : c.findPhys phys = some e ↔ e ∈ linked ∧ (c.entry e).phys = phys := by
  refine (c.physChains.search_iff (fun e => (c.entry e).phys) (ok.phys.path _) (ok.short _) ?_).trans ?_
  · exact fun x here y there => ok.physInj x (mem_filter.mp here).1 y (mem_filter.mp there).1
  · grind

lemma Ok.page {key : PageKey} {phys : UInt32} :
    c.page key = some phys ↔ ∃ e ∈ linked, (c.entry e).key = key ∧ (c.entry e).phys = phys := by
  rw [Filecache.page,Option.map_eq_some_iff]
  constructor
  · rintro ⟨e,found,frame⟩
    obtain ⟨member,here⟩ := (ok.findKey e).mp found
    exact ⟨e,member,here,frame⟩
  · rintro ⟨e,member,here,frame⟩
    exact ⟨e,(ok.findKey e).mpr ⟨member,here⟩,frame⟩

lemma Ok.count {c' : Filecache} {idle' : List Nat} {e : Nat} (member : e ∈ linked) (refcnt : UInt32)
    (entry : c'.entry = update c.entry e { c.entry e with refcnt })
    (keys : c'.keyChains = c.keyChains) (phys : c'.physChains = c.physChains) (fresh : c'.fresh = c.fresh)
    (inact : c'.inact.Holds idle') (others : ∀ x, x ≠ e → (x ∈ idle' ↔ x ∈ idle)) (here : e ∈ idle' ↔ refcnt = 0) :
    c'.Ok linked idle' ∧ c'.page = c.page := by
  have fields (x : Nat) : (c'.entry x).key = (c.entry x).key ∧ (c'.entry x).phys = (c.entry x).phys := by
    rw [entry]
    by_cases same : x = e
    · rw [same,update_self]
      exact ⟨rfl,rfl⟩
    · rw [update_of_ne same]
      exact ⟨rfl,rfl⟩
  have ok' : c'.Ok linked idle' := by
    constructor
    · simp only [keys,fields]
      exact ok.keys
    · simp only [phys,fields]
      exact ok.phys
    · exact ok.nodup
    · rw [fresh]
      exact ok.old
    · simp only [fields]
      exact ok.keyInj
    · simp only [fields]
      exact ok.physInj
    · exact inact
    intro x
    rw [entry]
    by_cases same : x = e
    · subst same
      rw [update_self,here]
      exact ⟨fun zero => ⟨member,zero⟩,And.right⟩
    · rw [update_of_ne same,others x same,ok.unused]
  refine ⟨ok',funext fun place => Option.ext fun found => ?_⟩
  simp only [ok'.page,ok.page,fields]

lemma Ok.ref {e : Nat} (member : e ∈ linked) (room : (c.entry e).refcnt + 1 ≠ 0) :
    (c.ref e).Ok linked (idle.erase e) ∧ (c.ref e).page = c.page := by
  have others (x : Nat) (other : x ≠ e) : x ∈ idle.erase e ↔ x ∈ idle := mem_erase_of_ne other
  have here : e ∈ idle.erase e ↔ (c.entry e).refcnt + 1 = 0 := iff_of_false ok.inact.nodup.not_mem_erase room
  by_cases zero : (c.entry e).refcnt = 0
  · have shape : c.ref e = (c.inactRemove e).setEntry e { c.entry e with refcnt := (c.entry e).refcnt + 1 } := by
      rw [Filecache.ref,if_pos zero]
      rfl
    rw [shape]
    refine ok.count member ((c.entry e).refcnt + 1) rfl rfl rfl rfl ?_ others here
    change (c.inactRemove e).inact.Holds _
    rw [inactRemove_inact]
    exact ok.inact.remove ((ok.unused e).mpr ⟨member,zero⟩)
  · have shape : c.ref e = c.setEntry e { c.entry e with refcnt := (c.entry e).refcnt + 1 } := by
      rw [Filecache.ref,if_neg zero]
    have still : idle.erase e = idle := erase_of_not_mem fun inside => zero ((ok.unused e).mp inside).2
    rw [shape]
    refine ok.count member ((c.entry e).refcnt + 1) rfl rfl rfl rfl ?_ others here
    rw [still]
    exact ok.inact

/-- One reference less; the last one puts the entry at the end of the inactive list. -/
lemma Ok.unref {e : Nat} {phys : UInt32} (found : c.findPhys phys = some e) (used : (c.entry e).refcnt ≠ 0) :
    (c.unrefPhys phys).Ok linked (if (c.entry e).refcnt - 1 = 0 then idle ++ [e] else idle) ∧
    (c.unrefPhys phys).page = c.page := by
  have member := ((ok.findPhys e).mp found).1
  have notIdle : e ∉ idle := fun inside => used ((ok.unused e).mp inside).2
  have entry : (c.setEntry e { c.entry e with refcnt := (c.entry e).refcnt - 1 }).entry e =
      { c.entry e with refcnt := (c.entry e).refcnt - 1 } := update_self ..
  simp only [unrefPhys,found,if_neg used,entry]
  by_cases zero : (c.entry e).refcnt - 1 = 0
  · rw [if_pos zero,if_pos zero]
    refine ok.count member ((c.entry e).refcnt - 1) rfl rfl rfl rfl ?_ (fun x other => by simp [other]) (by simp [zero])
    rw [inactPush_inact]
    exact Deque.Holds.push ok.inact notIdle
  · rw [if_neg zero,if_neg zero]
    exact ok.count member ((c.entry e).refcnt - 1) rfl rfl rfl rfl ok.inact (fun _ _ => .rfl)
      (iff_of_false notIdle zero)

lemma Ok.unrefPhys (phys : UInt32) :
    ∃ idle', (c.unrefPhys phys).Ok linked idle' ∧ (c.unrefPhys phys).page = c.page := by
  cases found : c.findPhys phys with
  | none =>
    simp only [Filecache.unrefPhys,found]
    exact ⟨idle,ok,trivial⟩
  | some e =>
    by_cases unused : (c.entry e).refcnt = 0
    · simp only [Filecache.unrefPhys,found,if_pos unused]
      exact ⟨idle,ok,trivial⟩
    · exact ⟨_,ok.unref found unused⟩

omit ok in
lemma insert_new (new : c.findKey key = none) (phys : UInt32) :
    c.insert key phys true = (.inserted,c.pushed key phys) := by
  rw [insert,new]
  rfl

lemma Ok.fresh : c.fresh ∉ linked := fun member => Nat.lt_irrefl _ (ok.old _ member)

lemma Ok.entry (new : FilecacheEntry) (e : Nat) (member : e ∈ linked) : update c.entry c.fresh new e = c.entry e :=
  update_of_ne (fun same : e = c.fresh => ok.fresh (same ▸ member)) ..

lemma Ok.push {key : PageKey} {phys : UInt32} (newKey : ∀ e ∈ linked, (c.entry e).key ≠ key)
    (newPhys : ∀ e ∈ linked, (c.entry e).phys ≠ phys) : (c.pushed key phys).Ok (c.fresh :: linked) idle := by
  have fresh := ok.fresh
  have entry := ok.entry ⟨key,phys,1⟩
  have buckets (hash : FilecacheEntry → Nat) :
      (fun b => (c.fresh :: linked).filter fun e => hash (update c.entry c.fresh ⟨key,phys,1⟩ e) = b) =
      update (fun b => linked.filter fun e => hash (c.entry e) = b) (hash ⟨key,phys,1⟩)
        (c.fresh :: linked.filter fun e => hash (c.entry e) = hash ⟨key,phys,1⟩) := by
    funext b
    have rest : (linked.filter fun e => hash (update c.entry c.fresh ⟨key,phys,1⟩ e) = b) =
        linked.filter fun e => hash (c.entry e) = b := by
      apply filter_congr
      intro e member
      rw [entry e member]
    rw [filter_cons,update_self,rest]
    by_cases here : b = hash ⟨key,phys,1⟩
    · subst here
      simp
    · rw [update_of_ne here,if_neg (by simpa using Ne.symm here)]
  have apart (p : Nat → Nat → Bool) (b : Nat) : c.fresh ∉ linked.filter (p b) :=
    fun member => fresh (mem_filter.mp member).1
  have apart' {α : Type} (field : FilecacheEntry → α)
      (old : ∀ e ∈ linked, ∀ e' ∈ linked, field (c.entry e) = field (c.entry e') → e = e')
      (new : ∀ e ∈ linked, field (c.entry e) ≠ field ⟨key,phys,1⟩) : ∀ e ∈ c.fresh :: linked, ∀ e' ∈ c.fresh :: linked,
        field (update c.entry c.fresh ⟨key,phys,1⟩ e) = field (update c.entry c.fresh ⟨key,phys,1⟩ e') → e = e' := by
    intro e member e' member' same
    rcases mem_cons.mp member with rfl | member <;> rcases mem_cons.mp member' with rfl | member'
    · rfl
    · rw [update_self,entry e' member'] at same
      exact absurd same.symm (new e' member')
    · rw [update_self,entry e member] at same
      exact absurd same (new e member)
    · rw [entry e member,entry e' member'] at same
      exact old e member e' member' same
  constructor
  · have pushed := ok.keys.push (keyHash key) (apart fun b e => keyHash (c.entry e).key = b)
    rw [← buckets fun entry => keyHash entry.key] at pushed
    exact pushed
  · have pushed := ok.phys.push (physHash phys) (apart fun b e => physHash (c.entry e).phys = b)
    rw [← buckets fun entry => physHash entry.phys] at pushed
    exact pushed
  · exact nodup_cons.mpr ⟨fresh,ok.nodup⟩
  · intro e member
    rcases mem_cons.mp member with rfl | member
    · exact Nat.lt_succ_self _
    · exact Nat.lt_succ_of_lt (ok.old e member)
  · exact apart' FilecacheEntry.key ok.keyInj newKey
  · exact apart' FilecacheEntry.phys ok.physInj newPhys
  · exact ok.inact
  intro e
  change _ ↔ _ ∧ (update c.entry c.fresh _ e).refcnt = 0
  rw [ok.unused,mem_cons]
  by_cases new : e = c.fresh
  · subst new
    rw [update_self]
    exact ⟨fun here => absurd here.1 fresh,fun here => absurd here.2 (by decide : (1 : UInt32) ≠ 0)⟩
  · rw [update_of_ne new]
    exact ⟨fun here => ⟨.inr here.1,here.2⟩,fun here => ⟨here.1.resolve_left new,here.2⟩⟩

lemma Ok.insert (key : PageKey) {phys : UInt32} (newPhys : ∀ other, c.page other ≠ some phys)
    (room : ∀ e, (c.entry e).refcnt + 1 ≠ 0) (memory : Bool) :
    (∃ linked idle, (c.insert key phys memory).2.Ok linked idle) ∧
      ((c.insert key phys memory).2.page = c.page ∨
        (c.insert key phys memory).2.page = update c.page key (some phys)) := by
  cases found : c.findKey key with
  | some e =>
    rw [Filecache.insert,found]
    obtain ⟨ok',same⟩ := ok.ref ((ok.findKey e).mp found).1 (room e)
    exact ⟨⟨linked,_,ok'⟩,.inl same⟩
  | none =>
    cases memory with
    | false =>
      rw [Filecache.insert,found]
      exact ⟨⟨linked,idle,ok⟩,.inl rfl⟩
    | true =>
      rw [insert_new found]
      have newKey (e : Nat) (member : e ∈ linked) : (c.entry e).key ≠ key := by
        intro here
        rw [(ok.findKey e).mpr ⟨member,here⟩] at found
        cases found
      have ok' := ok.push newKey fun e member here => newPhys (c.entry e).key (ok.page.mpr ⟨e,member,rfl,here⟩)
      refine ⟨⟨_,_,ok'⟩,.inr (funext fun place => Option.ext fun frame => ?_)⟩
      refine ok'.page.trans ?_
      have entry := ok.entry ⟨key,phys,1⟩
      change (∃ e ∈ c.fresh :: linked, (update c.entry c.fresh ⟨key,phys,1⟩ e).key = place ∧
        (update c.entry c.fresh ⟨key,phys,1⟩ e).phys = frame) ↔ _
      rw [exists_mem_cons_iff,update_self]
      by_cases here : place = key
      · subst here
        rw [update_self]
        constructor
        · rintro (⟨_,same⟩ | ⟨e,member,same,_⟩)
          · exact congrArg some same
          · rw [entry e member] at same
            exact absurd same (newKey e member)
        · intro same
          exact .inl ⟨rfl,Option.some.inj same⟩
      · rw [update_of_ne here,ok.page]
        constructor
        · rintro (⟨same,_⟩ | ⟨e,member,facts⟩)
          · exact absurd same.symm here
          · rw [entry e member] at facts
            exact ⟨e,member,facts⟩
        · rintro ⟨e,member,facts⟩
          exact .inr ⟨e,member,entry e member ▸ facts⟩

omit ok in
lemma erase_buckets (nodup : linked.Nodup) (hash : Nat → Nat) (e : Nat) :
    update (fun b => linked.filter fun x => hash x = b) (hash e) ((linked.filter fun x => hash x = hash e).erase e) =
      fun b => (linked.erase e).filter fun x => hash x = b := by
  funext b
  rw [nodup.erase_eq_filter,filter_filter]
  by_cases here : b = hash e
  · subst here
    rw [update_self,(nodup.filter _).erase_eq_filter,filter_filter]
    exact filter_congr fun x _ => Bool.and_comm ..
  rw [update_of_ne here]
  refine filter_congr fun x _ => ?_
  by_cases same : x = e
  · subst same
    simp [Ne.symm here]
  · simp [same]

/-- The entry that goes is the one least recently released. -/
lemma Ok.reclaim_head (done : c.reclaim = some (frame,c')) : ∃ e, idle.head? = some e ∧
    frame = (c.entry e).phys ∧ c'.entry = c.entry ∧ c'.count = c.count - 1 ∧ c'.inactCount = c.inactCount - 1 ∧
      c'.Ok (linked.erase e) (idle.erase e) := by
  rw [reclaim] at done
  cases head : c.inactHead with
  | none =>
    rw [head] at done
    cases done
  | some e =>
    rw [head] at done
    have first : idle.head? = some e := ok.inact.forth.start.symm.trans head
    have inside : e ∈ idle := mem_of_head? first
    have member : e ∈ linked := ((ok.unused e).mp inside).1
    have fewer (x : Nat) (left : x ∈ linked.erase e) : x ∈ linked := mem_of_mem_erase left
    cases done
    refine ⟨e,first,rfl,rfl,rfl,rfl,?_⟩
    constructor
    · have unlinked := ok.keys.unlink (k := keyHash (c.entry e).key) (mem_filter.mpr ⟨member,decide_eq_true rfl⟩)
        (ok.short _)
      rw [erase_buckets ok.nodup fun x => keyHash (c.entry x).key] at unlinked
      exact unlinked
    · have unlinked := ok.phys.unlink (k := physHash (c.entry e).phys) (mem_filter.mpr ⟨member,decide_eq_true rfl⟩)
        (ok.short _)
      rw [erase_buckets ok.nodup fun x => physHash (c.entry x).phys] at unlinked
      exact unlinked
    · exact ok.nodup.erase e
    · exact fun x left => ok.old x (fewer x left)
    · exact fun x left x' left' => ok.keyInj x (fewer x left) x' (fewer x' left')
    · exact fun x left x' left' => ok.physInj x (fewer x left) x' (fewer x' left')
    · change (c.inactRemove e).inact.Holds _
      rw [inactRemove_inact]
      exact ok.inact.remove inside
    · intro x
      rw [ok.inact.nodup.mem_erase_iff,ok.nodup.mem_erase_iff,ok.unused,and_assoc]
      rfl

lemma Ok.reclaim {frame : UInt32} (done : c.reclaim = some (frame,c')) :
    (∃ linked idle, c'.Ok linked idle) ∧ (∀ key phys, c'.page key = some phys → c.page key = some phys) := by
  obtain ⟨e,-,-,entry,-,-,ok'⟩ := ok.reclaim_head done
  refine ⟨⟨_,_,ok'⟩,fun key phys here => ?_⟩
  obtain ⟨x,left,facts⟩ := ok'.page.mp here
  rw [entry] at facts
  exact ok.page.mpr ⟨x,mem_of_mem_erase left,facts⟩

end

def Sound (c : Filecache) : Prop := ∃ linked idle, c.Ok linked idle

/-- No entry is one reference short of overflow. -/
def Room (c : Filecache) : Prop := ∀ e, (c.entry e).refcnt + 1 ≠ 0

section

variable {c : Filecache} (sound : c.Sound)
include sound

lemma Sound.page_apart {phys : UInt32} (missing : c.findPhys phys = none) (key : PageKey) : c.page key ≠ some phys := by
  obtain ⟨linked,idle,ok⟩ := sound
  intro here
  obtain ⟨e,member,_,frame⟩ := ok.page.mp here
  rw [(ok.findPhys e).mpr ⟨member,frame⟩] at missing
  cases missing

omit sound in
lemma lookupRef_eq (c : Filecache) (key : PageKey) : (c.lookupRef key).1 = c.page key := by
  rw [lookupRef,page]
  cases c.findKey key <;> rfl

lemma Sound.lookupRef (room : c.Room) (key : PageKey) :
    (c.lookupRef key).2.Sound ∧ (c.lookupRef key).2.page = c.page := by
  obtain ⟨linked,idle,ok⟩ := sound
  rw [Filecache.lookupRef]
  cases found : c.findKey key with
  | none => exact ⟨⟨linked,idle,ok⟩,rfl⟩
  | some e =>
    obtain ⟨ok',same⟩ := ok.ref ((ok.findKey e).mp found).1 (room e)
    exact ⟨⟨linked,_,ok'⟩,same⟩

lemma Sound.refPhys (room : c.Room) (phys : UInt32) : (c.refPhys phys).Sound ∧ (c.refPhys phys).page = c.page := by
  obtain ⟨linked,idle,ok⟩ := sound
  rw [Filecache.refPhys]
  cases found : c.findPhys phys with
  | none => exact ⟨⟨linked,idle,ok⟩,rfl⟩
  | some e =>
    obtain ⟨ok',same⟩ := ok.ref ((ok.findPhys e).mp found).1 (room e)
    exact ⟨⟨linked,_,ok'⟩,same⟩

lemma Sound.unrefPhys (phys : UInt32) : (c.unrefPhys phys).Sound ∧ (c.unrefPhys phys).page = c.page := by
  obtain ⟨linked,idle,ok⟩ := sound
  obtain ⟨idle',ok',same⟩ := ok.unrefPhys phys
  exact ⟨⟨linked,idle',ok'⟩,same⟩

end

end UbixOS.Vmm.Filecache
