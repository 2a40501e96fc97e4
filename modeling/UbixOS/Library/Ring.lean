import Mathlib

/-! Intrusive circular lists: every node carries its own two links, and a list is
known by the node it starts at. -/
namespace UbixOS.Library

open Function

structure Links (α : Type) where
  next : α → Option α
  prev : α → Option α

namespace Links

variable {α : Type}

def Joined (L : Links α) (a b : α) : Prop := L.next a = some b ∧ L.prev b = some a

/-- The nodes met from the head round to the head again. -/
structure Ring (L : Links α) (head : Option α) (nodes : List α) : Prop where
  first : nodes.head? = head
  nodup : nodes.Nodup
  closed : Cycle.Chain L.Joined (nodes : Cycle α)

lemma closed_iff {R : α → α → Prop} {nodes : List α} : Cycle.Chain R (nodes : Cycle α) ↔
    nodes.IsChain R ∧ ∀ e ∈ nodes.getLast?, ∀ a ∈ nodes.head?, R e a := by
  cases nodes with
  | nil => simp
  | cons a nodes =>
    rw [Cycle.chain_coe_cons,← List.cons_append,List.isChain_append]
    simp

/-- A path keeps its joints when links change only outside of it. -/
lemma chain_congr {L K : Links α} {path : List α} (next : ∀ a ∈ path.dropLast, K.next a = L.next a)
    (prev : ∀ a ∈ path.tail, K.prev a = L.prev a) (chain : path.IsChain L.Joined) : path.IsChain K.Joined := by
  induction path with
  | nil => exact .nil
  | cons a path ih =>
    cases path with
    | nil => exact .singleton a
    | cons b path =>
      rw [List.isChain_cons_cons] at chain ⊢
      refine ⟨⟨?_,?_⟩,ih (fun c member => next c ?_) (fun c member => prev c ?_) chain.2⟩
      · rw [next a (by simp),chain.1.1]
      · rw [prev b (by simp),chain.1.2]
      · rw [List.dropLast_cons_of_ne_nil (by simp)]
        exact List.mem_cons_of_mem a member
      · exact List.mem_of_mem_tail member

lemma Ring.empty (L : Links α) : L.Ring none [] := ⟨rfl,.nil,.nil _⟩

lemma Ring.congr {L K : Links α} {head : Option α} (ring : L.Ring head nodes)
    (next : ∀ a ∈ nodes, K.next a = L.next a) (prev : ∀ a ∈ nodes, K.prev a = L.prev a) : K.Ring head nodes := by
  refine ⟨ring.first,ring.nodup,?_⟩
  have closed := ring.closed
  cases nodes with
  | nil => exact .nil _
  | cons a nodes =>
    rw [Cycle.chain_coe_cons] at closed ⊢
    refine chain_congr (fun b member => next b ?_) (fun b member => prev b ?_) closed
    · rwa [← List.cons_append,List.dropLast_concat] at member
    · simpa [or_comm] using member

lemma Ring.head_mem {L : Links α} (ring : L.Ring (some a) nodes) : a ∈ nodes :=
  List.mem_of_head? ring.first

lemma Ring.nil_of_none {L : Links α} (ring : L.Ring none nodes) : nodes = [] :=
  List.head?_eq_none_iff.mp ring.first

lemma Ring.around {L : Links α}
    (ring : L.Ring head (before ++ t :: after)) : (t :: (after ++ before ++ [t])).IsChain L.Joined := by
  have rotated : (before ++ t :: after) ~r (t :: (after ++ before)) := by
    rw [← List.cons_append]
    exact List.isRotated_append
  have closed := ring.closed
  rw [Cycle.coe_eq_coe.mpr rotated,Cycle.chain_coe_cons] at closed
  exact closed

lemma Ring.last {L : Links α} (ring : L.Ring (some a) nodes) :
    ∃ front e, nodes = front ++ [e] ∧ L.prev a = some e := by
  obtain ⟨front,e,rfl⟩ := List.eq_nil_or_concat nodes |>.resolve_left (List.ne_nil_of_mem ring.head_mem)
  rw [List.concat_eq_append] at *
  have closed := ring.around
  refine ⟨front,e,rfl,?_⟩
  have first := ring.first
  cases front with
  | nil =>
    obtain rfl : e = a := by simpa using first
    exact closed.rel.2
  | cons b rest =>
    obtain rfl : b = a := by simpa using first
    exact closed.rel.2

/-- What the links of one node of a ring say about the others. -/
lemma Ring.neighbours {L : Links α} (ring : L.Ring head (before ++ t :: after)) :
    (after ++ before = [] ∧ L.next t = some t) ∨
    ∃ p n, (after ++ before).getLast? = some p ∧ (after ++ before).head? = some n ∧
      L.prev t = some p ∧ L.next t = some n ∧ n ≠ t := by
  have path := ring.around
  generalize shape : after ++ before = others at path ⊢
  cases others with
  | nil => exact .inl ⟨rfl,path.rel.1⟩
  | cons n rest =>
    right
    obtain ⟨joined,path⟩ : L.Joined t n ∧ ((n :: rest) ++ [t]).IsChain L.Joined := List.isChain_cons_cons.mp path
    obtain ⟨front,p,last⟩ := List.eq_nil_or_concat (n :: rest) |>.resolve_left (by simp)
    rw [List.concat_eq_append] at last
    have final : (n :: rest).getLast? = some p := by rw [last,List.getLast?_concat]
    refine ⟨p,n,final,rfl,?_,joined.1,?_⟩
    · exact ((List.isChain_append.mp path).2.2 p final t rfl).2
    rintro rfl
    have member : n ∈ after ++ before := by simp [shape]
    have := ring.nodup
    grind

lemma Ring.next_mem {L : Links α} (ring : L.Ring head nodes)
    (member : t ∈ nodes) (link : L.next t = some n) : n ∈ nodes := by
  obtain ⟨before,after,rfl⟩ := List.append_of_mem member
  rcases ring.neighbours with ⟨-,next⟩ | ⟨-,m,-,first,-,next,-⟩
  · obtain rfl : t = n := by simpa [next] using link
    exact member
  obtain rfl : m = n := by simpa [next] using link
  have := List.mem_of_head? first
  grind

section Update
variable [DecidableEq α]

def append (L : Links α) (head : Option α) (t : α) : Links α :=
  match head with
  | none => ⟨update L.next t (some t),update L.prev t (some t)⟩
  | some a => match L.prev a with
    | none => L
    | some e => ⟨update (update L.next t (some a)) e (some t),
        update (update L.prev t (some e)) a (some t)⟩

/-- Links the neighbours of `t` to each other and clears its own links. -/
def unlink (L : Links α) (t : α) : Links α :=
  if L.next t = some t then ⟨update L.next t none,update L.prev t none⟩
  else match L.prev t, L.next t with
    | some p, some n => ⟨update (update L.next p (some n)) t none,
        update (update L.prev n (some p)) t none⟩
    | _, _ => ⟨update L.next t none,update L.prev t none⟩

def unlinkHead (L : Links α) (head : Option α) (t : α) : Option α :=
  if L.next t = some t then none else if head = some t then L.next t else head

lemma append_elsewhere {L : Links α} (ring : L.Ring head nodes) (t : α) (apart : a ∉ nodes) (other : a ≠ t) :
    (L.append head t).next a = L.next a ∧ (L.append head t).prev a = L.prev a := by
  cases head with
  | none => simp [append,other]
  | some h =>
    obtain ⟨front,e,rfl,last⟩ := ring.last
    have notLast : a ≠ e := by
      rintro rfl
      simp at apart
    have notHead : a ≠ h := by
      rintro rfl
      exact apart ring.head_mem
    simp [append,last,other,notLast,notHead]

lemma Ring.append {L : Links α} {head : Option α} (ring : L.Ring head nodes)
    (fresh : t ∉ nodes) : (L.append head t).Ring (some (head.getD t)) (nodes ++ [t]) := by
  cases head with
  | none =>
    obtain rfl := ring.nil_of_none
    refine ⟨rfl,List.nodup_singleton t,?_⟩
    rw [List.nil_append,Cycle.chain_singleton]
    simp [Links.append,Joined]
  | some h =>
    obtain ⟨front,e,rfl,last⟩ := ring.last
    have nodup := ring.nodup
    refine ⟨?_,?_,?_⟩
    · rw [List.head?_append,ring.first]
      rfl
    · exact List.nodup_append.mpr ⟨nodup,List.nodup_singleton t,by grind⟩
    obtain ⟨path,-⟩ := closed_iff.mp ring.closed
    have apart : t ≠ e := by
      rintro rfl
      simp at fresh
    have notHead : t ≠ h := by
      rintro rfl
      exact fresh ring.head_mem
    rw [closed_iff]
    refine ⟨List.isChain_append.mpr ⟨chain_congr ?_ ?_ path,.singleton t,?_⟩,?_⟩
    · intro a member
      rw [List.dropLast_concat] at member
      have notLast : a ≠ e := by
        rintro rfl
        exact (List.disjoint_of_nodup_append nodup) member (by simp)
      have notNew : a ≠ t := by
        rintro rfl
        exact fresh (List.mem_append_left _ member)
      simp [Links.append,last,notLast,notNew]
    · intro a member
      have notNew : a ≠ t := by
        rintro rfl
        exact fresh (List.mem_of_mem_tail member)
      have notFirst : a ≠ h := by
        rintro rfl
        obtain ⟨rest,shape⟩ := List.head?_eq_some_iff.mp ring.first
        rw [shape] at member nodup
        exact (List.nodup_cons.mp nodup).1 member
      simp [Links.append,last,notNew,notFirst]
    · simp [Links.append,last,Joined,notHead]
    · intro x final a start
      rw [List.getLast?_concat,Option.mem_some_iff] at final
      rw [List.head?_append,ring.first,Option.some_or,Option.mem_some_iff] at start
      subst final start
      simp [Links.append,last,Joined,apart]

lemma Ring.unlink_closed {L : Links α} {head : Option α} (ring : L.Ring head (before ++ t :: after)) :
    Cycle.Chain (L.unlink t).Joined ((before ++ after : List α) : Cycle α) := by
  rw [Cycle.coe_eq_coe.mpr (List.isRotated_append : (before ++ after) ~r (after ++ before)),closed_iff]
  rcases ring.neighbours with ⟨none,-⟩ | ⟨p,n,last,first,prev,next,apart⟩
  · simp [none]
  have path := ring.around
  have nodup : (after ++ before).Nodup := by
    have := ring.nodup
    grind
  have absent : t ∉ after ++ before := by
    have := ring.nodup
    grind
  generalize after ++ before = others at path last first nodup absent ⊢
  have inside : others.IsChain L.Joined := (List.isChain_append.mp (List.isChain_cons.mp path).2).1
  have links : L.unlink t = ⟨update (update L.next p (some n)) t none,
      update (update L.prev n (some p)) t none⟩ := by
    simp [unlink,next,prev,apart]
  rw [links]
  refine ⟨chain_congr ?_ ?_ inside,?_⟩
  · intro a member
    have notLast : a ≠ p := by
      rintro rfl
      obtain ⟨front,rfl⟩ := List.getLast?_eq_some_iff.mp last
      rw [List.dropLast_concat] at member
      exact List.disjoint_of_nodup_append nodup member (by simp)
    have notSelf : a ≠ t := by
      rintro rfl
      exact absent (List.dropLast_subset _ member)
    simp [notLast,notSelf]
  · intro a member
    have notFirst : a ≠ n := by
      rintro rfl
      obtain ⟨rest,rfl⟩ := List.head?_eq_some_iff.mp first
      exact (List.nodup_cons.mp nodup).1 member
    have notSelf : a ≠ t := by
      rintro rfl
      exact absent (List.mem_of_mem_tail member)
    simp [notFirst,notSelf]
  · intro e final a start
    rw [last,Option.mem_some_iff] at final
    rw [first,Option.mem_some_iff] at start
    subst final start
    have notSelf : p ≠ t := by
      rintro rfl
      exact absent (List.mem_of_getLast? last)
    simp [Joined,notSelf,apart]

lemma Ring.unlink {L : Links α} (ring : L.Ring head nodes)
    (member : t ∈ nodes) : (L.unlink t).Ring (L.unlinkHead head t) (nodes.erase t) := by
  obtain ⟨before,after,rfl⟩ := List.append_of_mem member
  have nodup := ring.nodup
  have absent : t ∉ before := by grind
  have left : (before ++ t :: after).erase t = before ++ after := by
    rw [List.erase_append_right _ absent,List.erase_cons_head]
  have first := ring.first
  rw [left]
  refine ⟨?_,by grind,ring.unlink_closed⟩
  rcases ring.neighbours with ⟨none,next⟩ | ⟨p,n,-,start,-,next,apart⟩
  · obtain ⟨rfl,rfl⟩ := List.append_eq_nil_iff.mp none
    simp [unlinkHead,next]
  rw [unlinkHead,next,if_neg (by simpa using apart)]
  cases before with
  | nil =>
    rw [← first,if_pos (by simp)]
    simpa using start
  | cons a before =>
    rw [← first,if_neg (by rintro equal; simp_all)]
    rfl

lemma unlink_elsewhere {L : Links α} (ring : L.Ring head nodes) (member : t ∈ nodes) (apart : a ∉ nodes) :
    (L.unlink t).next a = L.next a ∧ (L.unlink t).prev a = L.prev a := by
  obtain ⟨before,after,rfl⟩ := List.append_of_mem member
  have other : a ≠ t := by grind
  rcases ring.neighbours with ⟨-,next⟩ | ⟨p,n,last,first,prev,next,different⟩
  · simp [unlink,next,other]
  have notLast : a ≠ p := by
    grind
  have notFirst : a ≠ n := by
    have := List.mem_of_head? first
    grind
  simp [unlink,next,prev,different,other,notLast,notFirst]

end Update

end Links

end UbixOS.Library
