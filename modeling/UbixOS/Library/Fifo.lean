import Mathlib

/-! A queue in a circular array that never fills its last cell: the producer's index is `head`,
the consumer's is `tail`, and equal indices mean an empty queue. -/
namespace UbixOS.Library

open List

structure Fifo (α : Type) where
  head : Nat
  tail : Nat
  cell : Nat → α

namespace Fifo

variable {α : Type} (cap : Nat)

def next (i : Nat) : Nat := (i+1) % cap

def push (q : Fifo α) (a : α) : Fifo α :=
  if next cap q.head = q.tail then q
  else {q with head := next cap q.head, cell := Function.update q.cell q.head a}

def drain : Nat → Fifo α → List α × Fifo α
  | 0, q => ([],q)
  | n+1, q => if q.tail = q.head then ([],q) else
    let r := drain n {q with tail := next cap q.tail}
    (q.cell q.tail :: r.1,r.2)

/-- The cell that stands `i` places after `tail`. -/
def wrap (tail i : Nat) : Nat := if tail+i < cap then tail+i else tail+i-cap

def count (q : Fifo α) : Nat := if q.tail ≤ q.head then q.head-q.tail else q.head+cap-q.tail

def contents (q : Fifo α) : List α := (range (q.count cap)).map fun i => q.cell (wrap cap q.tail i)

structure Inside (q : Fifo α) : Prop where
  head : q.head < cap
  tail : q.tail < cap

variable {cap} {q : Fifo α}

lemma next_eq (below : i < cap) : next cap i = if i+1 < cap then i+1 else 0 := by
  unfold next
  split_ifs with small
  · exact Nat.mod_eq_of_lt small
  · rw [show i+1 = cap by omega,Nat.mod_self]

lemma contents_empty (empty : q.head = q.tail) : q.contents cap = [] := by
  simp [contents,count,empty]

lemma push_inside (inside : q.Inside cap) (a : α) : (q.push cap a).Inside cap := by
  unfold push
  split_ifs with full
  · exact inside
  · exact ⟨Nat.mod_lt _ (Nat.zero_lt_of_lt inside.head),inside.tail⟩

lemma push_contents (inside : q.Inside cap) (a : α) : (q.push cap a).contents cap =
    if next cap q.head = q.tail then q.contents cap else q.contents cap ++ [a] := by
  unfold push
  split_ifs with full
  · rfl
  obtain ⟨head,tail⟩ := inside
  have step := next_eq head
  have more : count cap {q with head := next cap q.head, cell := Function.update q.cell q.head a} =
      q.count cap+1 := by
    rw [step] at full ⊢
    simp only [count]
    split_ifs at full ⊢ <;> omega
  simp only [contents,more,range_succ,map_append,map_cons,map_nil]
  congr 1
  · apply map_congr_left
    intro i member
    have small := mem_range.mp member
    apply Function.update_of_ne
    simp only [count] at small
    unfold wrap
    split_ifs at small ⊢ <;> omega
  · have last : wrap cap q.tail (q.count cap) = q.head := by
      unfold wrap count
      split_ifs <;> omega
    simp [last]

lemma pop_contents (inside : q.Inside cap) (filled : q.tail ≠ q.head) :
    q.contents cap = q.cell q.tail :: contents cap {q with tail := next cap q.tail} := by
  obtain ⟨head,tail⟩ := inside
  have step := next_eq tail
  have fewer : q.count cap = count cap {q with tail := next cap q.tail}+1 := by
    rw [step]
    simp only [count]
    split_ifs <;> omega
  simp only [contents,fewer,range_succ_eq_map,map_cons,map_map]
  congr 1
  · simp [wrap,tail]
  apply map_congr_left
  intro i member
  have small := mem_range.mp member
  refine congrArg q.cell ?_
  rw [step] at small ⊢
  simp only [count,wrap,Nat.succ_eq_add_one] at small ⊢
  split_ifs at small ⊢ <;> omega

lemma drain_contents (n : Nat) (inside : q.Inside cap) : (drain cap n q).1 ++ (drain cap n q).2.contents cap =
    q.contents cap ∧ (drain cap n q).2.Inside cap := by
  induction n generalizing q with
  | zero => exact ⟨rfl,inside⟩
  | succ n ih =>
    unfold drain
    split_ifs with empty
    · exact ⟨rfl,inside⟩
    obtain ⟨same,within⟩ := ih (q := {q with tail := next cap q.tail})
      ⟨inside.head,Nat.mod_lt _ (Nat.zero_lt_of_lt inside.head)⟩
    refine ⟨?_,within⟩
    rw [pop_contents inside empty,← same]
    rfl

end Fifo

end UbixOS.Library
