import Mathlib

/-! Half-open ranges of addresses, counted: a list of ranges is a family of disjoint
ranges exactly when it covers no address twice. -/
namespace UbixOS.Library

structure Span where
  base : Nat
  len : Nat
  deriving DecidableEq, Repr

namespace Span

def Has (s : Span) (a : Nat) : Prop := s.base ≤ a ∧ a < s.base + s.len

instance (s : Span) (a : Nat) : Decidable (s.Has a) := inferInstanceAs (Decidable (_ ∧ _))

def count (s : Span) (a : Nat) : Nat := if s.base ≤ a ∧ a < s.base + s.len then 1 else 0

def Apart (s t : Span) : Prop := ∀ a, s.Has a → ¬ t.Has a

lemma count_has {s : Span} (has : s.Has a) : s.count a = 1 := if_pos has

lemma count_le_one (s : Span) (a : Nat) : s.count a ≤ 1 := by
  rw [count]
  split <;> omega

lemma has_of_count {s : Span} (some : 0 < s.count a) : s.Has a := by
  rw [count] at some
  split at some
  · assumption
  · cases some

lemma count_join (base m n a : Nat) : count ⟨base,m + n⟩ a = count ⟨base,m⟩ a + count ⟨base + m,n⟩ a := by
  simp only [count]
  split <;> split <;> split <;> omega

lemma count_mono (base : Nat) (shorter : m ≤ n) (a : Nat) : count ⟨base,m⟩ a ≤ count ⟨base,n⟩ a := by
  simp only [count]
  split <;> split <;> omega

end Span

def cover (spans : List Span) (a : Nat) : Nat := (spans.map (·.count a)).sum

@[simp] lemma cover_nil (a : Nat) : cover [] a = 0 := rfl

@[simp] lemma cover_cons (s : Span) (spans : List Span) (a : Nat) :
    cover (s :: spans) a = s.count a + cover spans a := rfl

@[simp] lemma cover_append (first second : List Span) (a : Nat) :
    cover (first ++ second) a = cover first a + cover second a := by
  simp [cover,List.sum_append]

lemma count_le_cover (member : s ∈ spans) (a : Nat) : s.count a ≤ cover spans a := by
  induction member with
  | head => simp
  | tail _ _ ih =>
    rw [cover_cons]
    omega

lemma has_of_cover (some : 0 < cover spans a) : ∃ s ∈ spans, s.Has a := by
  induction spans with
  | nil => cases some
  | cons s spans ih =>
    rw [cover_cons] at some
    by_cases here : 0 < s.count a
    · exact ⟨s,List.mem_cons_self,Span.has_of_count here⟩
    · obtain ⟨t,member,has⟩ := ih (by omega)
      exact ⟨t,.tail s member,has⟩

end UbixOS.Library
