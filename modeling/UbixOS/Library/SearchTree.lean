import Mathlib

/-! Binary search trees up to rebalancing: rotations keep the order of the nodes, so what
a descent finds and where it puts a new node are functions of that order. -/
namespace UbixOS.Library

open List

inductive SearchTree (α : Type) where
  | leaf
  | node (left : SearchTree α) (here : α) (right : SearchTree α)

namespace SearchTree

variable {α : Type}

def toList : SearchTree α → List α
  | leaf => []
  | node left x right => left.toList ++ x :: right.toList

/-- Descends to the left of a node that lies behind the key (`gt`), to the right of one
before it. -/
def find (side : α → Ordering) : SearchTree α → Option α
  | leaf => none
  | node left x right =>
    match side x with
    | .gt => left.find side
    | .lt => right.find side
    | .eq => some x

/-- A new leaf, to the right of the nodes it is not less than. -/
def insert (less : α → Bool) (x : α) : SearchTree α → SearchTree α
  | leaf => node leaf x leaf
  | node left y right => if less y then node (left.insert less x) y right else node left y (right.insert less x)

/-- The same on the order of the nodes. -/
def place (less : α → Bool) (x : α) : List α → List α
  | [] => [x]
  | y :: ys => if less y then x :: y :: ys else y :: place less x ys

/-- A search by sides finds the node the key is in, if all behind a node that is not
before the key are behind the key. -/
lemma find_eq (side : α → Ordering) (t : SearchTree α)
    (sorted : t.toList.Pairwise fun x y => side x ≠ .lt → side y = .gt) :
    t.find side = t.toList.find? fun x => side x == .eq := by
  induction t with
  | leaf => rfl
  | node left x right ihl ihr =>
    obtain ⟨sortedLeft,sortedRight,across⟩ := pairwise_append.mp sorted
    obtain ⟨behind,sortedRight⟩ := pairwise_cons.mp sortedRight
    have before (notGt : side x ≠ .gt) : left.toList.find? (fun y => side y == .eq) = none := by
      rw [find?_eq_none]
      intro y inside same
      refine notGt (across y inside x mem_cons_self ?_)
      rw [eq_of_beq same]
      exact nofun
    rw [find,toList,find?_append,find?_cons]
    cases here : side x with
    | lt =>
      rw [before (by rw [here]; exact nofun)]
      exact ihr sortedRight
    | eq =>
      rw [before (by rw [here]; exact nofun)]
      rfl
    | gt =>
      have none : right.toList.find? (fun y => side y == .eq) = none := by
        rw [find?_eq_none]
        intro y inside same
        have gt := behind y inside (by rw [here]; exact nofun)
        rw [eq_of_beq same] at gt
        cases gt
      rw [ihl sortedLeft,show (Ordering.gt == Ordering.eq) = false from rfl,none,Option.or_none]

section
variable (less : α → Bool) (x : α)

lemma place_append (all : ∀ y ∈ xs, less y = false) (ys : List α) :
    place less x (xs ++ ys) = xs ++ place less x ys := by
  induction xs with
  | nil => rfl
  | cons y xs ih =>
    rw [cons_append,place,if_neg (by simp [all y mem_cons_self]),
      ih fun z inside => all z (.tail y inside)]
    rfl

lemma place_cons_of_less (here : less y = true) (xs ys : List α) :
    place less x (xs ++ y :: ys) = place less x xs ++ y :: ys := by
  induction xs with
  | nil => simp [place,here]
  | cons z xs ih =>
    rw [cons_append,place,place]
    split
    · rfl
    · rw [ih]
      rfl

/-- In every tree of sorted nodes the descent puts the new node at the same place. -/
lemma toList_insert (t : SearchTree α)
    (sorted : t.toList.Pairwise fun y z => less y → less z) : (t.insert less x).toList = place less x t.toList := by
  induction t with
  | leaf => rfl
  | node left y right ihl ihr =>
    obtain ⟨sortedLeft,sortedRight,across⟩ := pairwise_append.mp sorted
    obtain ⟨behind,sortedRight⟩ := pairwise_cons.mp sortedRight
    rw [insert,toList]
    split
    next here => rw [toList,ihl sortedLeft,place_cons_of_less less x here]
    rename_i here
    have all (z : α) (inside : z ∈ left.toList) : less z = false := by
      rw [Bool.eq_false_iff]
      exact fun small => here (across z inside y mem_cons_self small)
    rw [toList,ihr sortedRight,place_append less x all,place,if_neg here]

lemma place_perm (xs : List α) : (place less x xs).Perm (x :: xs) := by
  induction xs with
  | nil => exact .refl _
  | cons y xs ih =>
    rw [place]
    split
    · exact .refl _
    · exact (ih.cons y).trans (.swap x y xs)

end

end SearchTree

end UbixOS.Library
