import UbixOS.Library.Chain

/-! Doubly linked lists with a head and a tail, whose nodes are shared with other
structures: a node knows its neighbours, and is unlinked through them. -/
namespace UbixOS.Library

open Function List

structure Deque (ν : Type) where
  head : Option ν
  tail : Option ν
  prev : ν → Option ν
  next : ν → Option ν

variable {ν : Type} [DecidableEq ν]

/-- Redirects the link of a neighbour, if there is one. -/
def relink (link : ν → Option ν) (neighbour target : Option ν) : ν → Option ν :=
  match neighbour with
  | some y => update link y target
  | none => link

namespace Deque

def push (d : Deque ν) (x : ν) : Deque ν where
  head := match d.tail with
    | some _ => d.head
    | none => some x
  tail := some x
  prev := update d.prev x d.tail
  next := relink (update d.next x none) d.tail (some x)

def remove (d : Deque ν) (x : ν) : Deque ν where
  head := match d.prev x with
    | some _ => d.head
    | none => d.next x
  tail := match d.next x with
    | some _ => d.tail
    | none => d.prev x
  prev := update (relink d.prev (d.next x) (d.prev x)) x none
  next := update (relink d.next (d.prev x) (d.next x)) x none

/-- The nodes from head to tail, read both ways. -/
structure Holds (d : Deque ν) (xs : List ν) : Prop where
  forth : Path d.next d.head xs
  back : Path d.prev d.tail xs.reverse
  nodup : xs.Nodup

end Deque

section

variable {next : ν → Option ν} {p target : Option ν} {xs ys rest : List ν} {x : ν}

omit [DecidableEq ν] in
lemma Path.start (path : Path next p xs) : p = xs.head? := by
  cases xs with
  | nil => exact path
  | cons x xs => exact path.1

omit [DecidableEq ν] in
lemma Path.suffix (path : Path next p (xs ++ x :: ys)) : Path next (next x) ys := by
  induction xs generalizing p with
  | nil => exact path.2
  | cons y xs ih => exact ih path.2

/-- Behind the nodes `xs`, the path is led on to `target`. -/
lemma Path.splice (path : Path next p (xs ++ rest)) (nodup : xs.Nodup) (tail : Path next target ys)
    (apart : ∀ y ∈ ys, y ∉ xs) :
    Path (relink next xs.getLast? target) (xs.head?.or target) (xs ++ ys) := by
  induction xs generalizing p with
  | nil => exact tail
  | cons a xs ih =>
    obtain ⟨fresh,nodup⟩ := nodup_cons.mp nodup
    refine ⟨rfl,?_⟩
    cases xs with
    | nil =>
      rw [getLast?_singleton,relink,update_self]
      refine tail.congr fun y inside => ?_
      have notA : y ≠ a := fun same => apart y inside (mem_singleton.mpr same)
      rw [update_of_ne notA]
    | cons b xs =>
      have later := ih path.2 nodup fun y inside here => apart y inside (.tail a here)
      obtain ⟨last,inside,isLast⟩ : ∃ last ∈ b :: xs, (b :: xs).getLast? = some last :=
        ⟨_,getLast_mem (cons_ne_nil b xs),getLast?_eq_getLast_of_ne_nil (cons_ne_nil b xs)⟩
      have notLast : a ≠ last := fun same => fresh (same ▸ inside)
      rw [isLast] at later
      rw [getLast?_cons_cons,isLast,relink,update_of_ne notLast,path.2.1]
      exact later

lemma Path.skip (path : Path next p (xs ++ x :: ys)) (nodup : (xs ++ x :: ys).Nodup) :
    Path (update (relink next xs.getLast? (next x)) x none) (xs.head?.or (next x)) (xs ++ ys) := by
  obtain ⟨first,second,apart⟩ := nodup_append.mp nodup
  have spliced := path.splice first path.suffix fun y inside here => apart y here y (.tail x inside) rfl
  refine spliced.congr fun y inside => update_of_ne (fun same => ?_) ..
  exact (nodup_cons.mp (nodup_middle.mp nodup)).1 (same ▸ inside)

lemma Path.snoc (path : Path next p xs) (nodup : xs.Nodup) (fresh : x ∉ xs) :
    Path (relink (update next x none) xs.getLast? (some x)) (xs.head?.or (some x)) (xs ++ [x]) := by
  have kept : Path (update next x none) p (xs ++ []) := by
    rw [append_nil]
    exact path.congr fun y inside => update_of_ne (fun same : y = x => fresh (same ▸ inside)) ..
  refine kept.splice nodup ⟨rfl,update_self ..⟩ fun y inside => ?_
  rwa [mem_singleton.mp inside]

end

namespace Deque

variable {d : Deque ν} {xs : List ν} {x : ν}

omit [DecidableEq ν] in
lemma holds_nil (prev next : ν → Option ν) : Holds ⟨none,none,prev,next⟩ [] := ⟨rfl,rfl,nodup_nil⟩

omit [DecidableEq ν] in
lemma Holds.congr {prev next : ν → Option ν} (holds : d.Holds xs) (sameNext : ∀ x ∈ xs, next x = d.next x)
    (samePrev : ∀ x ∈ xs, prev x = d.prev x) : Holds ⟨d.head,d.tail,prev,next⟩ xs :=
  ⟨holds.forth.congr sameNext,holds.back.congr fun x member => samePrev x (mem_reverse.mp member),holds.nodup⟩

lemma Holds.push (holds : d.Holds xs) (fresh : x ∉ xs) : (d.push x).Holds (xs ++ [x]) := by
  have tail : d.tail = xs.getLast? := by rw [holds.back.start,head?_reverse]
  have head : d.head = xs.head? := holds.forth.start
  refine ⟨?_,?_,nodup_append.mpr ⟨holds.nodup,nodup_singleton x,fun y inside z last => ?_⟩⟩
  · have path := holds.forth.snoc holds.nodup fresh
    have start : (d.push x).head = xs.head?.or (some x) := by
      rw [Deque.push,tail,head]
      cases xs with
      | nil => rfl
      | cons a xs => rw [getLast?_eq_getLast_of_ne_nil (cons_ne_nil a xs)]; rfl
    rw [start,Deque.push,tail]
    exact path
  · rw [reverse_append]
    refine ⟨rfl,?_⟩
    change Path (update d.prev x d.tail) (update d.prev x d.tail x) xs.reverse
    rw [update_self]
    refine holds.back.congr fun y inside => update_of_ne ?_ ..
    exact fun same => fresh (same ▸ mem_reverse.mp inside)
  · rw [mem_singleton.mp last]
    exact fun same => fresh (same ▸ inside)

lemma Holds.remove (holds : d.Holds xs) (member : x ∈ xs) : (d.remove x).Holds (xs.erase x) := by
  obtain ⟨as,bs,split⟩ := append_of_mem member
  subst split
  have notBefore : x ∉ as := fun inside =>
    (nodup_append.mp holds.nodup).2.2 x inside x mem_cons_self rfl
  have reversed : (as ++ x :: bs).reverse = bs.reverse ++ x :: as.reverse := by simp
  have back := holds.back
  have nodup := nodup_reverse.mpr holds.nodup
  rw [reversed] at back nodup
  have next : d.next x = bs.head? := holds.forth.suffix.start
  have prev : d.prev x = as.getLast? := by rw [back.suffix.start,head?_reverse]
  have head : d.head = (as ++ x :: bs).head? := holds.forth.start
  have tail : d.tail = (bs.reverse ++ x :: as.reverse).head? := back.start
  rw [erase_append_right _ notBefore,erase_cons_head]
  refine ⟨?_,?_,(nodup_middle.mp holds.nodup).of_cons⟩
  · have path := holds.forth.skip holds.nodup
    have start : (d.remove x).head = as.head?.or (d.next x) := by
      rw [Deque.remove,prev,head]
      cases as with
      | nil => rfl
      | cons a as => rw [getLast?_eq_getLast_of_ne_nil (cons_ne_nil a as)]; rfl
    rw [start,Deque.remove,prev]
    exact path
  · have path := back.skip nodup
    have start : (d.remove x).tail = bs.reverse.head?.or (d.prev x) := by
      rw [Deque.remove,next,tail]
      cases bs with
      | nil => rfl
      | cons b bs => simp
    rw [reverse_append,start,Deque.remove,next,← getLast?_reverse]
    exact path

end Deque

end UbixOS.Library
