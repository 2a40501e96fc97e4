import Mathlib

/-! Hash chains: singly linked lists that share one `next` field, one list per bucket,
with the walks C code makes over them. The fuel of a walk bounds its length. -/
namespace UbixOS.Library

open Function List

structure Chains (κ ν : Type) where
  head : κ → Option ν
  next : ν → Option ν

namespace Chains

variable {κ ν : Type}

def empty : Chains κ ν := ⟨fun _ => none,fun _ => none⟩

/-- The first node from `start` on that `found` accepts. -/
def search (c : Chains κ ν) (found : ν → Bool) : Nat → Option ν → Option ν
  | 0, _ => none
  | _+1, none => none
  | n+1, some x => if found x then some x else c.search found n (c.next x)

variable [DecidableEq κ] [DecidableEq ν]

def push (c : Chains κ ν) (k : κ) (x : ν) : Chains κ ν :=
  ⟨update c.head k (some x),update c.next x (c.head k)⟩

/-- Unlinks `x` from behind `cur` or a later node. -/
def unlinkAfter (c : Chains κ ν) (x : ν) : Nat → ν → Chains κ ν
  | 0, _ => c
  | n+1, cur =>
    match c.next cur with
    | none => c
    | some y => if y = x then { c with next := update c.next cur (c.next x) } else c.unlinkAfter x n y

def unlink (c : Chains κ ν) (fuel : Nat) (k : κ) (x : ν) : Chains κ ν :=
  match c.head k with
  | none => c
  | some y => if y = x then { c with head := update c.head k (c.next x) } else c.unlinkAfter x fuel y

end Chains

/-- The nodes met on the way from `start`, up to the end. -/
def Path {ν : Type} (next : ν → Option ν) : Option ν → List ν → Prop
  | start, [] => start = none
  | start, x :: xs => start = some x ∧ Path next (next x) xs

lemma Path.congr {next next' : ν → Option ν} (path : Path next start xs) (same : ∀ x ∈ xs, next' x = next x) :
    Path next' start xs := by
  induction xs generalizing start with
  | nil => exact path
  | cons x xs ih =>
    refine ⟨path.1,?_⟩
    rw [same x mem_cons_self]
    exact ih path.2 fun y member => same y (.tail x member)

lemma Path.unique {next : ν → Option ν} (first : Path next start xs) (second : Path next start ys) : xs = ys := by
  induction xs generalizing start ys with
  | nil =>
    cases first
    cases ys with
    | nil => rfl
    | cons y ys => exact absurd second.1 nofun
  | cons x xs ih =>
    obtain ⟨rfl,first⟩ := first
    cases ys with
    | nil => exact absurd second nofun
    | cons y ys =>
      obtain ⟨same,second⟩ := second
      cases same
      rw [ih first second]

namespace Chains

variable {κ ν : Type}

lemma search_eq (c : Chains κ ν) (found : ν → Bool)
    (path : Path c.next start xs) (enough : xs.length ≤ fuel) : c.search found fuel start = xs.find? found := by
  induction xs generalizing fuel start with
  | nil =>
    cases path
    cases fuel <;> rfl
  | cons x xs ih =>
    obtain ⟨rfl,path⟩ := path
    cases fuel with
    | zero => cases enough
    | succ fuel =>
      rw [search,find?_cons]
      cases found x with
      | true => rfl
      | false => exact ih path (Nat.le_of_succ_le_succ enough)

/-- One bucket gives the node with that value of a field which tells its nodes apart. -/
lemma search_iff [BEq α] [LawfulBEq α] (c : Chains κ ν) (field : ν → α) (path : Path c.next start xs)
    (enough : xs.length ≤ n)
    (unique : ∀ x ∈ xs, ∀ y ∈ xs, field x = field y → x = y) :
    c.search (fun x => field x == v) n start = some x ↔ x ∈ xs ∧ field x = v := by
  rw [c.search_eq _ path enough]
  constructor
  · intro here
    have found := find?_some here
    exact ⟨mem_of_find?_eq_some here,eq_of_beq found⟩
  rintro ⟨member,rfl⟩
  cases result : xs.find? fun y => field y == field x with
  | none =>
    have missing := find?_eq_none.mp result x member
    exact absurd (beq_self_eq_true _) missing
  | some y =>
    have found := find?_some result
    rw [unique y (mem_of_find?_eq_some result) x member (eq_of_beq found)]

/-- The buckets hold the lists `nodes`, and no node is linked twice. -/
structure Linked (c : Chains κ ν) (nodes : κ → List ν) : Prop where
  path : ∀ k, Path c.next (c.head k) (nodes k)
  nodup : ∀ k, (nodes k).Nodup
  apart : ∀ k j x, x ∈ nodes k → x ∈ nodes j → k = j

lemma linked_empty : Linked (empty : Chains κ ν) fun _ => [] := ⟨fun _ => rfl,fun _ => nodup_nil,nofun⟩

variable [DecidableEq κ] [DecidableEq ν] {c : Chains κ ν} {nodes : κ → List ν} (linked : c.Linked nodes)
include linked

lemma Linked.push (k : κ) (fresh : ∀ j, x ∉ nodes j) : (c.push k x).Linked (update nodes k (x :: nodes k)) := by
  have kept (j : κ) : Path (c.push k x).next (c.head j) (nodes j) := by
    refine (linked.path j).congr fun y member => ?_
    have other : y ≠ x := fun same => fresh j (same ▸ member)
    simp [Chains.push,other]
  refine ⟨fun j => ?_,fun j => ?_,fun i j y first second => ?_⟩
  · by_cases here : j = k
    · subst here
      rw [update_self]
      refine ⟨by simp [Chains.push],?_⟩
      simpa [Chains.push] using kept j
    · rw [update_of_ne here]
      simpa [Chains.push,here] using kept j
  · by_cases here : j = k
    · subst here
      rw [update_self]
      exact nodup_cons.mpr ⟨fresh j,linked.nodup j⟩
    · rw [update_of_ne here]
      exact linked.nodup j
  have old {i : κ} (member : y ∈ update nodes k (x :: nodes k) i) : y = x ∧ i = k ∨ y ∈ nodes i := by
    by_cases here : i = k
    · subst here
      rw [update_self] at member
      rcases mem_cons.mp member with rfl | member
      · exact .inl ⟨rfl,rfl⟩
      · exact .inr member
    · rw [update_of_ne here] at member
      exact .inr member
  rcases old first with ⟨new,here⟩ | first <;> rcases old second with ⟨new',here'⟩ | second
  · rw [here,here']
  · exact absurd (new ▸ second) (fresh j)
  · exact absurd (new' ▸ first) (fresh i)
  · exact linked.apart i j y first second

omit linked in
lemma unlinkAfter_spec (path : Path c.next (c.next cur) ys)
    (nodup : (cur :: ys).Nodup) (member : x ∈ ys) (enough : ys.length ≤ fuel) :
    (c.unlinkAfter x fuel cur).head = c.head ∧
      Path (c.unlinkAfter x fuel cur).next ((c.unlinkAfter x fuel cur).next cur) (ys.erase x) ∧
      ∀ y, y ∉ cur :: ys → (c.unlinkAfter x fuel cur).next y = c.next y := by
  induction ys generalizing fuel cur with
  | nil => cases member
  | cons y ys ih =>
    obtain ⟨here,path⟩ := path
    obtain ⟨first,nodup⟩ := nodup_cons.mp nodup
    cases fuel with
    | zero => cases enough
    | succ fuel =>
      rw [unlinkAfter,here]
      by_cases same : y = x
      · subst same
        simp only [if_true,update_self,erase_cons_head]
        refine ⟨trivial,path.congr fun z inside => ?_,fun z outside => ?_⟩
        · have other : z ≠ cur := fun equal => first (equal ▸ .tail y inside)
          rw [update_of_ne other]
        · have other : z ≠ cur := fun equal => outside (equal ▸ mem_cons_self)
          rw [update_of_ne other]
      dsimp only
      rw [if_neg same,erase_cons_tail (by simpa using same)]
      have later : x ∈ ys := by
        rcases mem_cons.mp member with equal | later
        · exact absurd equal.symm same
        · exact later
      obtain ⟨head,rest,outside⟩ := ih path nodup later (Nat.le_of_succ_le_succ enough)
      refine ⟨head,⟨?_,rest⟩,fun z away => outside z fun inside => away (.tail cur inside)⟩
      rw [outside cur first,here]

lemma Linked.unlink (member : x ∈ nodes k) (enough : (nodes k).length ≤ fuel) :
    (c.unlink fuel k x).Linked (update nodes k ((nodes k).erase x)) := by
  have path := linked.path k
  have nodup := linked.nodup k
  have fewer (j : κ) (y : ν) (inside : y ∈ update nodes k ((nodes k).erase x) j) : y ∈ nodes j := by
    by_cases here : j = k
    · subst here
      rw [update_self] at inside
      exact mem_of_mem_erase inside
    · rwa [update_of_ne here] at inside
  refine ⟨fun j => ?_,fun j => ?_,fun i j y first second => linked.apart i j y (fewer i y first) (fewer j y second)⟩
  · cases list : nodes k with
    | nil =>
      rw [list] at member
      cases member
    | cons first rest =>
      rw [list] at path nodup enough member
      obtain ⟨start,path⟩ := path
      rw [Chains.unlink,start]
      by_cases same : first = x
      · subst same
        simp only [if_true]
        by_cases here : j = k
        · subst here
          simpa using path
        · rw [update_of_ne here,update_of_ne here]
          exact linked.path j
      have later : x ∈ rest := by
        rcases mem_cons.mp member with equal | later
        · exact absurd equal.symm same
        · exact later
      obtain ⟨head,kept,outside⟩ := unlinkAfter_spec path nodup later (Nat.le_of_succ_le enough)
      simp only [if_neg same,head]
      by_cases here : j = k
      · subst here
        rw [update_self,erase_cons_tail (by simpa using same)]
        exact ⟨start,kept⟩
      · rw [update_of_ne here]
        refine (linked.path j).congr fun y inside => outside y fun inside' => here ?_
        exact linked.apart j k y inside (list ▸ inside')
  · by_cases here : j = k
    · subst here
      rw [update_self]
      exact nodup.erase x
    · rw [update_of_ne here]
      exact linked.nodup j

end Chains

end UbixOS.Library
