import Mathlib

/-! How many of finitely many holders refer to an object. -/
namespace UbixOS.Library

open Function Finset

variable {κ ρ : Type} [DecidableEq κ] [DecidableEq ρ]

def holders (keys : Finset κ) (link : κ → Option ρ) (r : ρ) : Nat := (keys.filter fun k => link k = some r).card

variable {keys : Finset κ} {link : κ → Option ρ} {k : κ} {r : ρ}

omit [DecidableEq κ] in
lemma holders_pos : 0 < holders keys link r ↔ ∃ k ∈ keys, link k = some r := by
  rw [holders,card_pos]
  exact ⟨fun ⟨k,inside⟩ => ⟨k,mem_filter.mp inside⟩,fun ⟨k,inside⟩ => ⟨k,mem_filter.mpr inside⟩⟩

/-- All holders but one, and that one. -/
lemma holders_split (member : k ∈ keys) : holders keys link r =
    holders (keys.erase k) link r + if link k = some r then 1 else 0 := by
  rw [holders,holders,filter_erase]
  split
  next here =>
    have inside : k ∈ keys.filter fun k => link k = some r := mem_filter.mpr ⟨member,here⟩
    exact (card_erase_add_one inside).symm
  next away =>
    have outside : k ∉ keys.filter fun k => link k = some r := fun inside => away (mem_filter.mp inside).2
    rw [erase_eq_of_notMem outside,Nat.add_zero]

omit [DecidableEq κ] in
lemma holders_congr (same : ∀ k ∈ keys, link' k = link k) : holders keys link' r = holders keys link r := by
  rw [holders,holders,filter_congr fun k member => by rw [same k member]]

/-- One holder lets go of what it held and takes another. -/
lemma holders_update (member : k ∈ keys) (x : Option ρ) (r : ρ) : (holders keys (update link k x) r : Int) =
      holders keys link r + (if x = some r then 1 else 0) - if link k = some r then 1 else 0 := by
  have others : holders (keys.erase k) (update link k x) r = holders (keys.erase k) link r :=
    holders_congr fun j inside => update_of_ne (ne_of_mem_erase inside) ..
  have before : holders keys link r = _ := holders_split member
  have after : holders keys (update link k x) r = _ := holders_split member
  rw [after,before,others,update_self]
  split <;> split <;> push_cast <;> omega

omit [DecidableEq κ] in
lemma holders_grow (more : keys ⊆ keys') (empty : ∀ k ∈ keys', k ∉ keys → link k = none) (r : ρ) :
    holders keys' link r = holders keys link r := by
  have same : (keys'.filter fun k => link k = some r) = keys.filter fun k => link k = some r := by
    ext k
    simp only [mem_filter]
    constructor
    · rintro ⟨inside,here⟩
      refine ⟨by_contra fun outside => ?_,here⟩
      rw [empty k inside outside] at here
      cases here
    · rintro ⟨inside,here⟩
      exact ⟨more inside,here⟩
  rw [holders,holders,same]

end UbixOS.Library
