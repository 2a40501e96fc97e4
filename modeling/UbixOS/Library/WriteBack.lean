import Mathlib

/-! Copies of a store that are to be written back. A holder `s` keeps the current value of key
`k` at `holding s k`; what nobody holds is in the store itself. -/
namespace UbixOS.Library.WriteBack

open Function

variable {S K A V : Type}

/-- `ideal` is the store as if every assignment had gone to it at once. -/
structure Kept (holding : S → K → Option A) (store ideal : K → V) (mem : A → V) : Prop where
  current : ∀ {s k a}, holding s k = some a → mem a = ideal k
  settled : ∀ {k}, (∀ s, holding s k = none) → store k = ideal k
  alone : ∀ {s s' k a a'}, holding s k = some a → holding s' k = some a' → s = s'
  apart : ∀ {s s' k k' a}, holding s k = some a → holding s' k' = some a → s = s' ∧ k = k'

lemma Kept.start (store : K → V) (mem : A → V) : Kept (fun (_ : S) _ => none) store store mem :=
  ⟨nofun,fun _ => rfl,nofun,nofun⟩

namespace Kept

variable {holding : S → K → Option A} {store store' ideal : K → V} {mem mem' : A → V}
  (kept : Kept holding store ideal mem)
include kept

lemma scratch (same : ∀ s k a, holding s k = some a → mem' a = mem a) : Kept holding store ideal mem' :=
  { kept with current := fun held => (same _ _ _ held).trans (kept.current held) }

lemma assign [DecidableEq K] [DecidableEq A] (held : holding s k = some a) (v : V) :
    Kept holding store (update ideal k v) (update mem a v) where
  current := by
    intro s' k' a' held'
    by_cases same : k' = k
    · subst same
      cases kept.alone held held'
      cases Option.some.inj (held.symm.trans held')
      simp
    · have ne : a' ≠ a := fun eq => same (kept.apart held' (eq ▸ held)).2
      rw [update_of_ne same,update_of_ne ne,kept.current held']
  settled := by
    intro k' none
    have ne : k' ≠ k := fun eq => by simp [← eq,none s] at held
    rw [update_of_ne ne,kept.settled none]
  alone := kept.alone
  apart := kept.apart

variable [DecidableEq S]

/-- A new copy, of keys that nobody holds, read from the store into memory that nobody holds. -/
lemma take (empty : ∀ k, holding s k = none)
    (free : ∀ s k a, g k = some a → holding s k = none) (unused : ∀ s k k' a, g k = some a → holding s k' ≠ some a)
    (inj : ∀ k k' a, g k = some a → g k' = some a → k = k') (read : ∀ k a, g k = some a → mem' a = store k)
    (same : ∀ s k a, holding s k = some a → mem' a = mem a) :
    Kept (update holding s g) store ideal mem' where
  current := by
    intro r k a held
    by_cases new : r = s
    · subst new
      rw [update_self] at held
      rw [read k a held,kept.settled fun s => free s k a held]
    · rw [update_of_ne new] at held
      rw [same r k a held,kept.current held]
  settled := by
    intro k none
    refine kept.settled fun r => ?_
    by_cases new : r = s
    · exact new ▸ empty k
    · simpa [new] using none r
  alone := by
    intro r r' k a a' held held'
    by_cases new : r = s <;> by_cases new' : r' = s
    · exact new.trans new'.symm
    · subst new
      rw [update_self] at held
      rw [update_of_ne new',free r' k a held] at held'
      cases held'
    · subst new'
      rw [update_self] at held'
      rw [update_of_ne new,free r k a' held'] at held
      cases held
    · rw [update_of_ne new] at held
      rw [update_of_ne new'] at held'
      exact kept.alone held held'
  apart := by
    intro r r' k k' a held held'
    by_cases new : r = s <;> by_cases new' : r' = s
    · subst new new'
      rw [update_self] at held held'
      exact ⟨rfl,inj k k' a held held'⟩
    · subst new
      rw [update_self] at held
      rw [update_of_ne new'] at held'
      exact absurd held' (unused r' k k' a held)
    · subst new'
      rw [update_self] at held'
      rw [update_of_ne new] at held
      exact absurd held (unused r k' k a held')
    · rw [update_of_ne new] at held
      rw [update_of_ne new'] at held'
      exact kept.apart held held'

lemma pass (empty : ∀ k, holding t k = none) :
    Kept (update (update holding s fun _ => none) t (holding s)) store ideal mem := by
  -- Read through the swap of the two holders, nothing has changed.
  have swap : update (update holding s fun _ => none) t (holding s) = holding ∘ Equiv.swap s t := by
    funext r
    by_cases new : r = t
    · simp [new]
    by_cases old : r = s
    · subst old
      rw [update_of_ne new,update_self]
      funext k
      simp [empty]
    · rw [update_of_ne new,update_of_ne old,Function.comp,Equiv.swap_apply_of_ne_of_ne old new]
  rw [swap]
  refine ⟨kept.current,fun none => kept.settled fun r => ?_,fun held held' => ?_,fun held held' => ?_⟩
  · simpa using none (Equiv.swap s t r)
  · exact (Equiv.swap s t).injective (kept.alone held held')
  · exact ⟨(Equiv.swap s t).injective (kept.apart held held').1,(kept.apart held held').2⟩

/-- A holder writes keys of its copy to the store, and gives up some that it has written. -/
lemma write (sub : ∀ k a, g k = some a → holding s k = some a)
    (written : ∀ k a, holding s k = some a → g k = none → store' k = mem a)
    (rest : ∀ k, (∀ s, holding s k = none) → store' k = store k) :
    Kept (update holding s g) store' ideal mem := by
  have old {r k a} (held : update holding s g r k = some a) : holding r k = some a := by
    by_cases new : r = s
    · subst new
      rw [update_self] at held
      exact sub k a held
    · rwa [update_of_ne new] at held
  refine ⟨fun held => kept.current (old held),?_,fun held held' => kept.alone (old held) (old held'),
    fun held held' => kept.apart (old held) (old held')⟩
  intro k none
  have gone : g k = Option.none := by simpa using none s
  cases was : holding s k with
  | some a => rw [written k a was gone,kept.current was]
  | none =>
    have nobody r : holding r k = Option.none := by
      by_cases same : r = s
      · exact same ▸ was
      · simpa [same] using none r
    rw [rest k nobody,kept.settled nobody]

end Kept
end UbixOS.Library.WriteBack
