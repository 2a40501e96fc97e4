import Mathlib

/-! Texts as lists: lines, the first place of a pattern, words, and numbers in digits. -/
namespace UbixOS.Library.Text

open List Option

variable {α : Type} [DecidableEq α] {eol : α} {ls : List (List α)} {pat l before after : List α}

/-- The lines of a text; what follows the last end counts if it is not empty. -/
def splitLines (eol : α) (txt : List α) : List (List α) :=
  let all := txt.splitOn eol
  if all.getLastD [] = [] then all.dropLast else all

def unlines (eol : α) (ls : List (List α)) : List α := (ls.map (· ++ [eol])).flatten

omit [DecidableEq α] in
@[simp] lemma unlines_nil : unlines eol [] = [] := rfl

omit [DecidableEq α] in
@[simp] lemma unlines_cons : unlines eol (l :: ls) = l ++ [eol] ++ unlines eol ls := rfl

omit [DecidableEq α] in
lemma unlines_concat : unlines eol (ls ++ [l]) = unlines eol ls ++ (l ++ [eol]) := by
  simp [unlines]

omit [DecidableEq α] in
lemma intercalate_unlines : [eol].intercalate (ls ++ [[]]) = unlines eol ls := by
  induction ls with
  | nil => rfl
  | cons l ls ih =>
    cases ls with
    | nil => simp [intercalate,intersperse]
    | cons l' ls =>
      rw [cons_append,cons_append,intercalate_cons_cons,← cons_append,ih]
      simp

lemma splitLines_unlines (clean : ∀ l ∈ ls, eol ∉ l) : splitLines eol (unlines eol ls) = ls := by
  have split : (unlines eol ls).splitOn eol = ls ++ [[]] := by
    rw [← intercalate_unlines]
    refine splitOn_intercalate _ (fun l member => ?_) (by simp)
    rcases mem_append.mp member with old | last
    · exact clean l old
    · simp at last
      simp [last]
  simp [splitLines,split]

lemma head_splitLines (clean : eol ∉ l) : (splitLines eol (l ++ eol :: rest)).head? = some l := by
  have more : rest.splitOn eol ≠ [] := splitOn_ne_nil _ _
  rw [splitLines,splitOn_append_cons_self_of_not_mem clean]
  split
  next => simp [dropLast_cons_of_ne_nil more]
  next => rfl

lemma mem_splitOn {txt : List α} (piece : l ∈ txt.splitOn eol) : eol ∉ l := by
  induction txt generalizing l with
  | nil =>
    rw [splitOn_nil,mem_singleton] at piece
    simp [piece]
  | cons a txt ih =>
    rw [splitOn_cons_eq_if_modifyHead] at piece
    split at piece
    next =>
      rcases mem_cons.mp piece with rfl | later
      · exact not_mem_nil
      · exact ih later
    next other =>
      cases parts : txt.splitOn eol with
      | nil => exact absurd parts (splitOn_ne_nil _ _)
      | cons first rest =>
        rw [parts,modifyHead_cons] at piece
        rcases mem_cons.mp piece with rfl | later
        · have old : eol ∉ first := ih (by simp [parts])
          simpa [old] using fun same => other (by simp [same])
        · exact ih (by simp [parts,later])

lemma mem_splitLines {txt : List α} (line : l ∈ splitLines eol txt) : eol ∉ l := by
  rw [splitLines] at line
  split at line
  next => exact mem_splitOn (mem_of_mem_dropLast line)
  next => exact mem_splitOn line

omit [DecidableEq α] in
lemma mapM_mem {β γ : Type} {f : β → Option γ} {bs : List β} {cs : List γ} (mapped : bs.mapM f = some cs) :
    (∀ c ∈ cs, ∃ b ∈ bs, f b = some c) ∧ ∀ b ∈ bs, ∃ c ∈ cs, f b = some c := by
  induction bs generalizing cs with
  | nil =>
    cases mapped
    exact ⟨nofun,nofun⟩
  | cons b bs ih =>
    simp only [mapM_cons,bind_eq_bind,bind_eq_some_iff] at mapped
    obtain ⟨c,first,cs,rest,same⟩ := mapped
    cases same
    obtain ⟨back,forth⟩ := ih rest
    constructor
    · refine forall_mem_cons.mpr ⟨⟨b,mem_cons_self,first⟩,fun c later => ?_⟩
      exact (back c later).imp fun b found => ⟨mem_cons_of_mem _ found.1,found.2⟩
    · refine forall_mem_cons.mpr ⟨⟨c,mem_cons_self,first⟩,fun b later => ?_⟩
      exact (forth b later).imp fun c found => ⟨mem_cons_of_mem _ found.1,found.2⟩

omit [DecidableEq α] in
lemma mapM_eq_map {β γ : Type} {f : β → Option γ} {g : β → γ} {bs : List β} :
    bs.mapM f = some (bs.map g) ↔ ∀ b ∈ bs, f b = some (g b) := by
  induction bs with
  | nil => simp
  | cons b bs ih =>
    rw [mapM_cons,map_cons,forall_mem_cons,← ih]
    cases f b <;> cases bs.mapM f <;> simp

/-- What stands before and after the first place of the pattern. -/
def cut (pat : List α) : List α → Option (List α × List α)
  | [] => if pat = [] then some ([],[]) else none
  | a :: rest =>
    if pat <+: a :: rest then some ([],(a :: rest).drop pat.length)
    else (cut pat rest).map fun parts => (a :: parts.1,parts.2)

lemma cut_here (some_ : pat ≠ []) : cut pat (pat ++ l) = some ([],l) := by
  cases pat with
  | nil => exact absurd rfl some_
  | cons a pat => simp [cut]

lemma cut_append (some_ : pat ≠ []) (first : ∀ b a, before = b ++ a → a ≠ [] → ¬pat <+: a ++ (pat ++ l)) :
    cut pat (before ++ (pat ++ l)) = some (before,l) := by
  induction before with
  | nil => exact cut_here some_
  | cons c before ih =>
    have later : cut pat (before ++ (pat ++ l)) = some (before,l) :=
      ih fun b a split => first (c :: b) a (by rw [split,cons_append])
    have apart : ¬pat <+: c :: (before ++ (pat ++ l)) := first [] (c :: before) rfl (by simp)
    rw [cons_append,cut,if_neg apart,later]
    rfl

lemma cut_some (found : cut pat l = some (before,after)) : l = before ++ (pat ++ after) := by
  induction l generalizing before with
  | nil =>
    simp only [cut] at found
    split at found
    next none =>
      cases found
      simp [none]
    next => cases found
  | cons c l ih =>
    rw [cut] at found
    split at found
    next here =>
      cases found
      obtain ⟨rest,same⟩ := here
      simp [← same]
    next =>
      obtain ⟨parts,later,same⟩ := map_eq_some_iff.mp found
      cases same
      rw [ih later,cons_append]

/-- The pattern is nowhere in what stands before its first place. -/
lemma cut_before (found : cut pat l = some (before,after)) :
    ∀ b a, before = b ++ a → a ≠ [] → ¬pat <+: a ++ (pat ++ after) := by
  induction l generalizing before with
  | nil =>
    simp only [cut] at found
    split at found
    next =>
      cases found
      simp
    next => cases found
  | cons c l ih =>
    rw [cut] at found
    split at found
    next =>
      cases found
      simp
    next nothere =>
      obtain ⟨parts,later,same⟩ := map_eq_some_iff.mp found
      cases same
      intro b a split more
      cases b with
      | nil =>
        rw [nil_append] at split
        rw [← split,cons_append,← cut_some later]
        exact nothere
      | cons c' b =>
        rw [cons_append,cons.injEq] at split
        exact ih later b a split.2 more

omit [DecidableEq α] in
lemma takeWhile_word (word : ∀ b ∈ before, p b = true) (stop : p a = false) :
    (before ++ a :: after).takeWhile p = before := by
  rw [takeWhile_append_of_pos word]
  simp [stop]

omit [DecidableEq α] in
lemma dropWhile_word (word : ∀ b ∈ before, p b = true) (stop : p a = false) :
    (before ++ a :: after).dropWhile p = a :: after := by
  rw [dropWhile_append_of_pos word]
  simp [stop]

def digit (b : Nat) (c : UInt8) : Option Nat := if 48 ≤ c.toNat ∧ c.toNat - 48 < b then some (c.toNat - 48) else none

/-- The number that the digits stand for, as long as it does not pass `cap` on the way. -/
def number (b cap : Nat) (l : List UInt8) : Option Nat :=
  l.foldlM (fun v c => (digit b c).bind fun d => if v * b + d ≤ cap then some (v * b + d) else none) 0

def numeral (b n : Nat) : List UInt8 :=
  if n = 0 then [48] else (Nat.digits b n).reverse.map fun d => UInt8.ofNat (48 + d)

def padded (w b n : Nat) : List UInt8 := replicate (w - (numeral b n).length) 48 ++ numeral b n

variable {b cap n : Nat}

lemma digit_ofNat (small : b ≤ 10) (is : d < b) : digit b (UInt8.ofNat (48 + d)) = some d := by
  have byte : (UInt8.ofNat (48 + d)).toNat = 48 + d := by
    rw [UInt8.toNat_ofNat']
    omega
  rw [digit,byte,if_pos ⟨by omega,by omega⟩,Nat.add_sub_cancel_left]

lemma digit_zero (large : 1 < b) : digit b 48 = some 0 := by
  have : 0 < b := by omega
  simp [digit,this]

lemma foldlM_digits (small : b ≤ 10) {ds : List Nat} (each : ∀ d ∈ ds, d < b) {v : Nat} :
    (ds.map fun d => UInt8.ofNat (48 + d)).foldlM (fun v c => (digit b c).bind fun d =>
      if v * b + d ≤ cap then some (v * b + d) else none) v =
    ds.foldlM (fun v d => if v * b + d ≤ cap then some (v * b + d) else none) v := by
  induction ds generalizing v with
  | nil => rfl
  | cons d ds ih =>
    rw [map_cons,foldlM_cons,foldlM_cons,digit_ofNat small (each d mem_cons_self)]
    exact bind_congr fun w => ih fun d inside => each d (mem_cons_of_mem _ inside)

/-- The value grows with every digit, so that it stays below the bound of the last one. -/
lemma foldlM_capped {ds : List Nat} {v : Nat} (positive : 0 < b) (fits : ds.foldl (fun v d => v * b + d) v ≤ cap) :
    ds.foldlM (fun v d => if v * b + d ≤ cap then some (v * b + d) else none) v =
      some (ds.foldl (fun v d => v * b + d) v) := by
  have grows : ∀ (ds : List Nat) (v : Nat), v ≤ ds.foldl (fun v d => v * b + d) v := by
    intro ds
    induction ds with
    | nil => exact fun v => le_rfl
    | cons d ds ih =>
      intro v
      calc v ≤ v * b := Nat.le_mul_of_pos_right v positive
        _ ≤ v * b + d := Nat.le_add_right ..
        _ ≤ _ := ih _
  induction ds generalizing v with
  | nil => rfl
  | cons d ds ih =>
    rw [foldlM_cons,if_pos ((grows ds _).trans fits)]
    exact ih fits

lemma foldl_digits : (Nat.digits b n).reverse.foldl (fun v d => v * b + d) 0 = n := by
  have turned : (Nat.digits b n).foldr (fun d v => v * b + d) 0 = Nat.ofDigits b (Nat.digits b n) := by
    rw [Nat.ofDigits_eq_foldr]
    simp [Nat.mul_comm,Nat.add_comm]
  rw [foldl_reverse,turned,Nat.ofDigits_digits]

lemma number_zeros {l : List UInt8} (large : 1 < b) : ∀ k, number b cap (replicate k 48 ++ l) = number b cap l
  | 0 => rfl
  | k + 1 => by
    have rest := number_zeros large (l := l) k
    rw [number] at rest ⊢
    rw [replicate_succ,cons_append,foldlM_cons,digit_zero large]
    simpa using rest

lemma number_numeral (large : 1 < b) (small : b ≤ 10) (fits : n ≤ cap) : number b cap (numeral b n) = some n := by
  rw [numeral]
  split
  next zero =>
    simp [number,digit_zero large,zero]
  next =>
    rw [number,foldlM_digits small fun d inside => Nat.digits_lt_base large (mem_reverse.mp inside),
      foldlM_capped (by omega) (by rwa [foldl_digits]),foldl_digits]

lemma number_padded {w : Nat} (large : 1 < b) (small : b ≤ 10) (fits : n ≤ cap) :
    number b cap (padded w b n) = some n := by
  rw [padded,number_zeros large,number_numeral large small fits]

lemma mem_numeral (large : 1 < b) (small : b ≤ 10) (inside : c ∈ numeral b n) : ∃ d, digit b c = some d := by
  rw [numeral] at inside
  split at inside
  next =>
    rw [mem_singleton.mp inside]
    exact ⟨0,digit_zero large⟩
  next =>
    obtain ⟨d,member,rfl⟩ := mem_map.mp inside
    exact ⟨d,digit_ofNat small (Nat.digits_lt_base large (mem_reverse.mp member))⟩

lemma mem_padded (large : 1 < b) (small : b ≤ 10) (inside : c ∈ padded w b n) : ∃ d, digit b c = some d := by
  rcases mem_append.mp inside with zero | digits
  · rw [(mem_replicate.mp zero).2]
    exact ⟨0,digit_zero large⟩
  · exact mem_numeral large small digits

lemma numeral_ne_nil (n : Nat) : numeral b n ≠ [] := by
  rw [numeral]
  split
  next => simp
  next positive => simpa [Nat.digits_eq_nil_iff_eq_zero] using positive

end UbixOS.Library.Text
