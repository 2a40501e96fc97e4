import UbixOS.Pkg.Commands

/-! The order of the versions (lib/libpkg/version.c) and the newest package of an index
(lib/libpkg/index.c): a version is compared as the list of its numbers and words. -/
namespace UbixOS.Pkg

open List

/-- A number ranks above a word, a longer number above a shorter one. -/
def number (digits : Bytes) : List Nat := 1 :: digits.length :: digits.map UInt8.toNat

def word (letters : Bytes) : List Nat := 0 :: letters.map UInt8.toNat

/-- The numbers and the words of a version, without the separators and the zeros in front. -/
def segments (a : Bytes) : List (List Nat) :=
  match here : a.dropWhile isSep with
  | [] => []
  | x :: rest =>
    if isDigit x then number (trimZeros ((x :: rest).takeWhile isDigit)) :: segments (rest.dropWhile isDigit)
    else word ((x :: rest).takeWhile isAlpha) :: segments (rest.dropWhile isAlpha)
  termination_by a.length
  decreasing_by
    all_goals
      have skipped : (a.dropWhile isSep).length ≤ a.length := length_dropWhile_le ..
      rw [here,length_cons] at skipped
      exact (length_dropWhile_le ..).trans_lt skipped

lemma compare_toNat (a b : UInt8) : compare a.toNat b.toNat = compare a b := by
  simp [compare,compareOfLessAndEq,UInt8.lt_iff_toNat_lt,UInt8.toNat_inj]

lemma compare_word (xs ys : Bytes) :
    compare (xs.map UInt8.toNat) (ys.map UInt8.toNat) = (memcmp xs ys).then (compare xs.length ys.length) := by
  induction xs generalizing ys with
  | nil =>
    cases ys with
    | nil => rfl
    | cons => exact (Nat.compare_eq_lt.mpr (Nat.succ_pos _)).symm
  | cons x xs ih =>
    cases ys with
    | nil => exact (Nat.compare_eq_gt.mpr (Nat.succ_pos _)).symm
    | cons y ys =>
      have lengths : compare (xs.length + 1) (ys.length + 1) = compare xs.length ys.length := by
        simp [compare,compareOfLessAndEq]
      simp [memcmp,compare_toNat,ih,Ordering.then_assoc,lengths]

lemma compare_number (xs ys : Bytes) :
    compare (number xs) (number ys) = (compare xs.length ys.length).then (memcmp xs ys) := by
  simp only [number,List.compare_cons_cons,compare_word]
  cases compare xs.length ys.length <;> simp

lemma segments_eq (a : Bytes) : segments a = match a.dropWhile isSep with
    | [] => []
    | x :: rest =>
      if isDigit x then number (trimZeros ((x :: rest).takeWhile isDigit)) :: segments (rest.dropWhile isDigit)
      else word ((x :: rest).takeWhile isAlpha) :: segments (rest.dropWhile isAlpha) := by
  rw [segments]
  split
  next here => rw [here]
  next here => rw [here]

lemma versionStep_segments (a b : Bytes) : (match versionStep a b with
    | .inl order => order
    | .inr rest => compare (segments rest.1) (segments rest.2)) = compare (segments a) (segments b) := by
  rw [segments_eq a,segments_eq b,versionStep]
  cases a.dropWhile isSep with
  | nil => cases b.dropWhile isSep <;> simp <;> split <;> simp
  | cons x as =>
    cases b.dropWhile isSep with
    | nil =>
      simp only
      split <;> simp
    | cons y bs =>
      cases hx : isDigit x <;> cases hy : isDigit y <;> simp [hx,hy,compare_number,word]
      · rw [compare_word]
        generalize (memcmp _ _).then (compare (length _) (length _)) = order
        cases order <;> rfl
      · rfl
      · rfl
      · generalize (compare (length _) (length _)).then (memcmp _ _) = order
        cases order <;> rfl

lemma versionCmp_segments (a b : Bytes) : versionCmp a b = compare (segments a) (segments b) := by
  induction size : a.length using Nat.strongRecOn generalizing a b with
  | _ n ih =>
    rw [versionCmp_eq,← versionStep_segments]
    cases turn : versionStep a b with
    | inl order => rfl
    | inr rest => exact ih _ (size ▸ versionStep_shorter turn) rest.1 rest.2 rfl

instance : Std.TransCmp versionCmp where
  eq_swap {a b} := by simpa only [versionCmp_segments] using Std.OrientedCmp.eq_swap
  isLE_trans {a b c} := by simpa only [versionCmp_segments] using Std.TransCmp.isLE_trans

/-- What `pkg_index_find` reads of a `struct pkg_irec`. -/
structure IRec where
  name : Bytes
  version : Bytes
  revision : Nat
  deriving DecidableEq

def IRec.cmp : IRec → IRec → Ordering :=
    compareLex (fun a b => versionCmp a.version b.version) (compareOn IRec.revision)

/-- One turn of the loop of `pkg_index_find`. -/
def newest (name : Bytes) (best : Option IRec) (c : IRec) : Option IRec :=
  if c.name ≠ name then best
  else
    match best with
    | none => some c
    | some b =>
      let cmp := versionCmp c.version b.version
      if cmp = .gt ∨ cmp = .eq ∧ c.revision > b.revision then some c else best

def indexFind (recs : List IRec) (name : Bytes) : Option IRec := recs.foldl (newest name) none

def Newest (recs : List IRec) (name : Bytes) : Option IRec → Prop
  | none => ∀ r ∈ recs, r.name ≠ name
  | some b => b ∈ recs ∧ b.name = name ∧ ∀ r ∈ recs, r.name = name → (r.cmp b).isLE

instance : Std.TransCmp fun a b : IRec => versionCmp a.version b.version where
  eq_swap := Std.OrientedCmp.eq_swap
  isLE_trans := Std.TransCmp.isLE_trans

instance : Std.TransCmp IRec.cmp := inferInstanceAs (Std.TransCmp (compareLex _ _))

lemma newest_greater {c b : IRec} :
    (versionCmp c.version b.version = .gt ∨ versionCmp c.version b.version = .eq ∧ c.revision > b.revision) ↔
    c.cmp b = .gt := by
  have revisions : c.revision > b.revision ↔ compare c.revision b.revision = .gt := compare_gt_iff_gt.symm
  simp [IRec.cmp,compareLex,Ordering.then_eq_gt,compareOn,revisions]

lemma Newest.step (best : Newest recs name b) (c : IRec) : Newest (recs ++ [c]) name (newest name b c) := by
  unfold newest
  split
  next other => cases b <;> grind [Newest]
  next named =>
    have refl : (c.cmp c).isLE := Std.ReflCmp.isLE_rfl
    cases b with
    | none => grind [Newest]
    | some b =>
      obtain ⟨member,called,least⟩ := best
      simp only [newest_greater]
      split
      next greater =>
        have above : (b.cmp c).isLE := by
          rw [show b.cmp c = (c.cmp b).swap from Std.OrientedCmp.eq_swap,greater]
          rfl
        refine ⟨by simp,by simpa using named,fun r among same => ?_⟩
        rcases mem_append.mp among with old | new
        · exact Std.TransCmp.isLE_trans (least r old same) above
        · exact mem_singleton.mp new ▸ refl
      next below =>
        refine ⟨by simp [member],called,fun r among same => ?_⟩
        rcases mem_append.mp among with old | new
        · exact least r old same
        rw [mem_singleton.mp new]
        cases order : c.cmp b with
        | gt => exact absurd order below
        | _ => rfl

/-- `pkg_version_cmp` is a total preorder, and `pkg_index_find` gives a greatest record of the name. -/
theorem version_order : (∀ a b, versionCmp b a = (versionCmp a b).swap) ∧
    (∀ a b c, versionCmp a b = .eq → versionCmp b c = .eq → versionCmp a c = .eq) ∧
    (∀ a b c, (versionCmp a b).isLE → (versionCmp b c).isLE → (versionCmp a c).isLE) ∧
    ∀ recs name, Newest recs name (indexFind recs name) := by
  refine ⟨fun _ _ => Std.OrientedCmp.eq_swap,fun _ _ _ => Std.TransCmp.eq_trans,fun _ _ _ => Std.TransCmp.isLE_trans,
    fun recs name => ?_⟩
  induction recs using reverseRecOn with
  | nil => simp [Newest,indexFind]
  | append_singleton recs c ih => simpa [indexFind] using ih.step c

end UbixOS.Pkg
