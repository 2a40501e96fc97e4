import UbixOS.Pkg.Install

/-! The journal is read back as it was written. -/
namespace UbixOS.Pkg

open Library (Prog Fallible)
open Library Library.Files Library.Prog

variable {base t u : Tree} {n k : Note}

lemma cstr_clean (clean : (0 : UInt8) ∉ txt) : cstr txt = txt := by
  refine List.takeWhile_eq_self_iff.mpr fun b member => ?_
  simp only [decide_eq_true_eq]
  rintro rfl
  exact clean member

lemma lines_unlines (clean : ∀ l ∈ ls, newline ∉ l ∧ 0 ∉ l) : lines (Text.unlines newline ls) = ls := by
  rw [lines,cstr_clean]
  · exact Text.splitLines_unlines fun l member => (clean l member).1
  intro member
  obtain ⟨line,inside,here⟩ := List.mem_flatten.mp member
  obtain ⟨l,member,rfl⟩ := List.mem_map.mp inside
  rcases List.mem_append.mp here with text | last
  · exact (clean l member).2 text
  · cases List.mem_singleton.mp last

lemma mem_text (member : b ∈ text p) : b = Tree.slash ∨ ∃ n ∈ p, b ∈ n := by
  induction p with
  | nil => cases member
  | cons n p ih =>
    cases p with
    | nil => exact .inr ⟨n,by simp,by simpa [text,List.intercalate,List.intersperse] using member⟩
    | cons n' p =>
      rw [text,List.intercalate_cons_cons] at member
      rcases List.mem_append.mp member with first | rest
      · rcases List.mem_append.mp first with here | mark
        · exact .inr ⟨n,by simp,here⟩
        · exact .inl (by simpa using mark)
      · rcases ih rest with mark | ⟨m,inside,here⟩
        · exact .inl mark
        · exact .inr ⟨m,List.mem_cons_of_mem _ inside,here⟩

lemma Safe.components (safe : Safe p) : (text p).splitOn Tree.slash = p :=
  List.splitOn_intercalate _ (fun n member mark => (safe.1 n member).2.2.2 _ mark |>.2.2 rfl) safe.2.1

lemma Safe.printable (safe : Safe p) (member : b ∈ text p) : 32 ≤ b := by
  rcases mem_text member with rfl | ⟨n,inside,here⟩
  · decide
  · exact ((safe.1 n inside).2.2.2 _ here).1

lemma Safe.clean (safe : Safe p) : newline ∉ text p ∧ 0 ∉ text p :=
  ⟨fun member => absurd (safe.printable member) (by decide),fun member => absurd (safe.printable member) (by decide)⟩

lemma parseNote_line (safe : Safe n.path) : parseNote n.line = some n := by
  obtain ⟨tag,p⟩ := n
  have inner : (text p).splitOn Tree.slash = p := safe.components
  cases tag <;> simp [parseNote,Note.line,inner,Tag.byte] <;> exact safe

lemma line_clean (safe : Safe n.path) : newline ∉ n.line ∧ 0 ∉ n.line := by
  obtain ⟨tag,p⟩ := n
  have inner : newline ∉ text p ∧ 0 ∉ text p := safe.clean
  cases tag <;> simp [Note.line,Tag.byte,newline,space] <;> exact inner

lemma parseHeader_add (valid : nameIsValid name = true) : parseHeader (addVerb ++ name) = some (true,name) := by
  simp [parseHeader,addVerb,valid]

lemma header_clean (valid : nameIsValid name = true) : newline ∉ addVerb ++ name ∧ 0 ∉ addVerb ++ name := by
  simp only [nameIsValid,decide_eq_true_eq] at valid
  have inner : newline ∉ name ∧ 0 ∉ name :=
    ⟨fun member => absurd (valid.2.2.2.2 _ member).2.1 (by decide),fun member =>
      absurd (valid.2.2.2.2 _ member).2.1 (by decide)⟩
  simpa [addVerb,newline] using inner

/-- The journal of an install, with its entries in the order of the file. -/
def addJournal (name : Name) (ns : List Note) : Bytes := Text.unlines newline ((addVerb ++ name) :: ns.map Note.line)

lemma addJournal_append (ns : List Note) (n : Note) :
    addJournal name (ns ++ [n]) = addJournal name ns ++ (n.line ++ [newline]) := by
  rw [addJournal,List.map_append,← List.cons_append]
  exact Text.unlines_concat

lemma lines_addJournal (valid : nameIsValid name = true) (safe : ∀ n ∈ ns, Safe n.path) :
    lines (addJournal name ns) = (addVerb ++ name) :: ns.map Note.line := by
  refine lines_unlines fun l member => ?_
  rcases List.mem_cons.mp member with rfl | note
  · exact header_clean valid
  · obtain ⟨n,inside,rfl⟩ := List.mem_map.mp note
    exact line_clean (safe n inside)

lemma notes_addJournal (valid : nameIsValid name = true) (safe : ∀ n ∈ ns, Safe n.path) :
    notes (addJournal name ns) = ns := by
  rw [notes,lines_addJournal valid safe,List.tail_cons,List.filterMap_map]
  have each n (inside : n ∈ ns) : (parseNote ∘ Note.line) n = some n := parseNote_line (safe n inside)
  rw [List.filterMap_congr each]
  exact List.filterMap_some

lemma run_onTree (change : Tree → Except Errno Tree) (s : State) :
    ((onTree change).run s).2 = { s with tree := s.tree.orSame (change s.tree) } := by
  rw [onTree]
  dsimp only
  cases change s.tree <;> rfl

/-- Notes, newest first: a directory is noted before anything below it. -/
def Ordered : List Note → Prop
  | [] => True
  | n :: older => (n.tag = .D → ∀ k ∈ older, (∃ r, k.path = n.path ++ r ∧ r ≠ []) → n ∈ older) ∧ Ordered older

lemma temp_split : temp (q ++ [l]) = q ++ [l ++ suffix] := by
  simp [temp]

lemma plain_temp (plain : t.Plain p) : t.Plain (temp p) := by
  obtain ⟨q,l,rfl⟩ := plain.split
  rw [temp_split]
  refine ⟨by simp,fun n member => ?_,fun {a r target} split more => ?_⟩
  · rcases List.mem_append.mp member with old | last
    · exact plain.proper n (by simp [old])
    obtain rfl : n = l ++ suffix := by simpa using last
    have long : 2 < (l ++ suffix).length := by simp [suffix]
    refine ⟨?_,?_,?_⟩ <;> intro same <;> simp [same,Tree.dot,Tree.dotdot] at long
  · obtain ⟨b,m,rfl⟩ := (List.eq_nil_or_concat' r).resolve_left more
    rw [← List.append_assoc] at split
    have above : q = a ++ b := (List.append_inj' split rfl).1
    exact plain.no_link (r := b ++ [l]) (by simp [above]) (by simp)

end UbixOS.Pkg
