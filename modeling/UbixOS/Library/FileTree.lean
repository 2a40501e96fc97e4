import Mathlib

/-! A tree of directories, files and symbolic links, and the calls that change it. Paths are lists
of names; a call follows the links on the way to the last name, never the last name itself. -/
namespace UbixOS.Library.Files

open Function Finmap List Option

abbrev Name := List UInt8
abbrev Path := List Name

instance Path.lawful : LawfulBEq Path := inferInstance

variable {budget mode : Nat} {cwd : Path} {rest : List Name}

inductive Errno where
  | ENOENT
  | ENOTDIR
  | EEXIST
  | EISDIR
  | ENOTEMPTY
  | ELOOP
  | EBUSY
  | EBADF
  | EINVAL
  | EFBIG
  | EBADMSG
  | ENAMETOOLONG
  | EACCES
  | ENOEXEC
  | EPERM
  deriving DecidableEq

inductive Node where
  | dir (mode : Nat)
  | file (mode : Nat) (data : List UInt8)
  | link (target : List UInt8)
  deriving DecidableEq

def Node.isDir : Node → Bool
  | .dir _ => true
  | _ => false

/-- Every node but the root lies in a directory. -/
structure Tree where
  nodes : Finmap fun _ : Path => Node
  rooted : ∃ mode, nodes.lookup [] = some (.dir mode)
  closed : ∀ {p n}, p ++ [n] ∈ nodes → ∃ mode, nodes.lookup p = some (.dir mode)

namespace Tree

def find (t : Tree) (p : Path) : Option Node := t.nodes.lookup p

lemma mem_iff {t : Tree} {p : Path} : p ∈ t.nodes ↔ t.find p ≠ none := by
  rw [← lookup_isSome,isSome_iff_ne_none]
  rfl

variable {t u : Tree} {p q : Path} {n : Name} {node : Node} {e : Errno}

lemma parent (found : t.find (p ++ [n]) ≠ none) : ∃ mode, t.find p = some (.dir mode) := t.closed (mem_iff.mpr found)

/-- What lies on the way to a node is a directory. -/
lemma above (found : t.find (p ++ r) ≠ none) (more : r ≠ []) : ∃ mode, t.find p = some (.dir mode) := by
  induction r generalizing p with
  | nil => exact absurd rfl more
  | cons n r ih =>
    have next : t.find (p ++ [n]) ≠ none := by
      by_cases last : r = []
      · simpa [last] using found
      have split : p ++ n :: r = p ++ [n] ++ r := by simp
      obtain ⟨mode,dir⟩ := ih (split ▸ found) last
      simp [dir]
    exact parent next

/-- A node under a directory, in the place of nothing or of a file. -/
def put (t : Tree) (p : Path) (n : Name) (node : Node) (dir : ∃ mode, t.find p = some (.dir mode))
    (old : ∀ mode, t.find (p ++ [n]) ≠ some (.dir mode)) : Tree where
  nodes := t.nodes.insert (p ++ [n]) node
  rooted := by
    rw [lookup_insert_of_ne _ (by simp)]
    exact t.rooted
  closed := by
    intro q m member
    have found : ∃ mode, t.find q = some (.dir mode) := by
      rcases mem_insert.mp member with same | member
      · rw [(append_inj' same rfl).1]
        exact dir
      · exact t.closed member
    obtain ⟨mode,found⟩ := found
    refine ⟨mode,?_⟩
    rw [lookup_insert_of_ne]
    · exact found
    · rintro rfl
      exact old mode found

/-- A node without others below it is taken away. -/
def drop (t : Tree) (p : Path) (n : Name) (alone : ∀ m, p ++ [n] ++ [m] ∉ t.nodes) : Tree where
  nodes := t.nodes.erase (p ++ [n])
  rooted := by
    rw [lookup_erase_ne (by simp)]
    exact t.rooted
  closed := by
    intro q m member
    obtain ⟨-,member⟩ := mem_erase.mp member
    rw [lookup_erase_ne]
    · exact t.closed member
    · rintro rfl
      exact alone m member

lemma find_put : (t.put p n node dir old).find = update t.find (p ++ [n]) (some node) := by
  funext q
  by_cases same : q = p ++ [n]
  · rw [same,update_self]
    exact lookup_insert _
  · rw [update_of_ne same]
    exact lookup_insert_of_ne _ same

lemma find_drop : (t.drop p n alone).find = update t.find (p ++ [n]) none := by
  funext q
  by_cases same : q = p ++ [n]
  · rw [same,update_self]
    exact lookup_erase _ _
  · rw [update_of_ne same]
    exact lookup_erase_ne same

def slash : UInt8 := 47
def dot : Name := [46]
def dotdot : Name := [46,46]

/-- The most names that links may add to a path. -/
def maxWalk : Nat := 4096

def walk (t : Tree) : Nat → Path → List Name → Except Errno Path
  | _, cwd, [] => .ok cwd
  | 0, _, _ :: _ => .error .ELOOP
  | budget + 1, cwd, n :: rest =>
    if n = [] ∨ n = dot then t.walk budget cwd rest
    else if n = dotdot then t.walk budget cwd.dropLast rest
    else
      match t.find (cwd ++ [n]) with
      | none => .error .ENOENT
      | some (.file ..) => .error .ENOTDIR
      | some (.dir _) => t.walk budget (cwd ++ [n]) rest
      | some (.link target) => t.walk budget (if target.head? = some slash then [] else cwd)
        (target.splitOn slash ++ rest)

structure Place (t : Tree) where
  dir : Path
  leaf : Name
  isDir : ∃ mode, t.find dir = some (.dir mode)

def Place.path (at_ : Place t) : Path := at_.dir ++ [at_.leaf]

lemma walk_dir (dir : ∃ mode, t.find cwd = some (.dir mode))
    (walked : t.walk budget cwd rest = .ok p) : ∃ mode, t.find p = some (.dir mode) := by
  induction budget generalizing cwd rest with
  | zero =>
    cases rest with
    | nil => cases walked; exact dir
    | cons n rest => cases walked
  | succ budget ih =>
    cases rest with
    | nil => cases walked; exact dir
    | cons n rest =>
      rw [walk] at walked
      split at walked
      next => exact ih dir walked
      next =>
        split at walked
        next =>
          refine ih ?_ walked
          rcases eq_nil_or_concat' cwd with rfl | ⟨q,m,rfl⟩
          · exact dir
          rw [dropLast_concat]
          refine parent (n := m) ?_
          obtain ⟨mode,found⟩ := dir
          simp [found]
        next =>
          split at walked
          next => cases walked
          next => cases walked
          next mode found => exact ih ⟨mode,found⟩ walked
          next target found =>
            refine ih ?_ walked
            split
            next => exact t.rooted
            next => exact dir

/-- Where a call finds the last name of a path. -/
def locate (t : Tree) (p : Path) : Except Errno (Place t) :=
  match p.getLast? with
  | none => .error .EBUSY
  | some leaf =>
    match walked : t.walk (p.length + maxWalk) [] p.dropLast with
    | .error e => .error e
    | .ok dir => .ok ⟨dir,leaf,walk_dir t.rooted walked⟩

lemma Place.above {place : Place t} (split : place.path = p ++ r) (more : r ≠ []) :
    ∃ mode, t.find p = some (.dir mode) := by
  obtain ⟨b,n,rfl⟩ := (eq_nil_or_concat' r).resolve_left more
  rw [Place.path,← append_assoc] at split
  have dir : place.dir = p ++ b := (append_inj' split rfl).1
  obtain ⟨mode,found⟩ := place.isDir
  by_cases last : b = []
  · exact ⟨mode,by rw [← found,dir,last,append_nil]⟩
  · exact Tree.above (by rw [← dir,found]; simp) last

def lstat (t : Tree) (p : Path) : Except Errno Node :=
  match t.locate p with
  | .error e => .error e
  | .ok place =>
    match t.find place.path with
    | none => .error .ENOENT
    | some node => .ok node

/-- `mkdir`, `symlink`, and `open` with `O_CREAT | O_EXCL`. -/
def make (t : Tree) (p : Path) (node : Node) : Except Errno Tree :=
  match t.locate p with
  | .error e => .error e
  | .ok place =>
    if free : t.find place.path = none then
      .ok (t.put place.dir place.leaf node place.isDir fun mode found => by simp [Place.path,found] at free)
    else .error .EEXIST

def empty (t : Tree) (p : Path) : Bool := ∀ q ∈ t.nodes.keys, q = [] ∨ q.dropLast ≠ p

lemma empty_iff : t.empty p = true ↔ ∀ m, p ++ [m] ∉ t.nodes := by
  rw [empty,decide_eq_true_eq]
  refine ⟨fun none m member => ?_,fun none q member => ?_⟩
  · rcases none _ (mem_keys.mpr member) with nil | other
    · simp at nil
    · simp at other
  rcases eq_nil_or_concat' q with rfl | ⟨r,m,rfl⟩
  · exact .inl rfl
  right
  rintro rfl
  rw [dropLast_concat] at none
  exact none m (mem_keys.mp member)

lemma alone_of_file (file : ∀ mode, t.find p ≠ some (.dir mode)) (m : Name) : p ++ [m] ∉ t.nodes := by
  intro member
  obtain ⟨mode,found⟩ := t.closed member
  exact file mode found

def unlink (t : Tree) (p : Path) : Except Errno Tree :=
  match t.locate p with
  | .error e => .error e
  | .ok place =>
    match found : t.find place.path with
    | none => .error .ENOENT
    | some (.dir _) => .error .EISDIR
    | some (.file ..) | some (.link _) =>
      .ok (t.drop place.dir place.leaf (alone_of_file fun mode dir => by simp [Place.path,dir] at found))

def rmdir (t : Tree) (p : Path) : Except Errno Tree :=
  match t.locate p with
  | .error e => .error e
  | .ok place =>
    match t.find place.path with
    | none => .error .ENOENT
    | some (.file ..) | some (.link _) => .error .ENOTDIR
    | some (.dir _) =>
      if none : t.empty place.path = true then .ok (t.drop place.dir place.leaf (empty_iff.mp none))
        else .error .ENOTEMPTY

/-- `write` to a file that is open, by its place. -/
def append (t : Tree) (dir : Path) (leaf : Name) (data : List UInt8) : Except Errno Tree :=
  match found : t.find (dir ++ [leaf]) with
  | some (.file mode old) =>
    .ok (t.put dir leaf (.file mode (old ++ data)) (parent (n := leaf) (by simp [found]))
      fun _ other => by simp [found] at other)
  | _ => .error .EBADF

def chmod (t : Tree) (p : Path) (mode : Nat) : Except Errno Tree :=
  match t.locate p with
  | .error e => .error e
  | .ok place =>
    match found : t.find place.path with
    | some (.file _ data) =>
      .ok (t.put place.dir place.leaf (.file mode data) place.isDir fun _ other => by simp [Place.path,other] at found)
    | none => .error .ENOENT
    | _ => .error .EINVAL

def rename (t : Tree) (p q : Path) : Except Errno Tree :=
  match t.locate p, t.locate q with
  | .error e, _ => .error e
  | _, .error e => .error e
  | .ok source, .ok target =>
    match found : t.find source.path with
    | none => .error .ENOENT
    | some node =>
      if file : node.isDir = true ∨ ∃ other ∈ t.find target.path, other.isDir = true then .error .EISDIR
      else if same : source.path = target.path then .ok t
      else
        have old : ∀ mode, t.find (target.dir ++ [target.leaf]) ≠ some (.dir mode) := fun mode other =>
          file (.inr ⟨_,other,rfl⟩)
        .ok ((t.put target.dir target.leaf node target.isDir old).drop source.dir source.leaf
          (alone_of_file fun mode dir => by
          rw [find_put] at dir
          have here : t.find source.path = some (.dir mode) := (update_of_ne same ..).symm.trans dir
          exact file (.inl (some.inj (found.symm.trans here) ▸ rfl))))

lemma lstat_ok : t.lstat p = .ok node ↔ ∃ place, t.locate p = .ok place ∧ t.find place.path = some node := by
  rw [lstat]
  cases located : t.locate p with
  | error e => simp
  | ok place =>
    cases found : t.find place.path with
    | none | some other => simp [found]

lemma make_ok (made : t.make p node = .ok u) : ∃ place, t.locate p = .ok place ∧ t.find place.path = none ∧
    u.find = update t.find place.path (some node) := by
  rw [make] at made
  split at made
  next => cases made
  next place located =>
    split at made
    next free =>
      cases made
      exact ⟨place,located,free,find_put⟩
    next => cases made

lemma unlink_ok (gone : t.unlink p = .ok u) : ∃ place node, t.locate p = .ok place ∧ t.find place.path = some node ∧
    node.isDir = false ∧ u.find = update t.find place.path none := by
  rw [unlink] at gone
  split at gone
  next => cases gone
  next place located =>
    split at gone
    next => cases gone
    next => cases gone
    all_goals
      next found =>
        cases gone
        exact ⟨place,_,located,found,rfl,find_drop⟩

lemma rmdir_ok (gone : t.rmdir p = .ok u) :
    ∃ place mode, t.locate p = .ok place ∧ t.find place.path = some (.dir mode) ∧
    (∀ m, place.path ++ [m] ∉ t.nodes) ∧ u.find = update t.find place.path none := by
  rw [rmdir] at gone
  split at gone
  next => cases gone
  next place located =>
    split at gone
    next => cases gone
    next => cases gone
    next => cases gone
    next mode found =>
      split at gone
      next none =>
        cases gone
        exact ⟨place,mode,located,found,empty_iff.mp none,find_drop⟩
      next => cases gone

lemma append_ok (written : t.append p n data = .ok u) : ∃ mode old,
    t.find (p ++ [n]) = some (.file mode old) ∧
      u.find = update t.find (p ++ [n]) (some (.file mode (old ++ data))) := by
  rw [append] at written
  split at written
  next mode old found =>
    cases written
    exact ⟨mode,old,found,find_put⟩
  next => cases written

lemma chmod_ok (changed : t.chmod p mode = .ok u) : ∃ place old data, t.locate p = .ok place ∧
    t.find place.path = some (.file old data) ∧ u.find = update t.find place.path (some (.file mode data)) := by
  rw [chmod] at changed
  split at changed
  next => cases changed
  next place located =>
    split at changed
    next old data found =>
      cases changed
      exact ⟨place,old,data,located,found,find_put⟩
    next => cases changed
    next => cases changed

lemma rename_ok (moved : t.rename p q = .ok u) :
    ∃ source target node, t.locate p = .ok source ∧ t.locate q = .ok target ∧
    t.find source.path = some node ∧ (∀ mode, t.find target.path ≠ some (.dir mode)) ∧
    (source.path = target.path ∧ u = t ∨
      source.path ≠ target.path ∧
        u.find = update (update t.find target.path (some node)) source.path none) := by
  rw [rename] at moved
  split at moved
  next => cases moved
  next => cases moved
  next source target located located' =>
    split at moved
    next => cases moved
    next node found =>
      split at moved
      next => cases moved
      next file =>
        refine ⟨source,target,node,located,located',found,fun mode other => file (.inr ⟨_,other,rfl⟩),?_⟩
        split at moved
        next same => exact .inl ⟨same,(Except.ok.inj moved).symm⟩
        next other =>
          cases moved
          refine .inr ⟨other,?_⟩
          rw [find_drop,find_put]
          rfl

/-- No name stands for another place, and no link lies on the way. -/
structure Plain (t : Tree) (p : Path) : Prop where
  some_name : p ≠ []
  proper : ∀ n ∈ p, n ≠ [] ∧ n ≠ dot ∧ n ≠ dotdot
  no_link : ∀ {q r target}, p = q ++ r → r ≠ [] → t.find q ≠ some (.link target)

lemma Plain.split (plain : t.Plain p) : ∃ q n, p = q ++ [n] := (eq_nil_or_concat' p).resolve_left plain.some_name

section
variable (enough : rest.length ≤ budget) (proper : ∀ n ∈ rest, n ≠ [] ∧ n ≠ dot ∧ n ≠ dotdot)
include enough proper

lemma walk_plain
    (noLink : ∀ q r target, rest = q ++ r → t.find (cwd ++ q) ≠ some (.link target))
    (walked : t.walk budget cwd rest = .ok p) :
    p = cwd ++ rest := by
  induction rest generalizing budget cwd with
  | nil =>
    cases budget <;> cases walked <;> simp
  | cons n rest ih =>
    obtain ⟨budget,rfl⟩ : ∃ k, budget = k + 1 := ⟨budget - 1,by simp at enough; omega⟩
    obtain ⟨some_,notDot,notDotdot⟩ := proper n (by simp)
    rw [walk,if_neg (by simp [some_,notDot]),if_neg notDotdot] at walked
    split at walked
    next => cases walked
    next => cases walked
    next =>
      rw [ih (by simpa using enough) (fun m member => proper m (by simp [member])) (fun q r target split => ?_) walked]
      · simp
      · have whole := noLink (n :: q) r target (by simp [split])
        simpa using whole
    next target found => exact absurd found (noLink [n] rest target rfl)

lemma walk_reaches (found : t.find (cwd ++ rest) = some (.dir mode)) :
    t.walk budget cwd rest = .ok (cwd ++ rest) := by
  induction rest generalizing budget cwd with
  | nil => cases budget <;> simp [walk]
  | cons n rest ih =>
    obtain ⟨budget,rfl⟩ : ∃ k, budget = k + 1 := ⟨budget - 1,by simp at enough; omega⟩
    obtain ⟨some_,notDot,notDotdot⟩ := proper n (by simp)
    have split : cwd ++ n :: rest = cwd ++ [n] ++ rest := by simp
    rw [walk,if_neg (by simp [some_,notDot]),if_neg notDotdot]
    obtain ⟨mode',dir⟩ : ∃ mode, t.find (cwd ++ [n]) = some (.dir mode) := by
      by_cases last : rest = []
      · exact ⟨mode,by simpa [last] using found⟩
      · exact above (by rw [← split,found]; simp) last
    rw [dir,split]
    exact ih (by simpa using enough) (fun m member => proper m (by simp [member])) (split ▸ found)

end

lemma Plain.path (plain : t.Plain p) (located : t.locate p = .ok place) : place.path = p := by
  obtain ⟨q,n,rfl⟩ := plain.split
  rw [locate,getLast?_concat] at located
  dsimp only at located
  split at located
  next => cases located
  next dir walked =>
    cases located
    rw [dropLast_concat] at walked
    have reached : dir = [] ++ q := by
      refine walk_plain (by simp; omega) (fun n member => plain.proper n (by simp [member]))
        (fun a b target split => ?_) walked
      exact plain.no_link (r := b ++ [n]) (by simp [split]) (by simp)
    exact congrArg (· ++ [n]) reached

lemma Plain.located (plain : t.Plain (q ++ [n])) (dir : t.find q = some (.dir mode)) :
    ∃ place, t.locate (q ++ [n]) = .ok place := by
  have walked : t.walk ((q ++ [n]).length + maxWalk) [] (q ++ [n]).dropLast = .ok q := by
    rw [dropLast_concat]
    exact walk_reaches (by simp; omega) (fun m member => plain.proper m (by simp [member])) dir
  rw [locate,getLast?_concat]
  dsimp only
  split
  next failed => cases failed.symm.trans walked
  next => exact ⟨_,rfl⟩

def orSame (t : Tree) : Except Errno Tree → Tree
  | .ok u => u
  | .error _ => t

def Sub (u t : Tree) : Prop := ∀ p node, u.find p = some node → t.find p = some node

lemma Sub.trans (first : Sub v u) (second : Sub u t) : Sub v t := fun p node found => second p node (first p node found)

lemma Plain.sub (plain : t.Plain p) (sub : Sub u t) : u.Plain p :=
  ⟨plain.some_name,plain.proper,fun split more found => plain.no_link split more (sub _ _ found)⟩

def Removes (p : Path) (call : Tree → Except Errno Tree) : Prop := ∀ {t : Tree}, t.Plain p → ∀ {u}, call t = .ok u →
  u.find = update t.find p none

lemma removes_unlink : Removes p (·.unlink p) := by
  intro t plain u gone
  obtain ⟨place,_,located,-,-,found⟩ := unlink_ok gone
  rwa [plain.path located] at found

lemma removes_rmdir : Removes p (·.rmdir p) := by
  intro t plain u gone
  obtain ⟨place,_,located,-,-,found⟩ := rmdir_ok gone
  rwa [plain.path located] at found

lemma Removes.find (removes : Removes p call) (plain : t.Plain p) :
    (t.orSame (call t)).find = t.find ∨ (t.orSame (call t)).find = update t.find p none := by
  cases result : call t with
  | error e => exact .inl rfl
  | ok u => exact .inr (removes plain result)

lemma Removes.sub (removes : Removes p call) (plain : t.Plain p) : Sub (t.orSame (call t)) t := by
  intro q node found
  rcases removes.find plain with same | gone
  · rwa [same] at found
  rw [gone] at found
  by_cases here : q = p
  · simp [here] at found
  · rwa [update_of_ne here] at found

lemma Plain.lstat (plain : t.Plain p) (found : t.lstat p = .ok node) : t.find p = some node := by
  obtain ⟨place,located,there⟩ := lstat_ok.mp found
  rwa [plain.path located] at there

lemma Plain.place (plain : t.Plain p) (found : t.find p ≠ none) : ∃ place, t.locate p = .ok place := by
  obtain ⟨q,n,rfl⟩ := plain.split
  obtain ⟨mode,dir⟩ := parent found
  exact plain.located dir

end Tree
end UbixOS.Library.Files
