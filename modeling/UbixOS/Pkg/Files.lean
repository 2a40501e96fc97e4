import UbixOS.Pkg.Manifest

/-! The list of a package's files in the database, as it is written and as it is read back
(usr.sbin/pkg/db.c). -/
namespace UbixOS.Pkg

open List (cons_append cons mem_map nil_append append_assoc mem_append mem_cons prefix_append)

open Library Library.Files

variable {e : MEntry} {m : PkgManifest}

structure FRec where
  type : Kind
  mode : Nat
  hex : Bytes
  path : Rel
  target : Option Bytes
  deriving DecidableEq

def dash : Bytes := [45]

def Kind.letter : Kind → UInt8
  | .file => 70
  | .dir => 68
  | .link => 76

def MEntry.hex (e : MEntry) : Bytes := if e.type = .file then hexEncode e.sha256 else dash

/-- A line of `db_write_files`. -/
def MEntry.fileLine (e : MEntry) : Bytes :=
  [e.type.letter,space] ++ (Text.padded 4 8 e.mode ++ [space] ++ (e.hex ++ [space] ++
    (text e.path.val ++ if e.type = .link then arrow ++ e.target else [])))

def writeFiles (m : Manifest) : Bytes := Text.unlines newline (m.entries.map MEntry.fileLine)

def isSpace (b : UInt8) : Bool := b = space ∨ 9 ≤ b ∧ b ≤ 13

def isOctal (b : UInt8) : Bool := (Text.digit 8 b).isSome

/-- The digits of `strtoul` in base 8, with its sign. -/
def unsign : Bytes → Bool × Bytes
  | 45 :: p => (true,p)
  | 43 :: p => (false,p)
  | p => (false,p)

/-- `strtoul` in base 8, cut to 32 bits. -/
def strtoul8 (s : Bytes) : Option (Nat × Bytes) :=
  let (negative,p) := unsign (s.dropWhile isSpace)
  let digits := p.takeWhile isOctal
  if digits = [] then none
  else
    let v := match Text.number 8 (2 ^ 64 - 1) digits with
      | none => 2 ^ 64 - 1
      | some v => if negative then (2 ^ 64 - v) % 2 ^ 64 else v
    some (v % 2 ^ 32,p.dropWhile isOctal)

def letterKind (b : UInt8) : Option Kind :=
  if b = 70 then some .file
  else if b = 68 then some .dir
  else if b = 76 then some .link
  else none

/-- The path of a line, and the target of a link. -/
def splitTarget (type : Kind) (p : Bytes) : Bytes × Option Bytes :=
  match type, Text.cut arrow p with
  | .link, some (path,target) => (path,some target)
  | _, _ => (p,none)

/-- `parse_frec` after the type and the mode. -/
def parseRest (type : Kind) (mode : Nat) (p : Bytes) : Option FRec :=
  let hex := p.takeWhile (· ≠ space)
  match p.dropWhile (· ≠ space) with
  | [] => none
  | _ :: p =>
    if hex.length ≥ 65 then none
    else
      let (p,target) := splitTarget type p
      let path := p.splitOn Tree.slash
      if safe : Safe path then some ⟨type,mode,hex,⟨path,safe⟩,target⟩ else none

def parseFrec : Bytes → Option FRec
  | letter :: mark :: p =>
    if mark = space then do
      let type ← letterKind letter
      match ← strtoul8 p with
      | (mode,mark :: p) => if mark = space then parseRest type mode p else none
      | (_,[]) => none
    else none
  | _ => none

def recordLines (txt : Bytes) : List Bytes := (lines txt).filter fun l => l ≠ [] ∧ l.head? ≠ some 35

/-- `read_flist_at`, for the text of the file. -/
def readFlist (txt : Bytes) : Option (List FRec) :=
  if txt.length > PKG_MANIFEST_MAX then none else (recordLines txt).mapM parseFrec

def MEntry.frec (e : MEntry) : FRec :=
  ⟨e.type,e.mode,e.hex,e.path,if e.type = .link then some e.target else none⟩

lemma octal_digit (octal : isOctal b = true) : isSpace b = false ∧ b ≠ 45 ∧ b ≠ 43 := by
  have range : 48 ≤ b.toNat := by
    simp only [isOctal,Text.digit] at octal
    split at octal
    next is => exact is.1
    next => cases octal
  refine ⟨Bool.eq_false_iff.mpr fun blank => ?_,?_,?_⟩
  · simp only [isSpace,decide_eq_true_eq] at blank
    rcases blank with rfl | ⟨-,below⟩
    · simp [space] at range
    have high := UInt8.le_iff_toNat_le.mp below
    simp at high
    omega
  · rintro rfl
    simp at range
  · rintro rfl
    simp at range

lemma strtoul8_digits (some_ : ds ≠ []) (octal : ∀ b ∈ ds, isOctal b = true)
    (value : Text.number 8 (2 ^ 64 - 1) ds = some n) (small : n < 2 ^ 32) :
    strtoul8 (ds ++ space :: rest) = some (n,space :: rest) := by
  obtain ⟨c,ds,rfl⟩ := List.exists_cons_of_ne_nil some_
  obtain ⟨visible,minus,plus⟩ := octal_digit (octal c List.mem_cons_self)
  have skip : ((c :: ds) ++ space :: rest).dropWhile isSpace = c :: ds ++ space :: rest := by
    simp [visible]
  have sign : unsign (c :: ds ++ space :: rest) = (false,c :: ds ++ space :: rest) := by
    rw [cons_append,unsign]
    · rintro _ same
      exact minus (cons.inj same).1
    · rintro _ same
      exact plus (cons.inj same).1
  have stop : isOctal space = false := by decide
  rw [strtoul8,skip,sign]
  dsimp only
  rw [Text.takeWhile_word octal stop,Text.dropWhile_word octal stop,if_neg some_,value]
  dsimp only
  rw [if_neg (by decide),Nat.mod_eq_of_lt small]

lemma strtoul8_padded (small : n < 2 ^ 32) :
    strtoul8 (Text.padded 4 8 n ++ space :: rest) = some (n,space :: rest) := by
  refine strtoul8_digits ?_ (fun b inside => ?_) (Text.number_padded (by decide) (by decide) (by omega)) small
  · simp [Text.padded,Text.numeral_ne_nil]
  · obtain ⟨d,is⟩ := Text.mem_padded (by decide) (by decide) inside
    simp [isOctal,is]

lemma mem_hexEncode (inside : b ∈ hexEncode l) : 48 ≤ b := by
  simp only [hexEncode,List.mem_flatMap,mem_map] at inside
  obtain ⟨c,-,d,digit,rfl⟩ := inside
  have low : d.toNat < 16 := by
    have byte := c.toNat_lt
    rcases List.mem_pair.mp digit with rfl | rfl
    · rw [UInt8.toNat_div]
      exact Nat.div_lt_of_lt_mul byte
    · rw [UInt8.toNat_mod]
      exact Nat.mod_lt _ (by decide)
  rw [UInt8.le_iff_toNat_le]
  split
  all_goals
    rw [UInt8.toNat_add]
    simp
    omega

lemma hexEncode_length (l : Bytes) : (hexEncode l).length = 2 * l.length := by
  induction l with
  | nil => rfl
  | cons b l ih =>
    rw [hexEncode,List.flatMap_cons,List.length_append,← hexEncode,ih]
    simp
    omega

lemma hex_word (accepted : e.Accepted) : (∀ b ∈ e.hex, b ≠ space ∧ 32 ≤ b) ∧ e.hex.length < 65 := by
  rw [MEntry.hex]
  split
  next =>
    refine ⟨fun b inside => ?_,?_⟩
    · have high := mem_hexEncode inside
      refine ⟨?_,UInt8.le_trans (by decide) high⟩
      rintro rfl
      exact absurd high (by decide)
    · simp [hexEncode_length,accepted.sha256,PKG_SHA256_LEN]
  next => simp [dash,space]

/-- The link can be told from its target: its path does not end in the beginning of an arrow. -/
def MEntry.Legible (e : MEntry) : Prop := e.type = .link → ¬[32,45,62] <:+ text e.path.val

lemma splitTarget_line (accepted : e.Accepted) (legible : e.Legible) :
    splitTarget e.type (text e.path.val ++ if e.type = .link then arrow ++ e.target else []) =
      (text e.path.val,if e.type = .link then some e.target else none) := by
  cases type : e.type with
  | file | dir => simp [splitTarget]
  | link =>
    simp only [if_true]
    have found : Text.cut arrow (text e.path.val ++ (arrow ++ e.target)) = some (text e.path.val,e.target) := by
      refine Text.cut_append (by simp [arrow]) fun b a split more here => ?_
      -- An earlier place begins in the path, and ends in it or in the arrow.
      rcases a with _ | ⟨x,_ | ⟨y,_ | ⟨z,_ | ⟨w,a⟩⟩⟩⟩
      · exact more rfl
      · simp [arrow] at here
      · simp [arrow] at here
      · simp only [arrow,cons_append,nil_append,List.cons_prefix_cons] at here
        obtain ⟨rfl,rfl,rfl,-⟩ := here
        exact legible type ⟨b,split.symm⟩
      · refine (accepted.link type).2.1 b _ split ?_
        simp only [arrow,cons_append,List.cons_prefix_cons] at here ⊢
        exact ⟨here.1,here.2.1,here.2.2.1,here.2.2.2.1,List.nil_prefix⟩
    simp only [splitTarget,found]

lemma parseRest_line (accepted : e.Accepted) (legible : e.Legible) :
    parseRest e.type e.mode (e.hex ++ space :: (text e.path.val ++ if e.type =
      .link then arrow ++ e.target else [])) = some e.frec := by
  obtain ⟨word,short⟩ := hex_word accepted
  have inner b (inside : b ∈ e.hex) : decide (b ≠ space) = true := by simpa using (word b inside).1
  have stop : decide (space ≠ space) = false := by simp
  have safe : Safe ((text e.path.val).splitOn Tree.slash) := by
    rw [e.path.property.components]
    exact e.path.property
  rw [parseRest]
  rw [Text.takeWhile_word inner stop,Text.dropWhile_word inner stop]
  dsimp only
  rw [if_neg (by omega),splitTarget_line accepted legible]
  rw [dif_pos safe]
  simp only [e.path.property.components]
  rfl

lemma letterKind_letter (type : Kind) : letterKind type.letter = some type := by cases type <;> rfl

lemma parseFrec_line (accepted : e.Accepted) (legible : e.Legible) : parseFrec e.fileLine = some e.frec := by
  have small : e.mode < 2 ^ 32 := lt_of_le_of_lt accepted.mode (by decide)
  simp only [MEntry.fileLine,append_assoc,cons_append,nil_append,parseFrec,if_true,letterKind_letter,
    strtoul8_padded small,Option.bind_eq_bind,Option.bind_some]
  exact parseRest_line accepted legible

lemma fileLine_clean (accepted : e.Accepted) : newline ∉ e.fileLine ∧ 0 ∉ e.fileLine := by
  have hex : newline ∉ e.hex ∧ 0 ∉ e.hex :=
    ⟨fun inside => absurd ((hex_word accepted).1 _ inside).2 (by decide),fun inside =>
      absurd ((hex_word accepted).1 _ inside).2 (by decide)⟩
  have digits : newline ∉ Text.padded 4 8 e.mode ∧ 0 ∉ Text.padded 4 8 e.mode := by
    constructor
    all_goals
      intro inside
      obtain ⟨d,is⟩ := Text.mem_padded (by decide) (by decide) inside
      exact absurd is (by decide +revert)
  have letter : newline ≠ e.type.letter ∧ 0 ≠ e.type.letter := by cases e.type <;> decide
  have target : newline ∉ (if e.type = .link then arrow ++ e.target else []) ∧
    0 ∉ (if e.type = .link then arrow ++ e.target else []) := by
    split
    next link =>
      have inner := (accepted.link link).2.2
      simpa [arrow,newline] using inner
    next => simp
  have path := e.path.property.clean
  constructor
  · simp only [MEntry.fileLine,mem_append,mem_cons,List.not_mem_nil,or_false,not_or]
    exact ⟨⟨letter.1,by decide⟩,⟨digits.1,by decide⟩,⟨hex.1,by decide⟩,path.1,target.1⟩
  · simp only [MEntry.fileLine,mem_append,mem_cons,List.not_mem_nil,or_false,not_or]
    exact ⟨⟨letter.2,by decide⟩,⟨digits.2,by decide⟩,⟨hex.2,by decide⟩,path.2,target.2⟩

lemma recordLines_write {entries : List MEntry} (accepted : ∀ e ∈ entries, e.Accepted) :
    recordLines (Text.unlines newline (entries.map MEntry.fileLine)) = entries.map MEntry.fileLine := by
  rw [recordLines,lines_unlines]
  · refine List.filter_eq_self.mpr fun l inside => ?_
    obtain ⟨e,-,rfl⟩ := mem_map.mp inside
    rw [MEntry.fileLine]
    cases e.type <;> simp [Kind.letter]
  · intro l inside
    obtain ⟨e,member,rfl⟩ := mem_map.mp inside
    exact fileLine_clean (accepted e member)

lemma parseRest_path (word : ∀ b ∈ hex, b ≠ space)
    (found : parseRest type mode (hex ++ space :: p) = some r) : (splitTarget type p).1 = text r.path.val := by
  have inner b (inside : b ∈ hex) : decide (b ≠ space) = true := by simpa using word b inside
  rw [parseRest] at found
  rw [Text.dropWhile_word inner (by simp)] at found
  dsimp only at found
  split_ifs at found
  cases found
  exact (text_splitOn _).symm

/-- A line that reads back as its entry has no earlier arrow. -/
lemma legible_of_parse (accepted : e.Accepted) (found : parseFrec e.fileLine = some e.frec) : e.Legible := by
  intro type ⟨b,split⟩
  have small : e.mode < 2 ^ 32 := lt_of_le_of_lt accepted.mode (by decide)
  simp only [MEntry.fileLine,append_assoc,cons_append,nil_append,parseFrec,if_true,letterKind_letter,
    strtoul8_padded small,Option.bind_eq_bind,Option.bind_some] at found
  have same := parseRest_path (fun b inside => ((hex_word accepted).1 b inside).1) found
  rw [type,if_pos rfl] at same
  cases cut : Text.cut arrow (text e.path.val ++ (arrow ++ e.target)) with
  | none =>
    simp only [splitTarget,cut] at same
    have length := congrArg List.length same
    simp [arrow,MEntry.frec] at length
  | some parts =>
    simp only [splitTarget,cut] at same
    refine Text.cut_before cut b [32,45,62] (same.trans split.symm) (by simp) ?_
    simp [arrow]

/-- The list of an accepted manifest is read back as its entries, unless it is too long or a
link's path runs into the arrow. -/
lemma readFlist_write (accepted : ∀ e ∈ m.entries, e.Accepted) :
    readFlist (writeFiles m.toManifest) = some (m.entries.map MEntry.frec) ↔
      (writeFiles m.toManifest).length ≤ PKG_MANIFEST_MAX ∧ ∀ e ∈ m.entries, e.Legible := by
  have read : (recordLines (writeFiles m.toManifest)).mapM parseFrec = some (m.entries.map MEntry.frec) ↔
    ∀ e ∈ m.entries, e.Legible := by
    rw [writeFiles,recordLines_write accepted,List.mapM_map,Text.mapM_eq_map]
    exact ⟨fun parsed e inside => legible_of_parse (accepted e inside) (parsed e inside),
      fun legible e inside => parseFrec_line (accepted e inside) (legible e inside)⟩
  rw [readFlist]
  split
  next long => simp [Nat.not_le_of_lt long]
  next short => simp [read,Nat.le_of_not_lt short]

lemma text_append (some_ : p ≠ []) (more : r ≠ []) : text (p ++ r) = text p ++ Tree.slash :: text r := by
  induction p with
  | nil => exact absurd rfl some_
  | cons n p ih =>
    cases p with
    | nil =>
      obtain ⟨a,r,rfl⟩ := List.exists_cons_of_ne_nil more
      simp [text,List.intercalate_cons_cons]
    | cons n' p =>
      have front l : text (n :: n' :: l) = n ++ [Tree.slash] ++ text (n' :: l) := List.intercalate_cons_cons
      have rest := ih (by simp)
      rw [cons_append] at rest
      rw [cons_append,cons_append,front,rest,front]
      simp

/-- The text before an arrow in a path without blanks in front holds that front. -/
lemma cut_behind (blank : space ∉ front) (found : Text.cut arrow (front ++ rest) = some (before,after)) :
    front <+: before := by
  have whole := Text.cut_some found
  have first : front <+: before ++ (arrow ++ after) := whole ▸ prefix_append front rest
  rcases List.prefix_or_prefix_of_prefix first (prefix_append before _) with inside | ⟨a,rfl⟩
  · exact inside
  obtain rfl : a = [] := by
    refine not_not.mp fun more => blank (List.mem_append_right _ ?_)
    obtain ⟨b,a,rfl⟩ := List.exists_cons_of_ne_nil more
    have here := (List.prefix_append_right_inj before).mp first
    rw [arrow,cons_append,List.cons_prefix_cons] at here
    simp [here.1,space]
  simp

/-- A list that was written for entries inside a directory names paths inside it, however its
lines are read. -/
lemma readFlist_inside {m : Manifest} (accepted : ∀ e ∈ m.entries, e.Accepted) (safe : Safe d) (blank : space ∉ text d)
    (inside : ∀ e ∈ m.entries, d <+: e.path.val ∧ d ≠ e.path.val) (read : readFlist (writeFiles m) = some fl)
    (listed : f ∈ fl) : d <+: f.path.val := by
  rw [readFlist] at read
  split at read
  next => cases read
  next =>
    rw [writeFiles,recordLines_write accepted] at read
    obtain ⟨line,written,parsed⟩ := (Text.mapM_mem read).1 _ listed
    obtain ⟨e,member,rfl⟩ := mem_map.mp written
    have small : e.mode < 2 ^ 32 := lt_of_le_of_lt (accepted e member).mode (by decide)
    simp only [MEntry.fileLine,append_assoc,cons_append,nil_append,parseFrec,if_true,letterKind_letter,
      strtoul8_padded small,Option.bind_eq_bind,Option.bind_some] at parsed
    have path := parseRest_path (fun b inside => ((hex_word (accepted e member)).1 b inside).1) parsed
    obtain ⟨⟨r,split⟩,inner⟩ := inside e member
    have front : text e.path.val = text d ++ [Tree.slash] ++ text r := by
      rw [← split,text_append safe.2.1 fun none => inner (by rw [← split,none,List.append_nil])]
      simp
    have held : text d ++ [Tree.slash] <+: text f.path.val := by
      rw [← path]
      simp only [splitTarget]
      split
      next before after found =>
        rw [front,append_assoc] at found
        refine cut_behind (fun mark => ?_) found
        rcases mem_append.mp mark with old | last
        · exact blank old
        · simp [space,Tree.slash] at last
      next =>
        rw [front,append_assoc]
        exact prefix_append _ _
    obtain ⟨rest,whole⟩ := held
    refine ⟨rest.splitOn Tree.slash,?_⟩
    rw [← f.path.property.components,← whole,append_assoc,List.singleton_append,List.splitOn_append_cons_self,
      safe.components]

end UbixOS.Pkg
