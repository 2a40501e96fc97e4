import Mathlib

/-! Reading of a FAT directory (`sys/fs/fat/fat_dir.c`, `fat_clust.c`) from media
that hold anything. `iterStep` is one turn of the loop of `fat_dir_iter_next`: it
reads one 32-byte slot. The name buffer is memory addressed from `lfn[0]`, and a
turn reports the offsets it stores at. -/
namespace UbixOS.Fat

open List

inductive FatType
  | fat12 | fat16 | fat32
  deriving DecidableEq

abbrev Bytes := Nat → UInt8

/-- The part of `struct fat_fs` that reading uses; `device` is `fat_sector_read`, without bytes
where it fails. -/
structure Fs where
  device : UInt32 → Option Bytes
  type : FatType
  sectorsPerCluster : UInt8
  fatBeginLba : UInt32
  rootLba : UInt32
  rootSectors : UInt32
  dataLba : UInt32

def clusterEoc : UInt32 := 0x0FFFFFFF

def fatClusterToLba (fs : Fs) (cluster : UInt32) : UInt32 :=
  if cluster < 2 then 0
  else fs.dataLba + ((cluster - 2).toUInt64 * fs.sectorsPerCluster.toUInt64).toUInt32

def le16 (low high : UInt8) : UInt32 := low.toUInt32 ||| high.toUInt32 <<< 8

def fat12Entry (cluster word : UInt32) : UInt32 :=
  let entry := if cluster &&& 1 ≠ 0 then word >>> 4 else word &&& 0x0FFF
  if 0xFF8 ≤ entry then clusterEoc else entry

def fatClusterNext (fs : Fs) (cluster : UInt32) : UInt32 :=
  let offset := match fs.type with
    | .fat12 => cluster + cluster / 2
    | .fat16 => cluster * 2
    | .fat32 => cluster * 4
  let sector := fs.fatBeginLba + offset / 512
  let i := (offset % 512).toNat
  match fs.device sector with
  | none => 0
  | some buf =>
    match fs.type with
    | .fat12 =>
      if i = 511 then
        match fs.device (sector + 1) with
        | none => 0
        | some buf2 => fat12Entry cluster (le16 (buf 511) (buf2 0))
      else fat12Entry cluster (le16 (buf i) (buf (i + 1)))
    | .fat16 =>
      let entry := le16 (buf i) (buf (i + 1))
      if 0xFFF8 ≤ entry then clusterEoc else entry
    | .fat32 =>
      let entry := (le16 (buf i) (buf (i + 1)) ||| le16 (buf (i + 2)) (buf (i + 3)) <<< 16) &&& 0x0FFFFFFF
      if 0x0FFFFFF8 ≤ entry then clusterEoc else entry

/-- A slot of a directory; cluster 0 is the root region of FAT12 and FAT16. -/
structure Pos where
  cluster : UInt32
  sectorInCluster : Nat
  entryOffset : Nat
  deriving DecidableEq

structure Iter extends Pos where
  lfn : Int → UInt8
  lfnChecksum : UInt8

def iterSector (fs : Fs) (p : Pos) : UInt32 :=
  if p.cluster = 0 then fs.rootLba + UInt32.ofNat p.sectorInCluster
  else fatClusterToLba fs p.cluster + UInt32.ofNat p.sectorInCluster

/-- The sectors of the root region, or of a cluster. -/
def Pos.limit (fs : Fs) (p : Pos) : Nat :=
  if p.cluster = 0 then fs.rootSectors.toNat else fs.sectorsPerCluster.toNat

def iterAdvance (fs : Fs) (p : Pos) : Bool × Pos :=
  if p.entryOffset + 32 < 512 then (true,{p with entryOffset := p.entryOffset + 32})
  else if p.sectorInCluster + 1 < p.limit fs then (true,⟨p.cluster,p.sectorInCluster + 1,0⟩)
  else
    let next := fatClusterNext fs p.cluster
    if p.cluster = 0 ∨ next = clusterEoc ∨ next < 2 then (false,⟨p.cluster,p.sectorInCluster + 1,0⟩)
    else (true,⟨next,0,0⟩)

def fatDirIterOpen (cluster : UInt32) : Iter := ⟨⟨cluster,0,0⟩,fun _ => 0,0⟩

inductive Slot
  | last | deleted | long | label | entry
  deriving DecidableEq

def classify (raw : Bytes) : Slot :=
  if raw 0 = 0x00 then .last
  else if raw 0 = 0xE5 then .deleted
  else if raw 11 = 0x0F ∧ raw 26 = 0 ∧ raw 27 = 0 then .long
  else if raw 11 &&& 0x08 ≠ 0 ∧ raw 11 &&& 0x10 = 0 then .label
  else .entry

def sfnChecksum (sfn : Bytes) : UInt8 :=
  (range 11).foldl (fun sum i => (if sum &&& 1 ≠ 0 then 0x80 else 0 : UInt8) + (sum >>> 1) + sfn i) 0

def tolower (c : UInt8) : UInt8 := if 65 ≤ c ∧ c ≤ 90 then c + 32 else c

/-- The bytes that `sfn_to_name` stores, with the final NUL. -/
def sfnToName (sfn : Bytes) : List UInt8 :=
  let part (start len : Nat) (flag : UInt8) :=
    (((range len).map (fun i => sfn (start + i))).rdropWhile (· = 32)).map
      fun c => if sfn 12 &&& flag ≠ 0 then tolower c else c
  let ext := part 8 3 0x10
  part 0 8 0x08 ++ (if ext = [] then [] else 46 :: ext) ++ [0]

def cString (bytes : List UInt8) : List UInt8 := bytes.takeWhile (· ≠ 0)

def fatNamesEqual (a b : List UInt8) : Bool := (cString a).map tolower = (cString b).map tolower

def lfnOffsets : List Nat := [1,3,5,7,9,14,16,18,20,22,24,28,30]

def lfnExtractChars (raw : Bytes) (i : Nat) : UInt8 :=
  let offset := lfnOffsets.getD i 0
  let uc := le16 (raw offset) (raw (offset + 1))
  if uc = 0xFFFF ∨ uc = 0 then 0 else if 0x7F < uc then 63 else (uc &&& 0x7F).toUInt8

/-- Where the characters of a long-name slot go: `(seq_num - 1) * 13`, signed. -/
def lfnPos (raw : Bytes) : Int := ((raw 0 &&& 0x1F).toNat - 1 : Int) * 13

def lfnPlaces (raw : Bytes) : List Int :=
  ((range 13).map fun i => lfnPos raw + (i : Int)).filter (· < 255)

namespace Iter

def clear (it : Iter) : Iter := {it with lfn := Function.update it.lfn 0 0}

def addLong (it : Iter) (raw : Bytes) : Iter :=
  let first := raw 0 &&& 0x40 ≠ 0
  let kept := if first then fun i => if 0 ≤ i ∧ i < 256 then 0 else it.lfn i else it.lfn
  {it with
    lfnChecksum := if first then raw 13 else it.lfnChecksum
    lfn := fun i => if i ∈ lfnPlaces raw then lfnExtractChars raw (i - lfnPos raw).toNat else kept i}

/-- `strncpy(name_out, it->lfn, 255)` pads with NULs up to the last one. -/
def longName (it : Iter) : List UInt8 :=
  let name := cString ((range 255).map fun i : Nat => it.lfn i)
  name ++ replicate (256 - name.length) 0

end Iter

def longWrites (raw : Bytes) : List Int :=
  (if raw 0 &&& 0x40 ≠ 0 then (range 256).map fun i : Nat => (i : Int) else []) ++ lfnPlaces raw

/-- What a call hands out; `slot` is where in the directory it was found. -/
structure Entry where
  name : List UInt8
  raw : Bytes
  sector : UInt32
  slot : Pos

/-- The outcome of a turn or a call: `result` is `none` while the loop goes on, `some none` for
the return value -1. -/
structure Turn where
  result : Option (Option Entry)
  it : Iter
  writes : List Int

def slotAt (fs : Fs) (p : Pos) : Option Bytes :=
  (fs.device (iterSector fs p)).map fun buf i => buf (p.entryOffset + i)

def skip (fs : Fs) (it : Iter) (writes : List Int) : Turn :=
  let moved := iterAdvance fs it.toPos
  ⟨if moved.1 then none else some none,{it with toPos := moved.2},writes⟩

def iterStep (fs : Fs) (it : Iter) : Turn :=
  match slotAt fs it.toPos with
  | none => ⟨some none,it,[]⟩
  | some raw =>
    match classify raw with
    | .last => ⟨some none,it,[]⟩
    | .deleted => skip fs it.clear [0]
    | .long => skip fs (it.addLong raw) (longWrites raw)
    | .label => skip fs it.clear [0]
    | .entry =>
      let long := it.lfn 0 ≠ 0 ∧ sfnChecksum raw = it.lfnChecksum
      let name := if long then it.longName else sfnToName raw
      -- a failed advance is ignored: the entry is already there
      ⟨some (some ⟨name,raw,iterSector fs it.toPos,it.toPos⟩),
        {it.clear with toPos := (iterAdvance fs it.toPos).2},[0]⟩

/-- A returned call: its result, the iterator it leaves, and where it stored. -/
structure Call where
  result : Option Entry
  it : Iter
  writes : List Int

/-- At most `fuel` turns, so at most that many directory sectors. -/
def fatDirIterNext (fs : Fs) : Nat → Iter → Option Call
  | 0, _ => none
  | fuel+1, it =>
    let turn := iterStep fs it
    match turn.result with
    | some result => some ⟨result,turn.it,turn.writes⟩
    | none => (fatDirIterNext fs fuel turn.it).map fun c => {c with writes := turn.writes ++ c.writes}

def findFrom (fs : Fs) (name : List UInt8) : Nat → Iter → Option (Option Entry)
  | 0, _ => none
  | fuel+1, it =>
    match fatDirIterNext fs (fuel + 1) it with
    | none => none
    | some ⟨none,_,_⟩ => some none
    | some ⟨some e,it,_⟩ => if fatNamesEqual e.name name then some (some e) else findFrom fs name fuel it

def fatDirFind (fs : Fs) (fuel : Nat) (cluster : UInt32) (name : List UInt8) : Option (Option Entry) :=
  findFrom fs name fuel (fatDirIterOpen cluster)

inductive Calls (fs : Fs) : Iter → List Call → Prop
  | nil (it : Iter) : Calls fs it []
  | cons {it : Iter} {c : Call} {cs : List Call} (fuel : Nat) (returned : fatDirIterNext fs fuel it = some c)
      (rest : Calls fs c.it cs) : Calls fs it (c :: cs)

/-- The clusters of the chain that starts at `start`. -/
inductive OnChain (fs : Fs) (start : UInt32) : UInt32 → Prop
  | start : OnChain fs start start
  | next {c : UInt32} (before : OnChain fs start c) (inData : c ≠ 0)
      (more : fatClusterNext fs c ≠ clusterEoc ∧ ¬fatClusterNext fs c < 2) :
      OnChain fs start (fatClusterNext fs c)

/-- A slot of a sector that belongs to the root region or to a data cluster. -/
def Inside (fs : Fs) (p : Pos) : Prop := p.cluster ≠ 1 ∧ p.sectorInCluster < p.limit fs

structure Stored (fs : Fs) (start : UInt32) (e : Entry) : Prop where
  chain : OnChain fs start e.slot.cluster
  inside : Inside fs e.slot
  whole : e.slot.entryOffset + 32 ≤ 512
  sector : e.sector = iterSector fs e.slot
  raw : slotAt fs e.slot = some e.raw

structure Safe (fs : Fs) (start : UInt32) : Prop where
  returns : ∀ n, ∃ cs, Calls fs (fatDirIterOpen start) cs ∧ cs.length = n
  finds : ∀ name, ∃ fuel found, fatDirFind fs fuel start name = some found ∧
    ∀ e ∈ found, Stored fs start e ∧ fatNamesEqual e.name name
  writes : ∀ cs, Calls fs (fatDirIterOpen start) cs → ∀ c ∈ cs, ∀ i ∈ c.writes, 0 ≤ i ∧ i < 256
  stored : ∀ cs, Calls fs (fatDirIterOpen start) cs →
    ∀ e ∈ cs.filterMap (·.result), Stored fs start e ∧ e.name.length ≤ 256
  once : ∀ cs, Calls fs (fatDirIterOpen start) cs → ((cs.filterMap (·.result)).map (·.slot)).Nodup

section Walk

variable {fs : Fs}

/-- The slot at which every further call returns -1: the end marker, or a sector that cannot be read. -/
def marked (fs : Fs) (p : Pos) : Bool := (slotAt fs p).all (classify · = .last)

/-- A turn at this slot returns. -/
def Halt (fs : Fs) (p : Pos) : Prop := marked fs p ∨ (iterAdvance fs p).1 = false

def move (fs : Fs) (p : Pos) : Pos := if marked fs p then p else (iterAdvance fs p).2

lemma sfnToName_length (raw : Bytes) : (sfnToName raw).length ≤ 256 := by
  have part (start len : Nat) : (((range len).map (fun i => raw (start + i))).rdropWhile (· = 32)).length ≤ len := by
    simpa using ( rdropWhile_prefix (· = 32) ((range len).map fun i => raw (start + i))).length_le
  have base := part 0 8
  have ext := part 8 3
  simp only [sfnToName,length_append]
  split_ifs <;> simp only [length_nil,length_cons,length_map] <;> omega

lemma Iter.longName_length (it : Iter) : it.longName.length ≤ 256 := by
  have cut := ( takeWhile_prefix (· ≠ 0) (l := (range 255).map fun i : Nat => it.lfn i)).length_le
  rw [length_map,length_range] at cut
  change (cString _).length ≤ 255 at cut
  simp only [Iter.longName,length_append,length_replicate]
  omega

structure TurnSpec (fs : Fs) (p : Pos) (turn : Turn) : Prop where
  moves : turn.it.toPos = move fs p
  halts : Halt fs p → turn.result ≠ none
  fails : turn.result = some none → Halt fs p
  entry : ∀ e, turn.result = some (some e) → e.slot = p ∧ e.sector = iterSector fs p ∧
    slotAt fs p = some e.raw ∧ classify e.raw = .entry ∧ e.name.length ≤ 256
  found : ∀ raw, slotAt fs p = some raw → classify raw = .entry → ∃ e, turn.result = some (some e)
  writes : ∀ i ∈ turn.writes, (0 ≤ i ∧ i < 256) ∨
    ∃ raw, slotAt fs p = some raw ∧ classify raw = .long ∧ i ∈ lfnPlaces raw
  places : ∀ raw, slotAt fs p = some raw → classify raw = .long → ∀ i ∈ lfnPlaces raw, i ∈ turn.writes

lemma skip_spec (same : it.toPos = p) (slot : slotAt fs p = some raw)
    (more : classify raw ≠ .last) (inside : ∀ i ∈ writes, (0 ≤ i ∧ i < 256) ∨ classify raw = .long ∧ i ∈ lfnPlaces raw)
    (places : classify raw = .long → ∀ i ∈ lfnPlaces raw, i ∈ writes) (other : classify raw ≠ .entry) :
    TurnSpec fs p (skip fs it writes) := by
  subst same
  have unmarked : marked fs it.toPos = false := by simpa [marked,slot] using more
  by_cases moved : (iterAdvance fs it.toPos).1 <;>
    constructor <;> simp_all [skip,move,Halt]

lemma iterStep_spec (fs : Fs) (it : Iter) : TurnSpec fs it.toPos (iterStep fs it) := by
  unfold iterStep
  cases slot : slotAt fs it.toPos with
  | none => constructor <;> simp [slot,move,Halt,marked]
  | some raw =>
    have zero : ∀ i ∈ [(0 : Int)], (0 ≤ i ∧ i < 256) ∨ classify raw = .long ∧ i ∈ lfnPlaces raw := by simp
    cases kind : classify raw with
    | last => constructor <;> simp [slot,kind,move,Halt,marked]
    | deleted | label =>
      simp only [kind]
      exact skip_spec rfl slot (by simp [kind]) zero (by simp [kind]) (by simp [kind])
    | long =>
      simp only [kind]
      refine skip_spec rfl slot (by simp [kind]) (fun i stored => ?_) (fun _ i place => mem_append_right _ place)
        (by simp [kind])
      rcases mem_append.mp stored with cleared | place
      · split_ifs at cleared
        · obtain ⟨k,bound,rfl⟩ := mem_map.mp cleared
          have below := mem_range.mp bound
          exact .inl ⟨by omega,by omega⟩
        · simp at cleared
      · exact .inr ⟨kind,place⟩
    | entry =>
      constructor <;> simp [slot,kind,move,marked]
      split_ifs
      exacts [it.longName_length,sfnToName_length raw]

/-- The iterator before turn `k`: the next call goes on where the last one stopped, whatever it returned. -/
def after (fs : Fs) (k : Nat) (it : Iter) : Iter := (fun it => (iterStep fs it).it)^[k] it

def trace (fs : Fs) (n : Nat) (it : Iter) : List Turn :=
  (range n).map fun k => iterStep fs (after fs k it)

lemma after_add (m n : Nat) (it : Iter) : after fs (m + n) it = after fs n (after fs m it) := by
  rw [after,Nat.add_comm,Function.iterate_add_apply,after,after]

@[simp] lemma after_one (it : Iter) : after fs 1 it = (iterStep fs it).it := rfl

lemma after_pos (k : Nat) (it : Iter) : (after fs k it).toPos = (move fs)^[k] it.toPos := by
  induction k with
  | zero => rfl
  | succ k ih =>
    rw [Function.iterate_succ_apply',← ih,after,Function.iterate_succ_apply']
    exact (iterStep_spec fs _).moves

lemma trace_add (m n : Nat) (it : Iter) : trace fs (m + n) it = trace fs m it ++ trace fs n (after fs m it) := by
  simp [trace,range_add,after_add]

lemma trace_one (it : Iter) : trace fs 1 it = [iterStep fs it] := rfl

/-- A call is a stretch of turns of which only the last returns. -/
lemma fatDirIterNext_spec (returned : fatDirIterNext fs fuel it = some c) :
    ∃ n, 0 < n ∧ c.it = after fs n it ∧ c.writes = (trace fs n it).flatMap (·.writes) ∧
      c.result.toList = (trace fs n it).filterMap (·.result.join) ∧
      (c.result = none → ∃ k, Halt fs ((move fs)^[k] it.toPos)) := by
  induction fuel generalizing it c with
  | zero => cases returned
  | succ fuel ih =>
    have spec := iterStep_spec fs it
    simp only [fatDirIterNext] at returned
    cases result : (iterStep fs it).result with
    | some done =>
      simp only [result,Option.some.injEq] at returned
      subst returned
      refine ⟨1,Nat.one_pos,rfl,by simp [trace_one],?_,fun none => ⟨0,spec.fails (by simp_all)⟩⟩
      cases done <;> simp [trace_one,result]
    | none =>
      simp only [result,Option.map_eq_some_iff] at returned
      obtain ⟨d,rest,rfl⟩ := returned
      obtain ⟨n,_,last,writes,results,fails⟩ := ih rest
      refine ⟨1 + n,by omega,last.trans (after_add 1 n it).symm,?_,?_,fun none => ?_⟩
      · rw [trace_add,trace_one,flatMap_append,flatMap_singleton]
        exact congrArg _ writes
      · rw [trace_add,trace_one]
        simpa [result] using results
      · obtain ⟨k,halt⟩ := fails none
        exact ⟨k + 1,by rwa [Function.iterate_succ_apply,← spec.moves]⟩

lemma Calls.spec (calls : Calls fs it cs) : ∃ n, cs.length ≤ n ∧
    cs.flatMap (·.writes) = (trace fs n it).flatMap (·.writes) ∧
    cs.filterMap (·.result) = (trace fs n it).filterMap (·.result.join) ∧
    ((∀ k, ¬Halt fs ((move fs)^[k] it.toPos)) → (cs.filterMap (·.result)).length = cs.length) := by
  induction calls with
  | nil => exact ⟨0,by simp [trace]⟩
  | @cons it c cs fuel returned _ ih =>
    obtain ⟨m,positive,last,writes,results,fails⟩ := fatDirIterNext_spec returned
    obtain ⟨n,length,writes',results',all⟩ := ih
    rw [last] at writes' results' all
    have head : (c :: cs).filterMap (·.result) = c.result.toList ++ cs.filterMap (·.result) := by
      cases found : c.result <;> simp [found]
    refine ⟨m + n,by simp; omega,?_,?_,fun runs => ?_⟩
    · rw [trace_add,flatMap_append,flatMap_cons,writes,writes']
    · rw [trace_add,filterMap_append,head,results,results']
    have more := all fun k => by
      rw [after_pos,← Function.iterate_add_apply]
      exact runs (k + m)
    cases found : c.result with
    | none => exact absurd (fails found) (not_exists.mpr runs)
    | some e => simp [found,more]

lemma returns_of_turn (turn : (iterStep fs (after fs k it)).result ≠ none) :
    ∃ fuel c, fatDirIterNext fs fuel it = some c := by
  induction k generalizing it with
  | zero =>
    obtain ⟨result,done⟩ := Option.ne_none_iff_exists'.mp turn
    exact ⟨1,by simp [fatDirIterNext,show (iterStep fs it).result = some result from done]⟩
  | succ k ih =>
    cases result : (iterStep fs it).result with
    | some _ => exact ⟨1,by simp [fatDirIterNext,result]⟩
    | none =>
      obtain ⟨fuel,rest⟩ := @ih (iterStep fs it).it turn
      exact ⟨fuel + 1,by simpa [fatDirIterNext,result] using rest⟩

def Ends (fs : Fs) (p : Pos) : Prop := ∃ k, Halt fs ((move fs)^[k] p)

/-- Where a failed advance leaves the iterator: after the last sector of the directory. -/
def Past (fs : Fs) (p : Pos) : Prop :=
  p.limit fs ≤ p.sectorInCluster ∧
    (p.cluster = 0 ∨ fatClusterNext fs p.cluster = clusterEoc ∨ fatClusterNext fs p.cluster < 2)

lemma Past.advance (past : Past fs p) : iterAdvance fs p =
    if p.entryOffset + 32 < 512 then (true,{p with entryOffset := p.entryOffset + 32})
    else (false,⟨p.cluster,p.sectorInCluster + 1,0⟩) := by
  have late : ¬p.sectorInCluster + 1 < p.limit fs := by
    have := past.1
    omega
  simp [iterAdvance,late,past.2]

lemma past_of_full (full : (iterAdvance fs p).1 = false) : Past fs (iterAdvance fs p).2 := by
  unfold iterAdvance at *
  dsimp only at *
  split_ifs at full ⊢ with inSector inCluster last
  exact ⟨Nat.le_of_not_lt inCluster,last⟩

lemma Past.move (past : Past fs p) : Past fs (move fs p) := by
  simp only [Fat.move,past.advance]
  split_ifs
  exacts [past,past,⟨Nat.le_succ_of_le past.1,past.2⟩]

lemma Past.ends (n : Nat) (past : Past fs p) (room : 512 ≤ p.entryOffset + 32*(n + 1)) : Ends fs p := by
  induction n generalizing p with
  | zero => exact ⟨0,.inr (by simp [past.advance,show ¬p.entryOffset + 32 < 512 by omega])⟩
  | succ n ih =>
    by_cases halt : Halt fs p
    · exact ⟨0,halt⟩
    obtain ⟨unmarked,moved⟩ := not_or.mp halt
    have next := past.move
    rw [past.advance] at moved
    split_ifs at moved with inSector
    · simp only [Fat.move,unmarked,past.advance,inSector] at next
      obtain ⟨k,halts⟩ := ih next (by show 512 ≤ p.entryOffset + 32 + 32*(n + 1); omega)
      exact ⟨k + 1,by simpa [Fat.move,unmarked,past.advance,inSector] using halts⟩
    · simp at moved

lemma Ends.move (ends : Ends fs p) : Ends fs (move fs p) := by
  obtain ⟨_ | k,halt⟩ := ends
  · by_cases stuck : marked fs p
    · exact ⟨0,.inl (by simp [Fat.move,stuck])⟩
    · rw [Fat.move,if_neg stuck]
      exact (past_of_full (halt.resolve_left stuck)).ends 15 (by omega)
  · exact ⟨k,halt⟩

lemma Ends.after (ends : Ends fs it.toPos) (n : Nat) : Ends fs (after fs n it).toPos := by
  rw [after_pos]
  induction n with
  | zero => exact ends
  | succ n ih => exact Function.iterate_succ_apply' (Fat.move fs) n _ ▸ ih.move

lemma Ends.calls (ends : Ends fs it.toPos) (n : Nat) : ∃ cs, Calls fs it cs ∧ cs.length = n := by
  induction n generalizing it with
  | zero => exact ⟨[],.nil it,rfl⟩
  | succ n ih =>
    obtain ⟨k,halt⟩ := ends
    obtain ⟨fuel,c,returned⟩ := returns_of_turn ((iterStep_spec fs _).halts (by rwa [after_pos]))
    obtain ⟨m,_,last,_⟩ := fatDirIterNext_spec returned
    obtain ⟨cs,calls,length⟩ := @ih c.it (last ▸ Ends.after ⟨k,halt⟩ m)
    exact ⟨c :: cs,.cons fuel returned calls,by simp [length]⟩

/-- The slots of a directory in the order of reading; the walk stays at a marked one. -/
def walk (fs : Fs) (start : UInt32) (k : Nat) : Pos := (move fs)^[k] ⟨start,0,0⟩

lemma walk_succ (k : Nat) : walk fs start (k + 1) = move fs (walk fs start k) :=
  Function.iterate_succ_apply' _ _ _

/-- What a directory must be for the reader to be safe on it. -/
structure Sane (fs : Fs) (start : UInt32) : Prop where
  ends : ∃ k, Halt fs (walk fs start k)
  named : ∀ k raw, slotAt fs (walk fs start k) = some raw → classify raw = .long → raw 0 &&& 0x1F ≠ 0
  inside : ∀ k raw, slotAt fs (walk fs start k) = some raw → classify raw = .entry →
    Inside fs (walk fs start k)

lemma lfnPlaces_inside (named : raw 0 &&& 0x1F ≠ 0) : ∀ i ∈ lfnPlaces raw, 0 ≤ i ∧ i < 256 := by
  intro i place
  obtain ⟨⟨k,_,rfl⟩,below⟩ : (∃ k : Nat, k < 13 ∧ lfnPos raw + k = i) ∧ i < 255 := by simpa [lfnPlaces] using place
  have positive : (raw 0 &&& 0x1F).toNat ≠ 0 := fun zero => named (UInt8.toNat_inj.mp zero)
  simp only [lfnPos] at *
  omega

lemma walk_chain (fs : Fs) (start : UInt32) (k : Nat) : OnChain fs start (walk fs start k).cluster ∧
    (walk fs start k).entryOffset + 32 ≤ 512 ∧ 32 ∣ (walk fs start k).entryOffset := by
  induction k with
  | zero => exact ⟨.start,by simp [walk],by simp [walk]⟩
  | succ k ih =>
    obtain ⟨chain,whole,aligned⟩ := ih
    rw [walk_succ]
    simp only [move,iterAdvance]
    split_ifs with _ inSector _ last
    · exact ⟨chain,whole,aligned⟩
    · exact ⟨chain,by simp only; omega,by simp only; omega⟩
    · exact ⟨chain,by simp,by simp⟩
    · exact ⟨chain,by simp,by simp⟩
    · simp only [not_or] at last
      exact ⟨.next chain last.1 last.2,by simp,by simp⟩

def Done (fs : Fs) (p : Pos) : Prop := marked fs p ∨ Past fs p

lemma done_after (halt : Halt fs (walk fs start k)) (later : k < j) : Done fs (walk fs start j) := by
  induction j, later using Nat.le_induction with
  | base =>
    rw [walk_succ]
    by_cases stuck : marked fs (walk fs start k)
    · exact .inl (by simp [move,stuck])
    · rw [move,if_neg stuck]
      exact .inr (past_of_full (halt.resolve_left stuck))
  | succ j _ done =>
    rw [walk_succ]
    by_cases stuck : marked fs (walk fs start j)
    · exact .inl (by simp [move,stuck])
    · exact .inr (done.resolve_left stuck).move

/-- An entry in use, and where the walk meets it. -/
def EntryAt (fs : Fs) (p : Pos) : Prop := ∃ raw, slotAt fs p = some raw ∧ classify raw = .entry

/-- The walk meets each slot of a sane directory once: it cannot be back at a slot before its first
halt, and after that halt there are no entries. -/
lemma Sane.injective (sane : Sane fs start) (first : EntryAt fs (walk fs start i))
    (second : EntryAt fs (walk fs start j)) (same : walk fs start i = walk fs start j) : i = j := by
  classical
  obtain ⟨last,halt,least⟩ : ∃ last, Halt fs (walk fs start last) ∧
      ∀ k < last, ¬Halt fs (walk fs start k) :=
    ⟨Nat.find sane.ends,Nat.find_spec sane.ends,fun _ => Nat.find_min sane.ends⟩
  have early : ∀ k, EntryAt fs (walk fs start k) → k ≤ last := by
    rintro k ⟨raw,slot,kind⟩
    by_contra late
    rcases done_after halt (Nat.lt_of_not_le late) with stuck | past
    · simp [marked,slot,kind] at stuck
    · exact absurd (sane.inside k raw slot kind).2 (Nat.not_lt.mpr past.1)
  have apart : ∀ {i j}, i < j → j ≤ last → walk fs start i ≠ walk fs start j := by
    intro i j before within same
    refine least (i + (last - j)) (by omega) ?_
    have shifted : walk fs start (i + (last - j)) = walk fs start last := by
      conv_rhs => rw [← Nat.add_sub_of_le within]
      rw [walk,walk,Nat.add_comm i,Nat.add_comm j,Function.iterate_add_apply,Function.iterate_add_apply]
      exact congrArg _ same
    exact shifted ▸ halt
  rcases Nat.lt_trichotomy i j with before | equal | before
  · exact absurd same (apart before (early j second))
  · exact equal
  · exact absurd same.symm (apart before (early i first))

lemma results_spec : ∀ e ∈ (trace fs n (fatDirIterOpen start)).filterMap (·.result.join),
    ∃ k < n, e.slot = walk fs start k ∧ e.sector = iterSector fs e.slot ∧ slotAt fs e.slot = some e.raw ∧
      classify e.raw = .entry ∧ e.name.length ≤ 256 := by
  intro e found
  obtain ⟨turn,made,result⟩ := mem_filterMap.mp found
  obtain ⟨k,bound,rfl⟩ := mem_map.mp made
  obtain ⟨slot,sector,raw,kind,name⟩ := (iterStep_spec fs _).entry e (Option.join_eq_some_iff.mp result)
  rw [after_pos] at slot
  exact ⟨k,mem_range.mp bound,slot,by rw [sector,after_pos,slot],by rw [slot,← raw,after_pos],kind,name⟩

lemma stored_of_walk (slot : e.slot = walk fs start k) (inside : Inside fs e.slot)
    (sector : e.sector = iterSector fs e.slot) (raw : slotAt fs e.slot = some e.raw) : Stored fs start e := by
  obtain ⟨chain,whole,_⟩ := walk_chain fs start k
  exact ⟨slot ▸ chain,inside,slot ▸ whole,sector,raw⟩

/-- A directory has finitely many slots. -/
lemma slots_bounded (fs : Fs) : ∃ bound, ∀ slots : List Pos, slots.Nodup →
    (∀ p ∈ slots, Inside fs p ∧ p.entryOffset + 32 ≤ 512) → slots.length ≤ bound := by
  obtain ⟨clusters,cluster⟩ : ∃ n, ∀ c : UInt32, c.toNat < n := ⟨2^32,UInt32.toNat_lt⟩
  let key (p : Pos) : Nat × Nat × Nat := (p.cluster.toNat,p.sectorInCluster,p.entryOffset)
  have distinct : Function.Injective key := fun ⟨c,_,_⟩ ⟨d,_,_⟩ same => by
    obtain ⟨first,rest⟩ := Prod.mk.inj same
    obtain rfl := UInt32.toNat_inj.mp first
    obtain ⟨rfl,rfl⟩ := Prod.mk.inj rest
    rfl
  refine ⟨(Finset.range clusters ×ˢ Finset.range (fs.rootSectors.toNat + fs.sectorsPerCluster.toNat) ×ˢ
    Finset.range 512).card,fun slots once inside => ?_⟩
  rw [← length_map key,← toFinset_card_of_nodup (once.map distinct)]
  refine Finset.card_le_card fun triple member => ?_
  obtain ⟨p,within,rfl⟩ := mem_map.mp (mem_toFinset.mp member)
  obtain ⟨⟨_,sector⟩,offset⟩ := inside p within
  simp only [key,Finset.mem_product,Finset.mem_range]
  refine ⟨cluster _,?_,by omega⟩
  unfold Pos.limit at sector
  split_ifs at sector <;> omega

section Find

lemma fatDirIterNext_mono (more : Nat) (returned : fatDirIterNext fs fuel it = some c) :
    fatDirIterNext fs (fuel + more) it = some c := by
  induction fuel generalizing it c with
  | zero => cases returned
  | succ fuel ih =>
    rw [Nat.add_right_comm]
    simp only [fatDirIterNext] at returned ⊢
    cases result : (iterStep fs it).result with
    | some _ => simpa [result] using returned
    | none =>
      simp only [result,Option.map_eq_some_iff] at returned ⊢
      exact returned.imp fun d both => ⟨ih both.1,both.2⟩

lemma findFrom_mono (more : Nat)
    (returned : findFrom fs name fuel it = some found) : findFrom fs name (fuel + more) it = some found := by
  induction fuel generalizing it with
  | zero => cases returned
  | succ fuel ih =>
    rw [Nat.add_right_comm]
    simp only [findFrom] at returned ⊢
    cases call : fatDirIterNext fs (fuel + 1) it with
    | none => simp [call] at returned
    | some c =>
      rw [Nat.add_right_comm,fatDirIterNext_mono more call]
      rw [call] at returned
      obtain ⟨_ | e,_,_⟩ := c
      · exact returned
      simp only at returned ⊢
      split_ifs at returned ⊢
      exacts [returned,ih returned]

lemma Calls.find (calls : Calls fs it cs) (name : List UInt8) (ends : ∃ c ∈ cs, c.result = none) :
    ∃ fuel found, findFrom fs name fuel it = some found := by
  induction calls with
  | nil => simp at ends
  | @cons it c cs fuel returned _ ih =>
    have first (more : Nat) := fatDirIterNext_mono (more + 1) returned
    obtain ⟨_ | e,next,writes⟩ := c
    · exact ⟨fuel + 1,none,by simp [findFrom,first 0]⟩
    obtain ⟨fuel',found,rest⟩ := ih (by simpa using ends)
    refine ⟨fuel + fuel' + 1,if fatNamesEqual e.name name then some e else found,?_⟩
    rw [findFrom,Nat.add_assoc,first fuel']
    simp only [Nat.add_comm fuel,findFrom_mono fuel rest]
    split_ifs <;> rfl

lemma findFrom_calls (returned : findFrom fs name fuel it = some (some e)) :
    fatNamesEqual e.name name ∧ ∃ cs, Calls fs it cs ∧ e ∈ cs.filterMap (·.result) := by
  induction fuel generalizing it with
  | zero => cases returned
  | succ fuel ih =>
    simp only [findFrom] at returned
    cases call : fatDirIterNext fs (fuel + 1) it with
    | none => simp [call] at returned
    | some c =>
      rw [call] at returned
      obtain ⟨_ | d,next,writes⟩ := c
      · cases returned
      simp only at returned
      split_ifs at returned with same
      · cases returned
        exact ⟨same,[_],.cons _ call (.nil _),by simp⟩
      · obtain ⟨same,cs,rest,member⟩ := ih returned
        exact ⟨same,_,.cons _ call rest,by simp_all⟩

end Find

section Entries

lemma Safe.turn (safe : Safe fs start) (k : Nat) : ∃ cs, Calls fs (fatDirIterOpen start) cs ∧
    (∀ i ∈ (iterStep fs (after fs k (fatDirIterOpen start))).writes, ∃ c ∈ cs, i ∈ c.writes) ∧
    ∀ e, (iterStep fs (after fs k (fatDirIterOpen start))).result = some (some e) →
      e ∈ cs.filterMap (·.result) := by
  obtain ⟨cs,calls,length⟩ := safe.returns (k + 1)
  obtain ⟨n,least,writes,results,_⟩ := calls.spec
  have made : iterStep fs (after fs k (fatDirIterOpen start)) ∈ trace fs n (fatDirIterOpen start) :=
    mem_map_of_mem (mem_range.mpr (by omega))
  refine ⟨cs,calls,fun i stored => ?_,fun e found => ?_⟩
  · exact mem_flatMap.mp (writes ▸ mem_flatMap.mpr ⟨_,made,stored⟩)
  · exact results ▸ mem_filterMap.mpr ⟨_,made,by simp [found]⟩

lemma Safe.sane (safe : Safe fs start) : Sane fs start := by
  have spec (k : Nat) := iterStep_spec fs (after fs k (fatDirIterOpen start))
  simp only [after_pos] at spec
  refine ⟨?_,fun k raw slot kind zero => ?_,fun k raw slot kind => ?_⟩
  · by_contra forever
    obtain ⟨bound,few⟩ := slots_bounded fs
    obtain ⟨cs,calls,length⟩ := safe.returns (bound + 1)
    obtain ⟨_,_,_,_,all⟩ := calls.spec
    have short := few _ (safe.once cs calls) fun p member => by
      obtain ⟨e,found,rfl⟩ := mem_map.mp member
      have stored := (safe.stored cs calls e found).1
      exact ⟨stored.inside,stored.whole⟩
    rw [length_map,all (not_exists.mp forever)] at short
    omega
  · obtain ⟨cs,calls,writes,_⟩ := safe.turn k
    have place : (-13 : Int) ∈ lfnPlaces raw :=
      mem_filter.mpr ⟨mem_map.mpr ⟨0,by decide,by simp [lfnPos,zero]⟩,by decide⟩
    obtain ⟨c,made,stored⟩ := writes _ ((spec k).places raw slot kind _ place)
    exact absurd (safe.writes cs calls c made _ stored).1 (by decide)
  · obtain ⟨cs,calls,_,results⟩ := safe.turn k
    obtain ⟨e,found⟩ := (spec k).found raw slot kind
    have slot : e.slot = walk fs start k := ((spec k).entry e found).1
    exact slot ▸ (safe.stored cs calls e (results e found)).1.inside

lemma Sane.results (sane : Sane fs start) (calls : Calls fs (fatDirIterOpen start) cs) :
    ∀ e ∈ cs.filterMap (·.result), Stored fs start e ∧ e.name.length ≤ 256 := by
  obtain ⟨n,_,_,results,_⟩ := calls.spec
  rw [results]
  intro e found
  obtain ⟨k,_,slot,sector,raw,kind,name⟩ := results_spec e found
  exact ⟨stored_of_walk slot (slot ▸ sane.inside k e.raw (slot ▸ raw) kind) sector raw,name⟩

lemma Sane.once (sane : Sane fs start) (calls : Calls fs (fatDirIterOpen start) cs) :
    ((cs.filterMap (·.result)).map (·.slot)).Nodup := by
  obtain ⟨n,_,_,results,_⟩ := calls.spec
  rw [results,trace,filterMap_map,map_filterMap]
  refine nodup_range.filterMap fun i j p first second => ?_
  have entry k (found : p ∈ ((iterStep fs (after fs k (fatDirIterOpen start))).result.join).map (·.slot)) :
      p = walk fs start k ∧ EntryAt fs p := by
    obtain ⟨e,result,rfl⟩ := Option.mem_map.mp found
    obtain ⟨slot,_,raw,kind,_⟩ := (iterStep_spec fs _).entry e (Option.join_eq_some_iff.mp result)
    rw [after_pos] at slot raw
    exact ⟨slot,e.raw,slot ▸ raw,kind⟩
  obtain ⟨here,used⟩ := entry i first
  obtain ⟨there,_⟩ := entry j second
  exact sane.injective (here ▸ used) (there ▸ used) (here.symm.trans there)

lemma Sane.finds (sane : Sane fs start) (name : List UInt8) :
    ∃ fuel found, fatDirFind fs fuel start name = some found ∧
      ∀ e ∈ found, Stored fs start e ∧ fatNamesEqual e.name name := by
  obtain ⟨bound,few⟩ := slots_bounded fs
  obtain ⟨cs,calls,length⟩ := @Ends.calls fs (fatDirIterOpen start) sane.ends (bound + 1)
  have short := few _ (sane.once calls) fun p member => by
    obtain ⟨e,found,rfl⟩ := mem_map.mp member
    have stored := (sane.results calls e found).1
    exact ⟨stored.inside,stored.whole⟩
  have ends : ∃ c ∈ cs, c.result = none := by
    by_contra all
    have whole : (cs.filterMap (·.result)).length = cs.length :=
      filterMap_length_eq_length.mpr fun c member => Option.ne_none_iff_isSome.mp fun none => all ⟨c,member,none⟩
    rw [length_map] at short
    omega
  obtain ⟨fuel,found,returned⟩ := calls.find name ends
  refine ⟨fuel,found,returned,fun e here => ?_⟩
  cases here
  obtain ⟨same,cs,calls,member⟩ := findFrom_calls returned
  exact ⟨(sane.results calls e member).1,same⟩

end Entries

/-- For every content of the disk: the reader is safe on a directory exactly when the walk over its
slots ends, its long-name slots are numbered from one, and what the iterator reads beyond the last
sector of the directory holds no entry. -/
theorem safe_iff_sane (fs : Fs) (start : UInt32) : Safe fs start ↔ Sane fs start := by
  refine ⟨Safe.sane,fun sane => ⟨Ends.calls sane.ends,sane.finds,fun cs calls c made i stored => ?_,
    fun _ => sane.results,fun _ => sane.once⟩⟩
  obtain ⟨n,_,writes,_⟩ := calls.spec
  obtain ⟨turn,made,stored⟩ := mem_flatMap.mp (writes ▸ mem_flatMap.mpr ⟨c,made,stored⟩)
  obtain ⟨k,_,rfl⟩ := mem_map.mp made
  rcases (iterStep_spec fs _).writes i stored with inside | ⟨raw,slot,kind,place⟩
  · exact inside
  · rw [after_pos] at slot
    exact lfnPlaces_inside (sane.named k raw slot kind) i place

end Walk

/-- A FAT16 volume of one FAT sector and a root region of one sector, whose first slot is a
long-name slot with sequence byte 0x40: the first of a name, number 0. -/
def numberedZero : Fs :=
  ⟨fun lba => some fun i => if lba = 2 then if i = 0 then 0x40 else if i = 11 then 0x0F else 0 else 0,.fat16,1,1,2,1,3⟩

theorem long_name_below_buffer : ∃ c, fatDirIterNext numberedZero 2 (fatDirIterOpen 0) = some c ∧
    -13 ∈ c.writes ∧ ¬Safe numberedZero 0 := by
  refine ⟨_,rfl,by decide +kernel,fun safe => ?_⟩
  have inside := safe.writes _ (.cons 2 rfl (.nil _)) _ mem_cons_self (-13) (by decide +kernel)
  exact absurd inside.1 (by decide)

end UbixOS.Fat
