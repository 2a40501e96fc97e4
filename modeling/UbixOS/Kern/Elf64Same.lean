import UbixOS.Kern.Elf64Setup

/-! A program that is loaded on demand is the program that is loaded at once: faults in any
order give the pages of the eager loader, and both loaders report the same. -/
namespace UbixOS.Kern.Elf64

open UInt64 (le_iff_toNat_le lt_iff_toNat_lt toNat_add ofNat)

open Library Vmm Function

variable {e : Map.Entry}

def LoadInfo.interp (info : LoadInfo) : UInt64 × UInt64 := (info.interpOff,info.interpSz)

def Phdr.interp (ph : Phdr) : UInt64 × UInt64 := (ph.offset,ph.filesz)

def Phdr.isInterp (ph : Phdr) : Bool := ph.type = ptInterp

section Info

variable (eh : Ehdr) (base : UInt64)

lemma notePhdr_eq (info : LoadInfo) (ph : Phdr) : ∃ phdrVa, info.notePhdr eh base ph = { info with phdrVa } := by
  rw [LoadInfo.notePhdr]
  split <;> exact ⟨_,rfl⟩

lemma notePhdr_congr {info info' : LoadInfo} (same : info.phdrVa = info'.phdrVa) (ph : Phdr) :
    (info.notePhdr eh base ph).phdrVa = (info'.notePhdr eh base ph).phdrVa := by
  rw [LoadInfo.notePhdr,LoadInfo.notePhdr,same]
  split
  · rfl
  · exact same

lemma eagerInfo_interp (info : LoadInfo) (ph : Phdr) :
    (eagerInfo eh base info ph).interp = if ph.isInterp then ph.interp else info.interp := by
  rw [eagerInfo,Phdr.isInterp]
  by_cases interp : ph.type = ptInterp
  · rw [if_pos interp,decide_eq_true interp]
    rfl
  rw [if_neg interp,decide_eq_false interp]
  split
  · obtain ⟨phdrVa,same⟩ := notePhdr_eq eh base info ph
    rw [same]
    rfl
  · rfl

lemma eager_interp (phs : List Phdr) (info : LoadInfo) :
    (phs.foldl (eagerInfo eh base) info).interp =
    ((phs.reverse.find? Phdr.isInterp).map Phdr.interp).getD info.interp := by
  induction phs generalizing info with
  | nil => rfl
  | cons ph phs ih =>
    rw [List.foldl_cons,ih,List.reverse_cons,List.find?_append,eagerInfo_interp]
    cases phs.reverse.find? Phdr.isInterp with
    | some last => rfl
    | none =>
      rw [List.find?_singleton]
      cases ph.isInterp <;> rfl

lemma demand_interp (phs : List Phdr) (info : LoadInfo) :
    (phs.foldl (demandInfo eh base) info).interp = info.interp := by
  induction phs generalizing info with
  | nil => rfl
  | cons ph phs ih =>
    rw [List.foldl_cons,ih,demandInfo]
    split
    · obtain ⟨phdrVa,same⟩ := notePhdr_eq eh base info ph
      rw [same]
      rfl
    · rfl

lemma infos_agree (phs : List Phdr) {info info' : LoadInfo} (entry : info.entry = info'.entry)
    (phdrVa : info.phdrVa = info'.phdrVa) :
    (phs.foldl (demandInfo eh base) info).entry = (phs.foldl (eagerInfo eh base) info').entry ∧
      (phs.foldl (demandInfo eh base) info).phdrVa = (phs.foldl (eagerInfo eh base) info').phdrVa := by
  induction phs generalizing info info' with
  | nil => exact ⟨entry,phdrVa⟩
  | cons ph phs ih =>
    obtain ⟨va,same⟩ := notePhdr_eq eh base info ph
    obtain ⟨va',same'⟩ := notePhdr_eq eh base info' ph
    have noted := notePhdr_congr eh base phdrVa ph
    apply ih
    all_goals
      rw [demandInfo,eagerInfo]
      by_cases interp : ph.type = ptInterp
      · have none : ph.loads = false := by
          rw [Phdr.loads,interp]
          rfl
        rw [if_pos interp,none]
        assumption
      · split
        · rw [same,same'] at *
          assumption
        · assumption

end Info

def served (f : File) (e : Map.Entry) (v : UInt64) : Page :=
  if e.isFile then f.page (e.offset + (v - e.start)) else Bytes.zero

@[simp] lemma fileVma_isFile (base : UInt64) (i : Nat) (ph : Phdr) : (fileVma base i ph).isFile = true :=
  (by decide : ((0 ||| Map.vmMapFile) &&& Map.vmMapFile != 0) = true)

@[simp] lemma bssVma_isFile (base : UInt64) (ph : Phdr) : (bssVma base ph).isFile = false :=
  (by decide : (vmMapAnon &&& Map.vmMapFile != 0) = false)

lemma covers_toNat : e.covers v = true ↔ e.start.toNat ≤ v.toNat ∧ v.toNat < e.stop.toNat := by
  rw [Map.Entry.covers,Bool.and_eq_true,decide_eq_true_eq,decide_eq_true_eq,le_iff_toNat_le,lt_iff_toNat_lt]

section Served

variable (setup : Setup f base phs map space) (fits : AllFit base phs)
include setup fits

lemma Setup.onPage (member : e ∈ map.entries) : ∃ ph ∈ phs, ph.loads ∧
    ((∃ i, e = fileVma base i ph) ∨ e = bssVma base ph) ∧
    ∀ v : UInt64, v.toNat % 4096 = 0 → e.covers v → ph.OnPage base v := by
  obtain ⟨ph,inside,loads,kind⟩ := setup.made e member
  have fit := fits ph inside loads
  have start := pageDown_toNat (ph.segVaddr base)
  have middle := pageDown_toNat (ph.fileEnd base)
  have up := fit.pageUp_fileEnd
  have top := fit.pageUp_memEnd
  have size := fit.fileEnd
  have ends := fit.fileEnd_le
  rcases kind with ⟨i,rfl⟩ | ⟨rfl,_⟩
  · refine ⟨ph,inside,loads,.inl ⟨i,rfl⟩,fun v aligned covers => ?_⟩
    obtain ⟨low,high⟩ := covers_toNat.mp covers
    change v.toNat < (pageDown (ph.fileEnd base)).toNat at high
    exact ⟨low,by omega,aligned⟩
  · refine ⟨ph,inside,loads,.inr rfl,fun v aligned covers => ?_⟩
    obtain ⟨low,high⟩ := covers_toNat.mp covers
    change (pageUp (ph.fileEnd base)).toNat ≤ v.toNat at low
    exact ⟨by omega,high,aligned⟩

lemma Setup.served (apart : Apart base phs) (member : e ∈ map.entries) (inside : ph ∈ phs)
    (loads : ph.loads) (has : ph.Has base a) (covers : e.covers (pageDown a)) :
    (Elf64.served f e (pageDown a)).toBuffer (a.toNat % 4096) = ph.byte f.get base a := by
  obtain ⟨other,inside',loads',kind,onPage⟩ := setup.onPage fits member
  have fit := fits ph inside loads
  have here := fit.onPage has
  obtain rfl := apart.unique inside loads here inside' loads' (onPage _ here.2.2 covers)
  rw [Elf64.served]
  rcases kind with ⟨i,rfl⟩ | rfl
  · rw [if_pos (fileVma_isFile base i ph)]
    exact fit.filePage f has (lt_iff_toNat_lt.mpr (covers_toNat.mp covers).2)
  · rw [if_neg (by simp)]
    exact fit.bssPage f (le_iff_toNat_le.mpr (covers_toNat.mp covers).1)

/-- Addresses and file offsets of a file VMA leave room for a cluster. -/
lemma Setup.room (member : e ∈ map.entries) (file : e.isFile) (covers : e.covers pg) :
    (e.offset + (pg - e.start)).toNat + demandCluster * 4096 < 2^64 ∧ pg.toNat + demandCluster * 4096 < 2^64 ∧
      e.stop.toNat % 4096 = 0 ∧ e.vnode.isSome := by
  obtain ⟨ph,inside,loads,⟨i,rfl⟩ | ⟨rfl,_⟩⟩ := setup.made e member
  · have fit := fits ph inside loads
    obtain ⟨low,high⟩ := covers_toNat.mp covers
    change pg.toNat < (pageDown (ph.fileEnd base)).toNat at high
    have difference : (pg - pageDown (ph.segVaddr base)).toNat = pg.toNat - (pageDown (ph.segVaddr base)).toNat :=
      UInt64.toNat_sub_of_le _ _ (le_iff_toNat_le.mpr low)
    have down := pageDown_le ph.offset
    have start := pageDown_toNat (ph.segVaddr base)
    have stop := pageDown_toNat (ph.fileEnd base)
    have size := fit.fileEnd
    have offset := fit.offset
    have ends := fit.fileEnd_le
    have top := fit.memEnd_le
    refine ⟨?_,?_,?_,rfl⟩
    · change (pageDown ph.offset + (pg - pageDown (ph.segVaddr base))).toNat + 16 * 4096 < 2^64
      rw [toNat_add]
      omega
    · change pg.toNat + 16 * 4096 < 2^64
      omega
    · change (pageDown (ph.fileEnd base)).toNat % 4096 = 0
      omega
  · rw [bssVma_isFile] at file
    cases file

end Served

lemma clusterLen_spec (covers : e.covers pg) (aligned : pg.toNat % 4096 = 0)
    (stop : e.stop.toNat % 4096 = 0) (room : pg.toNat + demandCluster * 4096 < 2^64) :
    0 < clusterLen e pg ∧ clusterLen e pg ≤ demandCluster ∧ pg.toNat + clusterLen e pg * 4096 ≤ e.stop.toNat := by
  have before := (covers_toNat.mp covers).2
  have last : (pg + ofNat (demandCluster * 4096)).toNat = pg.toNat + demandCluster * 4096 := by
    exact Nat.mod_eq_of_lt room
  have rest : (e.stop - pg).toNat = e.stop.toNat - pg.toNat :=
    UInt64.toNat_sub_of_le _ _ (le_iff_toNat_le.mpr (Nat.le_of_lt before))
  rw [clusterLen]
  simp only [lt_iff_toNat_lt,last,demandCluster]
  split <;> split <;> omega

def FreshCache (f : File) (cache : UInt64 → Option Page) : Prop := ∀ off page, cache off = some page → page = f.page off

/-- The page has the bytes of the segments on it. -/
def RightPage (f : File) (base : UInt64) (phs : List Phdr) (v : UInt64) (page : Page) : Prop :=
  ∀ ph ∈ phs, ph.loads → ∀ a, ph.Has base a → pageDown a = v → page.toBuffer (a.toNat % 4096) = ph.byte f.get base a

/-- A process after some faults on the map that the loader made. -/
structure Good (f : File) (base : UInt64) (phs : List Phdr) (d : DemandState) (p : Proc) : Prop where
  map : p.map = d.map
  cache : FreshCache f p.cache
  right : ∀ v page, p.space.page v = some page → RightPage f base phs v page
  kept : ∀ v, (d.space.page v).isSome → (p.space.page v).isSome

section Faults

variable (good : Good f base phs d p)
include good

lemma Good.same (map : p'.map = p.map) (cache : FreshCache f p'.cache) (pages : p'.space.page = p.space.page) :
    Good f base phs d p' :=
  ⟨map.trans good.map,cache,pages ▸ good.right,pages ▸ good.kept⟩

lemma Good.update (map : p'.map = p.map) (cache : FreshCache f p'.cache)
    (pages : p'.space.page = update p.space.page v (some page)) (right : RightPage f base phs v page) :
    Good f base phs d p' := by
  refine ⟨map.trans good.map,cache,fun w content mapped => ?_,fun w before => ?_⟩
  · rw [pages] at mapped
    by_cases here : w = v
    · rw [here,update_self] at mapped
      cases mapped
      rw [here]
      exact right
    · rw [update_of_ne here] at mapped
      exact good.right w content mapped
  · rw [pages]
    by_cases here : w = v
    · rw [here,update_self]
      rfl
    · rw [update_of_ne here]
      exact good.kept w before

lemma Good.clusterPage
    (own : (bytes.drop (i * 4096)).toBytes 4096 = f.page (e.offset + (pg + ofNat (i * 4096) - e.start)))
    (right : RightPage f base phs (pg + ofNat (i * 4096))
      (f.page (e.offset + (pg + ofNat (i * 4096) - e.start)))) :
    Good f base phs d (mapClusterPage e cacheable o pg bytes p i) := by
  rw [mapClusterPage]
  dsimp only
  split
  · exact good.same rfl good.cache rfl
  split
  · cases found : p.cache (e.offset + (pg + ofNat (i * 4096) - e.start)) with
    | some winner =>
      rw [good.cache _ _ found]
      exact good.update rfl good.cache rfl right
    | none =>
      rw [own]
      refine good.update rfl ?_ rfl right
      dsimp only
      split
      · intro off page cached
        by_cases here : off = e.offset + (pg + ofNat (i * 4096) - e.start)
        · rw [here,update_self] at cached
          cases cached
          rw [here]
        · rw [update_of_ne here] at cached
          exact good.cache off page cached
      · exact good.cache
  · rw [own]
    exact good.update rfl good.cache rfl right

end Faults

section Loaded

variable (good : Good f base phs d p)
  (setup : Setup f base phs d.map d.space) (fits : AllFit base phs) (apart : Apart base phs)
include setup fits apart

lemma Setup.right (member : e ∈ d.map.entries) (covers : e.covers v) :
    RightPage f base phs v (Elf64.served f e v) := by
  rintro ph inside loads a has rfl
  exact setup.served fits apart member inside loads has covers

include good

lemma Good.readCluster (member : e ∈ d.map.entries) (file : e.isFile)
    (aligned : pg.toNat % 4096 = 0) (covers : e.covers pg) (cacheable : Bool) (o : FaultOutcome) :
    Good f base phs d (readCluster f e cacheable o pg p).2 := by
  obtain ⟨offsets,room,stop,_⟩ := setup.room fits member file covers
  obtain ⟨some,small,inside⟩ := clusterLen_spec covers aligned stop room
  rw [Elf64.readCluster]
  generalize length : (if 1 < clusterLen e pg ∧ o.contig = true ∧
    clusterLen e pg ≤ p.space.free then clusterLen e pg else 1) = n
  have most : n ≤ clusterLen e pg := by
    rw [← length]
    split <;> omega
  have few : n * 4096 ≤ demandCluster * 4096 := Nat.mul_le_mul_right _ (Nat.le_trans most small)
  split
  · exact good
  have pages (l : List Nat) (below : ∀ i ∈ l, i < n) {q : Proc} (good : Good f base phs d q) :
      Good f base phs d (l.foldl
        (mapClusterPage e cacheable o pg (f.pread (e.offset + (pg - e.start)) (n * 4096)).2) q) := by
    induction l generalizing q with
    | nil => exact good
    | cons i l ih =>
      have low : i < n := below i List.mem_cons_self
      have place := add_pages_toNat room (Nat.lt_of_lt_of_le low (Nat.le_trans most small))
      have within : i * 4096 < clusterLen e pg * 4096 :=
        Nat.mul_lt_mul_of_pos_right (Nat.lt_of_lt_of_le low most) (by decide)
      have covered : e.covers (pg + ofNat (i * 4096)) := by
        refine covers_toNat.mpr ⟨?_,?_⟩
        · rw [place]
          exact Nat.le_trans (covers_toNat.mp covers).1 (Nat.le_add_right _ _)
        · rw [place]
          exact Nat.lt_of_lt_of_le (Nat.add_lt_add_left within _) inside
      have sum : e.offset + (pg + ofNat (i * 4096) - e.start) = e.offset + (pg - e.start) + ofNat (i * 4096) := by
        grind
      have right := setup.right fits apart member covered
      rw [Elf64.served,if_pos file] at right
      refine ih (fun j later => below j (.tail i later)) (good.clusterPage ?_ right)
      rw [sum]
      exact f.pread_page (Nat.lt_of_le_of_lt (Nat.add_le_add_left few _) offsets) low
  exact pages _ (fun i member => List.mem_range.mp member) (good.same rfl good.cache rfl)

lemma Good.fault (far : UInt64) (o : FaultOutcome) : Good f base phs d (fault f p far o).2 := by
  have aligned : (pageDown far).toNat % 4096 = 0 := by
    rw [pageDown_toNat]
    exact Nat.mul_mod_left _ _
  rw [Elf64.fault]
  cases found : p.map.entries.find? (·.covers (pageDown far)) with
  | none => exact good
  | some e =>
    have member : e ∈ d.map.entries := good.map ▸ List.mem_of_find?_eq_some found
    have covers := List.find?_some found
    have right := setup.right fits apart member covers
    dsimp only
    split
    next file =>
      rw [Elf64.served,if_pos file] at right
      split
      · exact good
      split
      next hit cached =>
        split at cached
        · rw [good.cache _ _ cached]
          exact good.update rfl good.cache rfl right
        · cases cached
      · exact good.readCluster setup fits apart member file aligned covers _ o
    next anon =>
      rw [Elf64.served,if_neg anon] at right
      cases mapped : p.space.mapNew (pageDown far) Bytes.zero with
      | none => exact good
      | some space => exact good.update rfl good.cache (mapNew_page mapped) right

omit good setup fits apart in
lemma mapClusterPage_mapped (mapped : (p.space.page v).isSome ∨ v = pg + ofNat (i * 4096)) :
    ((mapClusterPage e cacheable o pg bytes p i).space.page v).isSome := by
  have new (page : Page) : (update p.space.page (pg + ofNat (i * 4096)) (some page) v).isSome := by
    by_cases here : v = pg + ofNat (i * 4096)
    · rw [here,update_self]
      rfl
    · rw [update_of_ne here]
      exact mapped.resolve_right here
  rw [mapClusterPage]
  dsimp only
  split
  next before =>
    rcases mapped with mapped | rfl
    · exact mapped
    · exact before
  · split
    · split <;> exact new _
    · exact new _

omit good setup fits apart in
lemma readCluster_maps (free : 0 < p.space.free) :
    (readCluster f e cacheable o pg p).1 = true ∧ ((readCluster f e cacheable o pg p).2.space.page pg).isSome := by
  rw [Elf64.readCluster]
  generalize length : (if 1 < clusterLen e pg ∧ o.contig = true ∧
    clusterLen e pg ≤ p.space.free then clusterLen e pg else 1) = n
  have some : 0 < n ∧ n ≤ p.space.free := by
    rw [← length]
    split <;> omega
  rw [if_neg (Nat.not_lt.mpr some.2)]
  refine ⟨rfl,?_⟩
  have stays (l : List Nat) (q : Proc) (mapped : (q.space.page pg).isSome) (bytes : Buffer) :
      ((l.foldl (mapClusterPage e cacheable o pg bytes) q).space.page pg).isSome := by
    induction l generalizing q with
    | nil => exact mapped
    | cons i l ih => exact ih _ (mapClusterPage_mapped (.inl mapped))
  obtain ⟨m,rfl⟩ := Nat.exists_eq_succ_of_ne_zero (Nat.pos_iff_ne_zero.mp some.1)
  rw [List.range_succ_eq_map]
  refine stays _ _ (mapClusterPage_mapped (.inr ?_)) _
  exact (UInt64.add_zero pg).symm

omit apart in
lemma Good.resolves (inside : ph ∈ phs) (loads : ph.loads) (has : ph.Has base a)
    (missing : p.space.page (pageDown a) = none) (free : 0 < p.space.free) (o : FaultOutcome) :
    (Elf64.fault f p a o).1 = true ∧ ((Elf64.fault f p a o).2.space.page (pageDown a)).isSome := by
  have fit := fits ph inside loads
  have covered : ∃ e ∈ p.map.entries, e.covers (pageDown a) = true := by
    rw [good.map]
    rcases fit.parts has with file | ⟨here,edge⟩ | ⟨low,high⟩
    · have some : pageDown (ph.segVaddr base) < pageDown (ph.fileEnd base) := by
        exact Nat.lt_of_le_of_lt (page_low has) file
      obtain ⟨i,member⟩ := setup.file ph inside loads some
      exact ⟨_,member,covers_toNat.mpr ⟨page_low has,lt_iff_toNat_lt.mp file⟩⟩
    · have mapped := good.kept _ (setup.edge ph inside loads edge)
      rw [← here,missing] at mapped
      cases mapped
    have some : pageUp (ph.fileEnd base) < pageUp (ph.memEnd base) := by
      exact Nat.lt_of_le_of_lt low high
    exact ⟨_,setup.bss ph inside loads some,
      covers_toNat.mpr ⟨le_iff_toNat_le.mp low,lt_iff_toNat_lt.mp high⟩⟩
  rw [Elf64.fault]
  cases found : p.map.entries.find? (·.covers (pageDown a)) with
  | none =>
    obtain ⟨e,member,covers⟩ := covered
    exact absurd covers (List.find?_eq_none.mp found e member)
  | some e =>
    have member : e ∈ d.map.entries := good.map ▸ List.mem_of_find?_eq_some found
    have covers := List.find?_some found
    have added (page : Page) : (Function.update p.space.page (pageDown a) (some page) (pageDown a)).isSome := by
      rw [update_self]
      rfl
    dsimp only
    split
    next file =>
      have opened := (setup.room fits member file covers).2.2.2
      rw [if_neg (by rw [Option.isNone_iff_eq_none]; exact Option.isSome_iff_ne_none.mp opened)]
      split
      · exact ⟨rfl,added _⟩
      · exact readCluster_maps free
    · rw [Space.mapNew,if_neg (Nat.pos_iff_ne_zero.mp free)]
      exact ⟨rfl,added _⟩

end Loaded

lemma Setup.good (setup : Setup f base phs d.map d.space)
    (fits : AllFit base phs) (apart : Apart base phs) (fresh : FreshCache f cache) :
    Good f base phs d ⟨d.map,d.space,cache⟩ := by
  refine ⟨rfl,fresh,fun v page mapped => ?_,fun _ mapped => mapped⟩
  obtain ⟨other,member,loads,rfl,edge,rfl⟩ := setup.boundary v page mapped
  have fit := fits other member loads
  rintro ph inside loads' a has here
  have onPage : other.OnPage base (pageDown a) := by
    rw [lt_iff_toNat_lt,pageDown_toNat] at edge
    rw [here]
    have size := fit.fileEnd
    have ends := fit.fileEnd_le
    have up := fit.pageUp_memEnd
    refine ⟨?_,?_,?_⟩ <;> simp only [pageDown_toNat] <;> omega
  obtain rfl := apart.unique inside loads' ((fits ph inside loads').onPage has) member loads onPage
  exact fit.boundaryPage f has here

section Fallback

variable {f : File} {image : Buffer} (copied : ∀ j < f.size, image j = f.byte j)

lemma readPhdr_error {e : DemandError} (run : readPhdr f eh i = .error e) : e = .failed := by
  rw [readPhdr] at run
  split at run
  · cases run
    rfl
  · cases run

lemma findInterp_error {n : Nat} {info : LoadInfo} {e : DemandError} (run : findInterp f eh i n info = .error e) :
    e = .failed := by
  induction n generalizing i with
  | zero => cases run
  | succ n ih =>
    rcases bind_error run with failed | ⟨ph,-,run⟩
    · exact readPhdr_error failed
    · split at run
      · cases run
      · exact ih run

lemma demandSegment_eager
    (run : demandSegment f eh base i o ph d = .error .eager) :
    ph.loads ∧ pageDown (ph.segVaddr base) < d.prevPageEnd := by
  rw [demandSegment] at run
  split at run
  · cases run
  rename_i loads
  refine ⟨by simpa using loads,?_⟩
  split at run
  · assumption
  exfalso
  have files {map : Map.VmMap} : mapFilePages base i o ph map ≠ .error .eager := by
    rw [mapFilePages]
    intro wrong
    dsimp only at wrong
    repeat' split at wrong
    all_goals cases wrong
  have edge {space : Space} : loadBoundary f base ph space ≠ .error .eager := by
    rw [loadBoundary]
    intro wrong
    repeat' split at wrong
    all_goals cases wrong
  have zero {map : Map.VmMap} : mapBss base o ph map ≠ .error .eager := by
    rw [mapBss]
    intro wrong
    dsimp only at wrong
    repeat' split at wrong
    all_goals cases wrong
  rcases bind_error run with wrong | ⟨map,-,run⟩
  · exact files wrong
  rcases bind_error run with wrong | ⟨space,-,run⟩
  · exact edge wrong
  rcases bind_error run with wrong | ⟨map',-,run⟩
  · exact zero wrong
  · cases run

include copied in
/-- The demand loader asks for the eager one only if two segments share a page or are out of order. -/
lemma demandSegments_eager (done : List Phdr)
    (run : demandSegments f eh base o i n d = .error .eager)
    (last : d.prevPageEnd = 0 ∨ ∃ ph ∈ done, ph.loads ∧ d.prevPageEnd = pageUp (ph.memEnd base)) :
    ¬ Apart base (done ++ (List.range' i n).map (phdrAt image eh)) := by
  induction n generalizing i d done with
  | zero => cases run
  | succ n ih =>
    rcases bind_error run with failed | ⟨ph,read,run⟩
    · cases readPhdr_error failed
    rw [List.range'_succ,List.map_cons,← readPhdr_eq copied read]
    rcases bind_error run with shared | ⟨d₁,segment,run⟩
    · obtain ⟨loads,before⟩ := demandSegment_eager shared
      intro apart
      rcases last with zero | ⟨other,member,loads',same⟩
      · rw [zero] at before
        exact absurd before UInt64.not_lt_zero
      have order := (List.pairwise_append.mp apart).2.2 other member ph List.mem_cons_self loads' loads
      rw [same,lt_iff_toNat_lt] at before
      omega
    have list : done ++ ph :: (List.range' (i + 1) n).map (phdrAt image eh) =
        (done ++ [ph]) ++ (List.range' (i + 1) n).map (phdrAt image eh) := by simp
    rw [list]
    refine ih _ run ?_
    rcases (demandSegment_cases segment).2 with ⟨_,rfl⟩ | ⟨loads,_,same,_⟩
    · rcases last with zero | ⟨other,member,facts⟩
      · exact .inl zero
      · exact .inr ⟨other,List.mem_append_left _ member,facts⟩
    · exact .inr ⟨ph,List.mem_append_right _ List.mem_cons_self,loads,same⟩

end Fallback

/-- What others put in the cache are pages of the file as it is. -/
def Calm (f : File) (_ : Proc) (e : Event) : Prop := ∀ cache, e = .cache cache → FreshCache f cache

/-- The process that the demand loader leaves, after some faults. -/
def runs (f : File) (d : DemandState) (cache : UInt64 → Option Page) (events : List Event) : Proc :=
  Run.after (step f) ⟨d.map,d.space,cache⟩ events

/-- The demand-loaded program reads the bytes that the eager loader put there, and both loaders report the same. -/
structure Same (f : File) (base : UInt64) (phs : List Phdr) (info : LoadInfo) (space : Space)
    (d : DemandState) : Prop where
  bytes : ∀ cache events, FreshCache f cache → Run.Legal (step f) (Calm f) ⟨d.map,d.space,cache⟩ events →
    ∀ ph ∈ phs, ph.loads → ∀ a, ph.Has base a → ∀ b, (runs f d cache events).space.byte a = some b →
      space.byte a = some b
  resolved : ∀ cache events, FreshCache f cache → Run.Legal (step f) (Calm f) ⟨d.map,d.space,cache⟩ events →
    ∀ ph ∈ phs, ph.loads → ∀ a, ph.Has base a → (runs f d cache events).space.byte a = none →
      0 < (runs f d cache events).space.free → ∀ o, (fault f (runs f d cache events) a o).1 = true ∧
        ((fault f (runs f d cache events) a o).2.space.byte a).isSome
  entry : d.info.entry = info.entry
  phdr : d.info.phdrVa = info.phdrVa
  interp : d.info.interp = info.interp

def interpOf (found : Option Phdr) : UInt64 × UInt64 := (found.map Phdr.interp).getD (0,0)

/-- The first and the last PT_INTERP header are for the same interpreter. -/
def OneInterp (phs : List Phdr) : Prop :=
    interpOf (phs.find? Phdr.isInterp) = interpOf (phs.reverse.find? Phdr.isInterp)

/-- The file has all bytes of the segments, or there are zeros behind the copy in memory. -/
def Complete (f : File) (image : Buffer) (phs : List Phdr) : Prop :=
  ∀ ph ∈ phs, ph.loads → ∀ k < ph.filesz.toNat, f.size ≤ ph.offset.toNat + k → image (ph.offset.toNat + k) = 0

section Main

variable {image : Buffer} {d : DemandState}
  (copied : ∀ j < f.size, image j = f.byte j) (setup : Setup f base phs d.map d.space) (fits : AllFit base phs)
  (apart : Apart base phs)

include copied fits in
lemma Complete.byte (complete : Complete f image phs) (member : ph ∈ phs) (loads : ph.loads)
    (has : ph.Has base a) : ph.byte image base a = ph.byte f.get base a := by
  have fit := fits ph member loads
  have low := le_iff_toNat_le.mp has.1
  have size := fit.fileEnd
  rw [Phdr.byte,Phdr.byte]
  split
  next inside =>
    have high := lt_iff_toNat_lt.mp inside
    rw [File.get]
    split
    next near => exact copied _ near
    next far => exact complete ph member loads _ (by omega) (Nat.not_lt.mp far)
  · rfl

include setup fits apart

lemma runs_good (fresh : FreshCache f cache)
    (legal : Run.Legal (step f) (Calm f) ⟨d.map,d.space,cache⟩ events) : Good f base phs d (runs f d cache events) := by
  refine legal.invariant (I := Good f base phs d) (fun p e good calm => ?_) (setup.good fits apart fresh)
  cases e with
  | fault far o => exact good.fault setup fits apart far o
  | cache cache => exact good.same rfl (calm cache rfl) rfl
  | frames free => exact good.same rfl good.cache rfl

/-- Some run reads the byte of the file at every address of a segment. -/
lemma reads_file (member : ph ∈ phs) (loads : ph.loads) (has : ph.Has base a) :
    ∃ events, Run.Legal (step f) (Calm f) ⟨d.map,d.space,fun _ => none⟩ events ∧
      (runs f d (fun _ => none) events).space.byte a = some (ph.byte f.get base a) := by
  have start : Good f base phs d ⟨d.map,d.space,fun _ => none⟩ := setup.good fits apart nofun
  have good : Good f base phs d (runs f d (fun _ => none) [.frames 1]) := start.same rfl start.cache rfl
  have read {p : Proc} (good : Good f base phs d p) {page : Page} (mapped : p.space.page (pageDown a) = some page) :
      p.space.byte a = some (ph.byte f.get base a) := by
    rw [Space.byte,mapped]
    exact congrArg some (good.right _ _ mapped ph member loads a has rfl)
  cases here : (runs f d (fun _ => none) [.frames 1]).space.page (pageDown a) with
  | some page => exact ⟨[.frames 1],⟨nofun,trivial⟩,read good here⟩
  | none =>
    obtain ⟨_,mapped⟩ := good.resolves setup fits member loads has here Nat.zero_lt_one
      ⟨false,fun _ => false,fun _ => false⟩
    obtain ⟨page,mapped⟩ := Option.isSome_iff_exists.mp mapped
    exact ⟨[.frames 1,.fault a _],⟨nofun,nofun,trivial⟩,read (good.fault setup fits apart a _) mapped⟩

end Main

lemma phdrs_eq (image : Buffer) (eh : Ehdr) :
    phdrs image eh = (List.range' 0 eh.phnum.toNat).map (phdrAt image eh) := by
  rw [phdrs,List.range_eq_range']
  rfl

section Loaders

variable {d : DemandState} {space : Space}
  (copied : ∀ j < f.size, image j = f.byte j) (setup : Setup f base phs d.map d.space) (fits : AllFit base phs)
  (apart : Apart base phs)
  (loaded : ∀ ph ∈ phs, ph.loads → ∀ a, ph.Has base a → space.byte a = some (ph.byte image base a))
include copied setup fits apart loaded

lemma same_of_complete (complete : Complete f image phs) (entry : d.info.entry = info.entry)
    (phdr : d.info.phdrVa = info.phdrVa) (interp : d.info.interp = info.interp) : Same f base phs info space d where
  bytes cache events fresh legal ph member loads a has b read := by
    have good := runs_good setup fits apart fresh legal
    rw [loaded ph member loads a has,complete.byte copied fits member loads has]
    obtain ⟨page,mapped,rfl⟩ := Option.map_eq_some_iff.mp read
    exact congrArg some (good.right _ _ mapped ph member loads a has rfl).symm
  resolved cache events fresh legal ph member loads a has missing free o := by
    have good := runs_good setup fits apart fresh legal
    obtain ⟨done,mapped⟩ := good.resolves setup fits member loads has (Option.map_eq_none_iff.mp missing) free o
    exact ⟨done,by rwa [Space.byte,Option.isSome_map]⟩
  entry := entry
  phdr := phdr
  interp := interp

omit copied in
lemma Same.complete (same : Same f base phs info space d) : Complete f image phs := by
  intro ph member loads k low past
  have fit := fits ph member loads
  have filesz := fit.filesz
  have size := fit.fileEnd
  have ends := fit.memEnd
  have top := fit.memEnd_le
  have place : (ph.segVaddr base + ofNat k).toNat = (ph.segVaddr base).toNat + k := by
    have small : k < 2^64 := by omega
    rw [toNat_add,UInt64.toNat_ofNat',Nat.mod_eq_of_lt small]
    exact Nat.mod_eq_of_lt (by omega)
  have has : ph.Has base (ph.segVaddr base + ofNat k) := by
    rw [Phdr.Has,le_iff_toNat_le,lt_iff_toNat_lt]
    omega
  have inside : ph.segVaddr base + ofNat k < ph.fileEnd base := by
    rw [lt_iff_toNat_lt]
    omega
  obtain ⟨events,legal,read⟩ := reads_file setup fits apart member loads has
  have equal := same.bytes (fun _ => none) events (fun _ _ => nofun) legal ph member loads _ has _ read
  rw [loaded ph member loads _ has,Phdr.byte,Phdr.byte,if_pos inside,if_pos inside,place,Nat.add_sub_cancel_left,
    File.get,
    if_neg (Nat.not_lt.mpr past)] at equal
  exact Option.some.inj equal

end Loaders

/-- A program whose segments share no page is loaded on demand, if there is memory. It is then the program of the eager
loader if and only if its PT_INTERP headers agree and its segments end within the file. -/
theorem demand_loads_same (mach : UInt16) (f : File) (image : Buffer) (base : UInt64) (o : Nat → SegOutcome)
    (frames frames' : Nat) (copied : ∀ j < f.size, image j = f.byte j)
    (fits : AllFit base (phdrs image (Ehdr.at image)))
    (info : LoadInfo) (space : Space) (eager : elf64LoadAt mach image base (.empty frames) = some (info,space)) :
    match elf64LoadDemand mach f base o frames' with
    | .ok d => Apart base (phdrs image (Ehdr.at image)) ∧
      (Same f base (phdrs image (Ehdr.at image)) info space d ↔
        OneInterp (phdrs image (Ehdr.at image)) ∧ Complete f image (phdrs image (Ehdr.at image)))
    | .error .eager => ¬ Apart base (phdrs image (Ehdr.at image))
    | .error .failed => True := by
  have list := phdrs_eq image (Ehdr.at image)
  rw [elf64LoadAt] at eager
  split at eager
  · cases eager
  rw [elf64LoadDemand]
  by_cases refused : (f.pread 0 ehdrSize).1 ≠ ehdrSize ∨ (!Ehdr.native mach (Ehdr.at (f.pread 0 ehdrSize).2)) = true
  · rw [if_pos refused]
    trivial
  rw [if_neg refused]
  have header : Ehdr.at (f.pread 0 ehdrSize).2 = Ehdr.at image :=
    Ehdr.at_congr fun j low =>
      (pread_image copied (not_not.mp fun short => refused (.inl short)) low).trans (congrArg image (Nat.zero_add j))
  rw [header]
  cases first : findInterp f (Ehdr.at image) 0 (Ehdr.at image).phnum.toNat (.init (Ehdr.at image) base) with
  | error e =>
    cases findInterp_error first
    trivial
  | ok info₀ =>
    have interp := findInterp_eq copied first
    rw [← list] at interp
    cases run : demandSegments f (Ehdr.at image) base o 0 (Ehdr.at image).phnum.toNat
      ⟨info₀,.empty,.empty frames',0⟩ with
    | error e =>
      simp only [bind,Except.bind,run]
      cases e with
      | failed => trivial
      | eager =>
        have shared := demandSegments_eager copied [] run (.inl rfl)
        rwa [List.nil_append,← list] at shared
    | ok d =>
      simp only [bind,Except.bind,run]
      have spec := demandSegments_spec copied [] run (setup_nil f base frames')
        (by rw [← list]; exact fits) .nil nofun
      rw [← list] at spec
      obtain ⟨setup,apart,result⟩ := spec
      have known : info = (phdrs image (Ehdr.at image)).foldl (eagerInfo (Ehdr.at image) base)
        (.init (Ehdr.at image) base) :=
        eager_info image (Ehdr.at image) eager
      have loaded ph (member : ph ∈ phdrs image (Ehdr.at image)) (loads : ph.loads) a (has : ph.Has base a) :
          space.byte a = some (ph.byte image base a) := by
        have fit := fits ph member loads
        rw [Space.byte,eager_page image (Ehdr.at image) eager fits apart member loads (fit.onPage has)]
        exact congrArg some (fit.segmentPage image has)
      have start : info₀.entry = (LoadInfo.init (Ehdr.at image) base).entry ∧
          info₀.phdrVa = (LoadInfo.init (Ehdr.at image) base).phdrVa := by
        rw [interp]
        cases (phdrs image (Ehdr.at image)).find? (·.type = ptInterp) <;> exact ⟨rfl,rfl⟩
      have agree := infos_agree (Ehdr.at image) base (phdrs image (Ehdr.at image)) start.1 start.2
      rw [← result,← known] at agree
      have demanded : d.info.interp = interpOf ((phdrs image (Ehdr.at image)).find? Phdr.isInterp) := by
        rw [result,demand_interp,interp]
        change _ = interpOf ((phdrs image (Ehdr.at image)).find? (·.type = ptInterp))
        cases (phdrs image (Ehdr.at image)).find? (·.type = ptInterp) <;> rfl
      have reported : info.interp = interpOf ((phdrs image (Ehdr.at image)).reverse.find? Phdr.isInterp) := by
        rw [known,eager_interp]
        rfl
      refine ⟨apart,fun same => ⟨?_,same.complete setup fits apart loaded⟩,fun ⟨one,complete⟩ => ?_⟩
      · rw [OneInterp,← demanded,← reported]
        exact same.interp
      refine same_of_complete copied setup fits apart loaded complete agree.1 agree.2 ?_
      rw [demanded,reported]
      exact one

/-- EM_AARCH64 -/
abbrev emAarch64 : UInt16 := 183

/-- The header of a static program for aarch64 with `phnum` program headers behind it. -/
def headerBytes (phnum : UInt8) : List UInt8 :=
  [0x7f,0x45,0x4c,0x46,2,1,1,0,0,0,0,0,0,0,0,0] ++ [2,0,183,0,1,0,0,0] ++ [0x78,0,0x40,0,0,0,0,0] ++
    [64,0,0,0,0,0,0,0] ++
    [0,0,0,0,0,0,0,0] ++ [0,0,0,0,64,0,56,0] ++ [phnum,0,0,0,0,0,0,0]

/-- A program header with small numbers; the segment, if it is one, is at 4 MiB. -/
def phdrBytes (type flags offset filesz : UInt8) (pages : UInt8) : List UInt8 :=
  [type,0,0,0,flags,0,0,0] ++ [offset,0,0,0,0,0,0,0] ++ [0,0,0x40,0,0,0,0,0] ++ [0,0,0,0,0,0,0,0] ++
    [filesz,0,0,0,0,0,0,0] ++ [0,16 * pages,0,0,0,0,0,0] ++ [0,16,0,0,0,0,0,0]

def imageOf (bytes : List UInt8) : Buffer := fun i => bytes.getD i 0

def fileOf (bytes : List UInt8) : File where
  size := min bytes.length 4096
  small := Nat.lt_of_le_of_lt (Nat.min_le_right _ _) (by decide)
  byte := imageOf bytes
  ino := 2

def plenty : Nat → SegOutcome := fun _ => ⟨true,true,true⟩

def smallProgram : List UInt8 := headerBytes 1 ++ phdrBytes 1 5 0 120 2

lemma smallProgram_phdrs : phdrs (imageOf smallProgram) (Ehdr.at (imageOf smallProgram)) =
    [⟨1,5,0,0x400000,120,8192⟩] := by
  decide +kernel

theorem demand_loads_same_small : ∃ info space d,
    elf64LoadAt emAarch64 (imageOf smallProgram) 0 (.empty 16) = some (info,space) ∧
    elf64LoadDemand emAarch64 (fileOf smallProgram) 0 plenty 16 = .ok d ∧
    Same (fileOf smallProgram) 0 [⟨1,5,0,0x400000,120,8192⟩] info space d := by
  have copied : ∀ j < (fileOf smallProgram).size, imageOf smallProgram j = (fileOf smallProgram).byte j :=
    fun _ _ => rfl
  have length : (fileOf smallProgram).size = 120 := by decide +kernel
  have headers := smallProgram_phdrs
  have accepted : (elf64LoadAt emAarch64 (imageOf smallProgram) 0 (.empty 16)).isSome := by decide +kernel
  have demanded : (elf64LoadDemand emAarch64 (fileOf smallProgram) 0 plenty 16).isOk := by decide +kernel
  -- the loaders are not to be run again from here on
  generalize imageOf smallProgram = image at *
  generalize fileOf smallProgram = f at *
  have fits : AllFit 0 (phdrs image (Ehdr.at image)) := by
    rw [headers]
    intro ph member _
    rw [List.mem_singleton.mp member]
    constructor <;> decide +kernel
  obtain ⟨⟨info,space⟩,eager⟩ := Option.isSome_iff_exists.mp accepted
  have result := demand_loads_same emAarch64 f image 0 plenty 16 16 copied fits info space eager
  cases demand : elf64LoadDemand emAarch64 f 0 plenty 16 with
  | error e =>
    rw [demand] at demanded
    cases demanded
  | ok d =>
    rw [demand,headers] at result
    refine ⟨info,space,d,eager,rfl,result.2.mpr ⟨by rw [OneInterp]; decide,fun ph member _ k low past => ?_⟩⟩
    rw [List.mem_singleton.mp member] at low past
    have below : k < 120 := low
    have above : f.size ≤ 0 + k := past
    omega

def twoInterps : List UInt8 := headerBytes 3 ++ phdrBytes 1 5 0 120 2 ++ phdrBytes 3 4 10 4 0 ++ phdrBytes 3 4 20 4 0

/-- The demand loader reports the first interpreter, the eager loader the last. -/
theorem interpreters_differ :
    (elf64LoadAt emAarch64 (imageOf twoInterps) 0 (.empty 16)).map (·.1.interp) = some (20,4) ∧
      ((elf64LoadDemand emAarch64 (fileOf twoInterps) 0 plenty 16).toOption).map (·.info.interp) = some (10,4) := by
  decide +kernel

end UbixOS.Kern.Elf64
