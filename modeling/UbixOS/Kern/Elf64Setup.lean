import UbixOS.Kern.Elf64Pages

/-! What the loaders leave behind: the pages of the eager loader, and the VMAs and boundary
pages of the demand loader, by the program headers of the image. -/
namespace UbixOS.Kern.Elf64

open List (mem_cons foldlM_cons mem_cons_self mem_append mem_singleton range' map_cons)

open Library Vmm Function

variable {phs : List Phdr} {s s' : Space}

/-- `v` is the address of a page that the segment touches. -/
def Phdr.OnPage (base : UInt64) (ph : Phdr) (v : UInt64) : Prop :=
  (pageDown (ph.segVaddr base)).toNat ≤ v.toNat ∧ v.toNat < (pageUp (ph.memEnd base)).toNat ∧ v.toNat % 4096 = 0

/-- Every segment starts on a page behind the segments before it. -/
def Apart (base : UInt64) (phs : List Phdr) : Prop :=
  phs.Pairwise fun ph later => ph.loads → later.loads →
    (pageUp (ph.memEnd base)).toNat ≤ (pageDown (later.segVaddr base)).toNat

def AllFit (base : UInt64) (phs : List Phdr) : Prop := ∀ ph ∈ phs, ph.loads → Fits base ph

lemma Fits.onPage (fits : Fits base ph) (has : ph.Has base a) : ph.OnPage base (pageDown a) := by
  have high := UInt64.lt_iff_toNat_lt.mp has.2
  refine ⟨page_low has,?_,?_⟩
  · rw [fits.pageUp_memEnd,pageDown_toNat]
    omega
  · rw [pageDown_toNat]
    exact Nat.mul_mod_left _ _

lemma Apart.unique (apart : Apart base phs) (member : ph ∈ phs)
    (loads : ph.loads) (here : ph.OnPage base v) (member' : other ∈ phs) (loads' : other.loads)
    (here' : other.OnPage base v) :
    ph = other := by
  induction phs with
  | nil => cases member
  | cons first rest ih =>
    obtain ⟨behind,apart⟩ := List.pairwise_cons.mp apart
    rcases mem_cons.mp member with rfl | inside <;> rcases mem_cons.mp member' with rfl | inside'
    · rfl
    · have order := behind other inside' loads loads'
      have high := here.2.1
      have low := here'.1
      omega
    · have order := behind ph inside loads' loads
      have high := here'.2.1
      have low := here.1
      omega
    · exact ih apart inside inside'

lemma mapNew_page (done : s.mapNew va page = some s') : s'.page = update s.page va (some page) := by
  rw [Space.mapNew] at done
  split at done
  · cases done
  · cases done
    rfl

section Eager

variable (image : Buffer) (eh : Ehdr) (base : UInt64)

lemma loadPages_page (ph : Phdr) (n : Nat) (run : loadPages image base ph n va s = some s')
    (aligned : va.toNat % 4096 = 0) (length : va.toNat + n * 4096 = (pageUp (ph.memEnd base)).toNat) (v : UInt64) :
    s'.page v = if va.toNat ≤ v.toNat ∧ v.toNat < (pageUp (ph.memEnd base)).toNat ∧ v.toNat % 4096 = 0 then
      some (segmentPage image base ph v) else s.page v := by
  have top := (pageUp (ph.memEnd base)).toNat_lt
  induction n generalizing va s with
  | zero =>
    cases run
    rw [if_neg (by omega)]
  | succ n ih =>
    have before : va.toNat < (pageUp (ph.memEnd base)).toNat := by omega
    rw [loadPages,if_pos (UInt64.lt_iff_toNat_lt.mpr before)] at run
    cases mapped : s.mapNew va (segmentPage image base ph va) with
    | none =>
      rw [mapped] at run
      cases run
    | some s₁ =>
      rw [mapped] at run
      have next : (va + 4096).toNat = va.toNat + 4096 := by
        rw [UInt64.toNat_add,show (4096 : UInt64).toNat = 4096 from rfl]
        exact Nat.mod_eq_of_lt (by omega)
      rw [ih run (by omega) (by omega),mapNew_page mapped,next]
      by_cases here : v = va
      · subst here
        rw [if_neg (by omega),if_pos ⟨Nat.le_refl _,before,aligned⟩,update_self]
      have other : v.toNat ≠ va.toNat := fun same => here (UInt64.toNat_inj.mp same)
      rw [update_of_ne here]
      by_cases inside : va.toNat + 4096 ≤ v.toNat ∧ v.toNat < (pageUp (ph.memEnd base)).toNat ∧ v.toNat % 4096 = 0
      · rw [if_pos inside,if_pos (by omega)]
      · rw [if_neg inside,if_neg (by omega)]

variable {base}

open Classical in
lemma loadSegment_page (fits : Fits base ph) (run : loadSegment image base ph s = some s')
    (v : UInt64) : s'.page v = if ph.OnPage base v then some (segmentPage image base ph v) else s.page v := by
  have start := pageDown_toNat (ph.segVaddr base)
  have stop := fits.pageUp_memEnd
  have size := fits.memEnd
  have order : (pageDown (ph.segVaddr base)).toNat ≤ (pageUp (ph.memEnd base)).toNat := by omega
  have length : (pageUp (ph.memEnd base) - pageDown (ph.segVaddr base)).toNat =
      (pageUp (ph.memEnd base)).toNat - (pageDown (ph.segVaddr base)).toNat :=
    UInt64.toNat_sub_of_le _ _ (UInt64.le_iff_toNat_le.mpr order)
  rw [loadPages_page image base ph _ run (by omega) (by omega)]
  exact if_congr Iff.rfl rfl rfl

def eagerInfo (base : UInt64) (info : LoadInfo) (ph : Phdr) : LoadInfo :=
  if ph.type = ptInterp then info.setInterp ph else if ph.loads then info.notePhdr eh base ph else info

lemma loadStep_cases (run : loadStep image eh base r ph = some r') : r'.1 = eagerInfo eh base r.1 ph ∧
      (ph.loads = false ∧ r'.2 = r.2 ∨ ph.loads = true ∧ loadSegment image base ph r.2 = some r'.2) := by
  rw [loadStep] at run
  rw [eagerInfo]
  by_cases interp : ph.type = ptInterp
  · rw [if_pos interp] at run ⊢
    cases run
    refine ⟨rfl,.inl ⟨?_,rfl⟩⟩
    rw [Phdr.loads,interp]
    rfl
  rw [if_neg interp] at run ⊢
  cases loads : ph.loads with
  | false =>
    rw [loads] at run
    cases run
    exact ⟨rfl,.inl ⟨rfl,rfl⟩⟩
  | true =>
    rw [loads] at run
    cases loaded : loadSegment image base ph r.2 with
    | none =>
      rw [loaded] at run
      cases run
    | some s =>
      rw [loaded] at run
      cases run
      exact ⟨rfl,.inr ⟨rfl,rfl⟩⟩

section
variable (run : phs.foldlM (loadStep image eh base) r = some r')
include run

lemma eager_info : r'.1 = phs.foldl (eagerInfo eh base) r.1 := by
  induction phs generalizing r with
  | nil =>
    cases run
    rfl
  | cons ph phs ih =>
    rw [foldlM_cons] at run
    obtain ⟨r₁,first,rest⟩ := Option.bind_eq_some_iff.mp run
    rw [ih rest,(loadStep_cases image eh first).1,List.foldl_cons]

lemma eager_keeps
    (fits : AllFit base phs) (away : ∀ ph ∈ phs, ph.loads → ¬ ph.OnPage base v) : r'.2.page v = r.2.page v := by
  induction phs generalizing r with
  | nil =>
    cases run
    rfl
  | cons ph phs ih =>
    rw [foldlM_cons] at run
    obtain ⟨r₁,first,rest⟩ := Option.bind_eq_some_iff.mp run
    rw [ih rest (fun ph member => fits ph (.tail _ member)) fun ph member => away ph (.tail _ member)]
    rcases (loadStep_cases image eh first).2 with ⟨_,same⟩ | ⟨loads,loaded⟩
    · rw [same]
    · rw [loadSegment_page image (fits ph mem_cons_self loads) loaded,if_neg (away ph mem_cons_self loads)]

lemma eager_page (fits : AllFit base phs) (apart : Apart base phs) (member : ph ∈ phs) (loads : ph.loads)
    (here : ph.OnPage base v) : r'.2.page v = some (segmentPage image base ph v) := by
  induction phs generalizing r with
  | nil => cases member
  | cons first phs ih =>
    rw [foldlM_cons] at run
    obtain ⟨r₁,step,rest⟩ := Option.bind_eq_some_iff.mp run
    obtain ⟨behind,apart⟩ := List.pairwise_cons.mp apart
    have fits' : AllFit base phs := fun ph member => fits ph (.tail _ member)
    rcases mem_cons.mp member with rfl | member
    · rw [eager_keeps image eh rest fits' fun other member' loads' here' => ?_]
      · rcases (loadStep_cases image eh step).2 with ⟨none,_⟩ | ⟨_,loaded⟩
        · rw [loads] at none
          cases none
        · rw [loadSegment_page image (fits ph mem_cons_self loads) loaded,if_pos here]
      · have order := behind other member' loads loads'
        have high := here.2.1
        have low := here'.1
        omega
    · exact ih rest fits' apart member

end

end Eager

def fileVma (base : UInt64) (i : Nat) (ph : Phdr) : Map.Entry :=
  ⟨pageDown (ph.segVaddr base),pageDown (ph.fileEnd base),protOf ph.flags,0 ||| Map.vmMapFile,some i,pageDown ph.offset⟩

def bssVma (base : UInt64) (ph : Phdr) : Map.Entry :=
  ⟨pageUp (ph.fileEnd base),pageUp (ph.memEnd base),protOf ph.flags,vmMapAnon,none,0⟩

structure Setup (f : File) (base : UInt64) (phs : List Phdr) (map : Map.VmMap) (space : Space) : Prop where
  made : ∀ e ∈ map.entries, ∃ ph ∈ phs, ph.loads ∧
    ((∃ i, e = fileVma base i ph) ∨ e = bssVma base ph ∧ pageUp (ph.fileEnd base) < pageUp (ph.memEnd base))
  boundary : ∀ v page, space.page v = some page → ∃ ph ∈ phs, ph.loads ∧ v = pageDown (ph.fileEnd base) ∧
    pageDown (ph.fileEnd base) < ph.fileEnd base ∧ page = boundaryPage f base ph
  file : ∀ ph ∈ phs, ph.loads → pageDown (ph.segVaddr base) < pageDown (ph.fileEnd base) →
    ∃ i, fileVma base i ph ∈ map.entries
  edge : ∀ ph ∈ phs, ph.loads → pageDown (ph.fileEnd base) < ph.fileEnd base →
    (space.page (pageDown (ph.fileEnd base))).isSome
  bss : ∀ ph ∈ phs, ph.loads → pageUp (ph.fileEnd base) < pageUp (ph.memEnd base) → bssVma base ph ∈ map.entries

lemma setup_nil (f : File) (base : UInt64) (frames : Nat) : Setup f base [] .empty (.empty frames) :=
  ⟨nofun,nofun,nofun,nofun,nofun⟩

lemma mem_rbInsert (map : Map.VmMap) (e other : Map.Entry) :
    other ∈ (map.rbInsert e).entries ↔ other = e ∨ other ∈ map.entries := by
  rw [Map.VmMap.rbInsert,(SearchTree.place_perm _ e map.entries).mem_iff,mem_cons]

section Demand

lemma mapFilePages_entries (run : mapFilePages base i o ph map = .ok map') (e : Map.Entry) :
    e ∈ map'.entries ↔ e = fileVma base i ph ∧ pageDown (ph.segVaddr base) < pageDown (ph.fileEnd base) ∨
      e ∈ map.entries := by
  rw [mapFilePages] at run
  split at run
  next some =>
    split at run
    · cases run
    cases given : o.insertFile with
    | false =>
      rw [given] at run
      cases run
    | true =>
      rw [given] at run
      cases run
      refine (mem_rbInsert map (fileVma base i ph) e).trans ?_
      simp only [some,and_true]
  next none =>
    cases run
    simp only [none,and_false,false_or]

lemma mapBss_entries (run : mapBss base o ph map = .ok map') (e : Map.Entry) :
    e ∈ map'.entries ↔ e = bssVma base ph ∧ pageUp (ph.fileEnd base) < pageUp (ph.memEnd base) ∨ e ∈ map.entries := by
  rw [mapBss] at run
  split at run
  next some =>
    cases given : o.insertAnon with
    | false =>
      rw [given] at run
      cases run
    | true =>
      rw [given] at run
      cases run
      refine (mem_rbInsert map (bssVma base ph) e).trans ?_
      simp only [some,and_true]
  next none =>
    cases run
    simp only [none,and_false,false_or]

lemma loadBoundary_page (run : loadBoundary f base ph s = .ok s') (v : UInt64) :
    s'.page v = if v = pageDown (ph.fileEnd base) ∧ pageDown (ph.fileEnd base) < ph.fileEnd base then
      some (boundaryPage f base ph) else s.page v := by
  rw [loadBoundary] at run
  split at run
  next some =>
    cases mapped : s.mapNew (pageDown (ph.fileEnd base)) (boundaryPage f base ph) with
    | none =>
      rw [mapped] at run
      cases run
    | some s₁ =>
      rw [mapped] at run
      cases run
      rw [mapNew_page mapped]
      by_cases here : v = pageDown (ph.fileEnd base)
      · rw [if_pos ⟨here,some⟩,here,update_self]
      · rw [if_neg (fun both => here both.1),update_of_ne here]
  next none =>
    cases run
    rw [if_neg (fun both => none both.2)]

def demandInfo (eh : Ehdr) (base : UInt64) (info : LoadInfo) (ph : Phdr) : LoadInfo :=
  if ph.loads then info.notePhdr eh base ph else info

lemma demandSegment_cases (run : demandSegment f eh base i o ph d = .ok d') :
    d'.info = demandInfo eh base d.info ph ∧ (ph.loads = false ∧ d' = d ∨
      ph.loads = true ∧ d.prevPageEnd ≤ pageDown (ph.segVaddr base) ∧ d'.prevPageEnd = pageUp (ph.memEnd base) ∧
        loadBoundary f base ph d.space = .ok d'.space ∧
        ∃ map, mapFilePages base i o ph d.map = .ok map ∧ mapBss base o ph map = .ok d'.map) := by
  rw [demandSegment] at run
  rw [demandInfo]
  cases loads : ph.loads with
  | false =>
    rw [loads] at run
    cases run
    exact ⟨rfl,.inl ⟨rfl,rfl⟩⟩
  | true =>
    rw [loads] at run
    simp only [Bool.not_true,Bool.false_eq_true,if_false] at run
    split at run
    · cases run
    rename_i behind
    obtain ⟨map,files,run⟩ := bind_ok run
    obtain ⟨space,edge,run⟩ := bind_ok run
    obtain ⟨map',zero,run⟩ := bind_ok run
    cases run
    exact ⟨rfl,.inr ⟨rfl,UInt64.not_lt.mp behind,rfl,edge,map,files,zero⟩⟩

lemma Setup.segment (setup : Setup f base phs d.map d.space)
    (run : demandSegment f eh base i o ph d = .ok d') : Setup f base (phs ++ [ph]) d'.map d'.space := by
  have old {other : Phdr} (member : other ∈ phs) : other ∈ phs ++ [ph] := List.mem_append_left _ member
  have new : ph ∈ phs ++ [ph] := List.mem_append_right _ mem_cons_self
  have split {other : Phdr} (member : other ∈ phs ++ [ph]) : other ∈ phs ∨ other = ph := by
    rcases mem_append.mp member with before | last
    · exact .inl before
    · exact .inr (mem_singleton.mp last)
  rcases (demandSegment_cases run).2 with ⟨none,rfl⟩ | ⟨loads,_,_,edge,map,files,zero⟩
  · have before {other : Phdr} (member : other ∈ phs ++ [ph]) (loads : other.loads) : other ∈ phs := by
      rcases split member with before | rfl
      · exact before
      · rw [none] at loads
        cases loads
    refine ⟨fun e inside => ?_,fun v page mapped => ?_,fun other member loads =>
      setup.file other (before member loads) loads,
      fun other member loads => setup.edge other (before member loads) loads,
      fun other member loads => setup.bss other (before member loads) loads⟩
    · obtain ⟨other,member,facts⟩ := setup.made e inside
      exact ⟨other,old member,facts⟩
    · obtain ⟨other,member,facts⟩ := setup.boundary v page mapped
      exact ⟨other,old member,facts⟩
  have entries (e : Map.Entry) : e ∈ d'.map.entries ↔
      e = bssVma base ph ∧ pageUp (ph.fileEnd base) < pageUp (ph.memEnd base) ∨
      e = fileVma base i ph ∧ pageDown (ph.segVaddr base) < pageDown (ph.fileEnd base) ∨ e ∈ d.map.entries := by
    rw [mapBss_entries zero,mapFilePages_entries files]
  have pages := loadBoundary_page edge
  constructor
  · intro e inside
    rcases (entries e).mp inside with ⟨here,some⟩ | ⟨here,_⟩ | before
    · exact ⟨ph,new,loads,.inr ⟨here,some⟩⟩
    · exact ⟨ph,new,loads,.inl ⟨i,here⟩⟩
    · obtain ⟨other,member,facts⟩ := setup.made e before
      exact ⟨other,old member,facts⟩
  · intro v page mapped
    rw [pages] at mapped
    split at mapped
    next here =>
      cases mapped
      exact ⟨ph,new,loads,here.1,here.2,rfl⟩
    · obtain ⟨other,member,facts⟩ := setup.boundary v page mapped
      exact ⟨other,old member,facts⟩
  · intro other member loads' some
    rcases split member with before | rfl
    · obtain ⟨j,inside⟩ := setup.file other before loads' some
      exact ⟨j,(entries _).mpr (.inr (.inr inside))⟩
    · exact ⟨i,(entries _).mpr (.inr (.inl ⟨rfl,some⟩))⟩
  · intro other member loads' some
    rw [pages]
    split
    · rfl
    rename_i away
    rcases split member with before | rfl
    · exact setup.edge other before loads' some
    · exact absurd ⟨rfl,some⟩ away
  · intro other member loads' some
    rcases split member with before | rfl
    · exact (entries _).mpr (.inr (.inr (setup.bss other before loads' some)))
    · exact (entries _).mpr (.inl ⟨rfl,some⟩)

end Demand

lemma Phdr.at_congr (same : ∀ j < phdrSize, b j = c j) : Phdr.at b = Phdr.at c := by
  have start : Layout.u32.get b = Layout.u32.get c := Layout.u32.get_drop_congr same (show 0 + 4 ≤ phdrSize by decide)
  have flags : Layout.u32.get (b.drop 4) = Layout.u32.get (c.drop 4) := Layout.u32.get_drop_congr same (by decide)
  have word (off : Nat) (inside : off + 8 ≤ phdrSize) : Layout.u64.get (b.drop off) = Layout.u64.get (c.drop off) :=
    Layout.u64.get_drop_congr same inside
  rw [Phdr.at,Phdr.at,start,flags,word 8 (by decide),word 16 (by decide),word 32 (by decide),word 40 (by decide)]

lemma Ehdr.at_congr (same : ∀ j < ehdrSize, b j = c j) : Ehdr.at b = Ehdr.at c := by
  have start : b.toBytes 16 = c.toBytes 16 := funext fun j => same j.val (Nat.lt_trans j.isLt (by decide))
  have half (off : Nat) (inside : off + 2 ≤ ehdrSize) : Layout.u16.get (b.drop off) = Layout.u16.get (c.drop off) :=
    Layout.u16.get_drop_congr same inside
  have word (off : Nat) (inside : off + 8 ≤ ehdrSize) : Layout.u64.get (b.drop off) = Layout.u64.get (c.drop off) :=
    Layout.u64.get_drop_congr same inside
  rw [Ehdr.at,Ehdr.at,start,half 16 (by decide),half 18 (by decide),word 24 (by decide),word 32 (by decide),
    half 54 (by decide),half 56 (by decide)]

lemma pread_image {f : File} {image : Buffer} (copied : ∀ j < f.size, image j = f.byte j)
    (complete : (f.pread off len).1 = len) (low : j < len) : (f.pread off len).2 j = image.drop off.toNat j := by
  have count : min len (f.size - off.toNat) = len := complete
  rw [File.pread_apply,if_pos low,File.get,if_pos (by omega),Buffer.drop_apply,copied _ (by omega)]

section Demand

variable {f : File} {image : Buffer} (copied : ∀ j < f.size, image j = f.byte j)
include copied

def phdrAt (image : Buffer) (eh : Ehdr) (i : Nat) : Phdr := Phdr.at (image.drop (eh.phdrOff i).toNat)

lemma readPhdr_eq {i : Nat} (run : readPhdr f eh i = .ok ph) : ph = phdrAt image eh i := by
  rw [readPhdr] at run
  split at run
  · cases run
  rename_i complete
  cases run
  exact Phdr.at_congr fun j low => pread_image copied (not_not.mp complete) low

lemma findInterp_eq (run : findInterp f eh i n info = .ok info') :
    info' = ((((range' i n).map (phdrAt image eh)).find? (·.type = ptInterp)).map info.setInterp).getD info := by
  induction n generalizing i with
  | zero =>
    cases run
    rfl
  | succ n ih =>
    obtain ⟨ph,read,run⟩ := bind_ok run
    rw [List.range'_succ,map_cons,List.find?_cons,← readPhdr_eq copied read]
    by_cases interp : ph.type = ptInterp
    · rw [if_pos interp] at run
      cases run
      rw [decide_eq_true interp]
      rfl
    · rw [if_neg interp] at run
      rw [decide_eq_false interp]
      exact ih run

lemma demandSegments_spec (done : List Phdr)
    (run : demandSegments f eh base o i n d = .ok d') (setup : Setup f base done d.map d.space)
    (fits : AllFit base (done ++ (range' i n).map (phdrAt image eh))) (apart : Apart base done)
    (order : ∀ ph ∈ done, ph.loads → (pageUp (ph.memEnd base)).toNat ≤ d.prevPageEnd.toNat) :
    Setup f base (done ++ (range' i n).map (phdrAt image eh)) d'.map d'.space ∧
      Apart base (done ++ (range' i n).map (phdrAt image eh)) ∧
      d'.info = ((range' i n).map (phdrAt image eh)).foldl (demandInfo eh base) d.info := by
  induction n generalizing i d done with
  | zero =>
    cases run
    rw [List.range'_zero,List.map_nil,List.append_nil]
    exact ⟨setup,apart,rfl⟩
  | succ n ih =>
    obtain ⟨ph,read,run⟩ := bind_ok run
    obtain ⟨d₁,segment,run⟩ := bind_ok run
    rw [List.range'_succ,map_cons,← readPhdr_eq copied read] at fits ⊢
    have list : done ++ ph :: (range' (i + 1) n).map (phdrAt image eh) =
        (done ++ [ph]) ++ (range' (i + 1) n).map (phdrAt image eh) := by simp
    rw [list] at fits ⊢
    obtain ⟨info,cases⟩ := demandSegment_cases segment
    have apart' : Apart base (done ++ [ph]) := by
      refine List.pairwise_append.mpr ⟨apart,List.pairwise_singleton ..,fun other member last same loads loads' => ?_⟩
      rw [mem_singleton.mp same] at loads' ⊢
      rcases cases with ⟨none,_⟩ | ⟨_,behind,_⟩
      · rw [none] at loads'
        cases loads'
      · exact Nat.le_trans (order other member loads) (UInt64.le_iff_toNat_le.mp behind)
    have order' other (member : other ∈ done ++ [ph]) (loads : other.loads) :
        (pageUp (other.memEnd base)).toNat ≤ d₁.prevPageEnd.toNat := by
      rcases cases with ⟨none,same⟩ | ⟨_,behind,last,_⟩
      · rcases mem_append.mp member with before | here
        · rw [same]
          exact order other before loads
        · rw [mem_singleton.mp here,none] at loads
          cases loads
      rw [last]
      rcases mem_append.mp member with before | here
      · have inside : ph ∈ (done ++ [ph]) ++ (range' (i + 1) n).map (phdrAt image eh) := by simp
        have fit := fits ph inside ‹_›
        have below := order other before loads
        have above := UInt64.le_iff_toNat_le.mp behind
        have down := pageDown_le (ph.segVaddr base)
        have size := fit.memEnd
        have up := fit.pageUp_memEnd
        omega
      · exact Nat.le_of_eq (by rw [mem_singleton.mp here])
    obtain ⟨result,chain,final⟩ := ih _ run (setup.segment segment) fits apart' order'
    exact ⟨result,chain,by rw [final,info,List.foldl_cons]⟩

end Demand

end UbixOS.Kern.Elf64
