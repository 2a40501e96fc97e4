import UbixOS.Pkg.Commands

/-! The time stamps of an index (lib/libpkg/version.c, `pkg_time_parse`) against the calendar. -/
namespace UbixOS.Pkg

open Finset

/-- `digits`, with `none` for −1. -/
def digits (s : Bytes) : Option Nat :=
    s.foldlM (fun v c => if isDigit c then some (v * 10 + (c.toNat - 48)) else none) 0

/-- The days since 1970-01-01 of the source, for a day counted from one. -/
def daysFromCivil (y mo d : Int) : Int :=
  let yy := y - if mo ≤ 2 then 1 else 0
  let era := yy / 400
  let yoe := yy - era * 400
  let doy := (153 * (mo + if mo > 2 then -3 else 9) + 2) / 5 + d - 1
  let doe := yoe * 365 + yoe / 4 - yoe / 100 + doy
  era * 146097 + doe - 719468

/-- `pkg_time_parse`; the text has twenty bytes before its end. -/
def timeParse : Bytes → Option Int
  | [y0,y1,y2,y3,c4,o0,o1,c7,d0,d1,c10,h0,h1,c13,i0,i1,c16,s0,s1,c19] =>
    if c4 ≠ 45 ∨ c7 ≠ 45 ∨ c10 ≠ 84 ∨ c13 ≠ 58 ∨ c16 ≠ 58 ∨ c19 ≠ 90 then none
    else do
      let y ← digits [y0,y1,y2,y3]
      let mo ← digits [o0,o1]
      let d ← digits [d0,d1]
      let h ← digits [h0,h1]
      let mi ← digits [i0,i1]
      let se ← digits [s0,s1]
      if y < 1970 ∨ mo < 1 ∨ mo > 12 ∨ d < 1 ∨ d > 31 ∨ h > 23 ∨ mi > 59 ∨ se > 60 then none
      else some (daysFromCivil y mo d * 86400 + h * 3600 + mi * 60 + se)
  | _ => none

def isLeap (y : Nat) : Prop := y % 4 = 0 ∧ (y % 100 ≠ 0 ∨ y % 400 = 0)

instance : DecidablePred isLeap := fun _ => inferInstanceAs (Decidable (_ ∧ _))

def monthDays (y mo : Nat) : Nat :=
  if mo = 2 then if isLeap y then 29 else 28
  else if mo = 4 ∨ mo = 6 ∨ mo = 9 ∨ mo = 11 then 30
  else 31

def yearDays (y : Nat) : Nat := ∑ m ∈ range 12, monthDays y (m + 1)

structure Stamp where
  y : Nat
  mo : Nat
  d : Nat
  h : Nat
  mi : Nat
  se : Nat

namespace Stamp

def pad : Nat → Nat → Bytes
  | 0, _ => []
  | n + 1, v => pad n (v / 10) ++ [UInt8.ofNat (48 + v % 10)]

/-- `YYYY-MM-DDTHH:MM:SSZ` -/
def text (t : Stamp) : Bytes :=
  pad 4 t.y ++ [45] ++ pad 2 t.mo ++ [45] ++ pad 2 t.d ++ [84] ++ pad 2 t.h ++ [58] ++ pad 2 t.mi ++ [58] ++
    pad 2 t.se ++ [90]

/-- The fields lie in the ranges that the parser checks. -/
abbrev Ranged (t : Stamp) : Prop :=
  1970 ≤ t.y ∧ t.y ≤ 9999 ∧ 1 ≤ t.mo ∧ t.mo ≤ 12 ∧ 1 ≤ t.d ∧ t.d ≤ 31 ∧ t.h ≤ 23 ∧ t.mi ≤ 59 ∧ t.se ≤ 60

def Exists (t : Stamp) : Prop := t.Ranged ∧ t.d ≤ monthDays t.y t.mo

def days (t : Stamp) : Nat :=
  ∑ y ∈ Finset.Ico 1970 t.y, yearDays y + ∑ m ∈ range (t.mo - 1), monthDays t.y (m + 1) + (t.d - 1)

def seconds (t : Stamp) : Nat := t.days * 86400 + t.h * 3600 + t.mi * 60 + t.se

end Stamp

lemma yearDays_eq (y : Nat) : yearDays y = if isLeap y then 366 else 365 := by
  simp [yearDays,sum_range_succ,monthDays]
  split <;> rfl

/-- The days of all the years before, since the year zero. -/
lemma years_eq (low : 1970 ≤ y) :
    (∑ i ∈ Finset.Ico 1970 y, yearDays i : Nat) + 719162 =
    (y - 1) * 365 + (y - 1) / 4 - (y - 1) / 100 + (y - 1) / 400 := by
  induction y, low using Nat.le_induction with
  | base => rfl
  | succ y low ih =>
    rw [sum_Ico_succ_top low,yearDays_eq]
    by_cases leap : isLeap y <;> simp only [leap,if_true,if_false] <;> unfold isLeap at leap <;> omega

/-- The days of the months before; the source counts them from March on. -/
lemma months_eq (first : 1 ≤ mo) (last : mo ≤ 12) : ((∑ m ∈ range (mo - 1), monthDays y (m + 1) : Nat) : Int) =
      (153 * (mo + if (mo : Int) > 2 then -3 else 9) + 2) / 5 + if (mo : Int) ≤ 2 then -306 else if isLeap y then 60
        else 59 := by
  interval_cases mo <;> simp [sum_range_succ,monthDays] <;> split <;> rfl

lemma daysFromCivil_eq {t : Stamp} (ranged : t.Ranged) : daysFromCivil t.y t.mo t.d = t.days := by
  obtain ⟨low,-,first,last,day,-⟩ := ranged
  have years := years_eq low
  have months := months_eq (y := t.y) first last
  simp only [daysFromCivil,Stamp.days]
  by_cases early : (t.mo : Int) ≤ 2
  · simp only [early,if_true] at months ⊢
    omega
  · by_cases leap : isLeap t.y <;> simp only [early,leap,if_true,if_false] at months ⊢ <;> unfold isLeap
      at leap <;> omega

lemma digits_append (xs : Bytes) (c : UInt8) :
    digits (xs ++ [c]) = (digits xs).bind fun v => if isDigit c then some (v * 10 + (c.toNat - 48)) else none := by
  simp [digits]

lemma byte_iff (c : UInt8) (less : k < 10) : c = UInt8.ofNat (48 + k) ↔ c.toNat = 48 + k := by
  rw [← UInt8.toNat_inj,UInt8.toNat_ofNat',Nat.mod_eq_of_lt (by omega)]

lemma digits_iff (xs : Bytes) (v : Nat) : digits xs = some v ↔ v < 10 ^ xs.length ∧ xs = Stamp.pad xs.length v := by
  induction xs using List.reverseRecOn generalizing v with
  | nil =>
    have zero : v < 1 ↔ 0 = v := by omega
    exact (Option.some_inj.trans zero.symm).trans (iff_self_and.mpr fun _ => rfl)
  | append_singleton xs c ih =>
    have digit : isDigit c ↔ 48 ≤ c.toNat ∧ c.toNat ≤ 57 := by simp [isDigit,UInt8.le_iff_toNat_le]
    have split : xs ++ [c] = Stamp.pad xs.length (v / 10) ++ [UInt8.ofNat (48 + v % 10)] ↔
        xs = Stamp.pad xs.length (v / 10) ∧ c.toNat = 48 + v % 10 := by
      rw [← byte_iff c (Nat.mod_lt _ (by decide))]
      simp
    simp only [digits_append,Option.bind_eq_some_iff,ih,List.length_append,List.length_singleton,Stamp.pad,
      pow_succ,split,
      Option.ite_none_right_eq_some,digit,Option.some_inj]
    constructor
    · rintro ⟨a,⟨small,same⟩,range,rfl⟩
      rw [show (a * 10 + (c.toNat - 48)) / 10 = a by omega]
      exact ⟨by omega,same,by omega⟩
    · rintro ⟨small,same,last⟩
      exact ⟨v / 10,⟨by omega,same⟩,by omega,by omega⟩

lemma Stamp.pad_length (n v : Nat) : (pad n v).length = n := by
  induction n generalizing v with
  | zero => rfl
  | succ n ih => simp [pad,ih]

lemma digits_pad (less : v < 10 ^ n) : digits (Stamp.pad n v) = some v := by
  rw [digits_iff,Stamp.pad_length]
  exact ⟨less,rfl⟩

lemma timeParse_text {t : Stamp} (ranged : t.Ranged) : timeParse t.text = some (t.seconds : Int) := by
  have days := daysFromCivil_eq ranged
  obtain ⟨low,high,first,last,day,late,hour,minute,second⟩ := ranged
  have year : digits (Stamp.pad 4 t.y) = some t.y := digits_pad (by omega)
  have month : digits (Stamp.pad 2 t.mo) = some t.mo := digits_pad (by omega)
  have date : digits (Stamp.pad 2 t.d) = some t.d := digits_pad (by omega)
  have hours : digits (Stamp.pad 2 t.h) = some t.h := digits_pad (by omega)
  have minutes : digits (Stamp.pad 2 t.mi) = some t.mi := digits_pad (by omega)
  have seconds : digits (Stamp.pad 2 t.se) = some t.se := digits_pad (by omega)
  simp only [Stamp.pad,List.nil_append,List.cons_append] at year month date hours minutes seconds
  simp only [timeParse,Stamp.text,Stamp.pad,List.nil_append,List.cons_append,year,month,date,hours,minutes,seconds]
  simp [Stamp.seconds,days]
  omega

lemma timeParse_some (parsed : timeParse s = some v) : ∃ t : Stamp, t.Ranged ∧ s = t.text ∧ v = t.seconds := by
  unfold timeParse at parsed
  split at parsed
  next =>
    split at parsed
    next => cases parsed
    next marks =>
      simp only [Option.bind_eq_bind,Option.bind_eq_some_iff,digits_iff,List.length_cons,List.length_nil] at parsed
      obtain ⟨y,⟨yl,year⟩,mo,⟨-,month⟩,d,⟨-,day⟩,h,⟨-,hour⟩,mi,⟨-,minute⟩,se,⟨-,second⟩,parsed⟩ := parsed
      split at parsed
      next => cases parsed
      next range =>
        have ranged : Stamp.Ranged ⟨y,mo,d,h,mi,se⟩ := by
          simp only [Stamp.Ranged]
          omega
        refine ⟨⟨y,mo,d,h,mi,se⟩,ranged,?_,?_⟩
        · simp only [Stamp.text]
          simp only [not_or,not_not] at marks
          simp [← year,← month,← day,← hour,← minute,← second,marks]
        · have days := daysFromCivil_eq ranged
          simp_all [Stamp.seconds]
  next => cases parsed

namespace Stamp

lemma date_of_text {t u : Stamp} (ranged : t.Ranged) (other : u.Ranged) (same : t.text = u.text) :
    t.y = u.y ∧ t.mo = u.mo ∧ t.d = u.d := by
  have read {t : Stamp} (ranged : t.Ranged) : digits (t.text.take 4) = some t.y ∧
      digits ((t.text.drop 5).take 2) = some t.mo ∧ digits ((t.text.drop 8).take 2) = some t.d := by
    obtain ⟨-,high,-,last,-,late,-⟩ := ranged
    have year : digits (pad 4 t.y) = some t.y := digits_pad (by omega)
    have month : digits (pad 2 t.mo) = some t.mo := digits_pad (by omega)
    have day : digits (pad 2 t.d) = some t.d := digits_pad (by omega)
    simp_all [text,pad]
  have first := read ranged
  rw [same] at first
  simpa [read other,eq_comm] using first

def Before (t u : Stamp) : Prop :=
  t.y < u.y ∨ t.y = u.y ∧ (t.mo < u.mo ∨ t.mo = u.mo ∧ (t.d < u.d ∨ t.d = u.d ∧
    (t.h < u.h ∨ t.h = u.h ∧ (t.mi < u.mi ∨ t.mi = u.mi ∧ t.se < u.se))))

lemma months_lt {t : Stamp} (real : t.Exists) (less : t.mo ≤ n) :
    ∑ m ∈ range (t.mo - 1), monthDays t.y (m + 1) + (t.d - 1) < ∑ m ∈ range n, monthDays t.y (m + 1) := by
  obtain ⟨⟨-,-,first,-,day,-⟩,fits⟩ := real
  have more : ∑ m ∈ range t.mo, monthDays t.y (m + 1) ≤ ∑ m ∈ range n, monthDays t.y (m + 1) :=
    sum_le_sum_of_subset (range_mono less)
  obtain ⟨k,here⟩ := Nat.exists_eq_add_of_le' first
  rw [here,sum_range_succ] at more
  rw [here] at fits ⊢
  simp only [Nat.add_sub_cancel]
  omega

lemma days_lt {t u : Stamp} (real : t.Exists)
    (before : t.y < u.y ∨ t.y = u.y ∧ (t.mo < u.mo ∨ t.mo = u.mo ∧ t.d < u.d)) : t.days < u.days := by
  have day : 1 ≤ t.d := real.1.2.2.2.2.1
  simp only [days]
  rcases before with year | ⟨year,month | ⟨month,date⟩⟩
  · have more : ∑ y ∈ Finset.Ico 1970 (t.y + 1), yearDays y ≤ ∑ y ∈ Finset.Ico 1970 u.y, yearDays y :=
      sum_le_sum_of_subset (Finset.Ico_subset_Ico_right year)
    rw [sum_Ico_succ_top real.1.1] at more
    have less : _ < yearDays t.y := months_lt real real.1.2.2.2.1
    omega
  · have less := months_lt real (Nat.le_sub_one_of_lt month)
    rw [← year]
    omega
  · rw [year,month]
    omega

lemma seconds_le {t u : Stamp} (real : t.Exists) (before : t.Before u) :
    t.seconds ≤ u.seconds ∧ (t.se < 60 → t.seconds < u.seconds) := by
  have earlier := days_lt real (u := u)
  obtain ⟨⟨-,-,-,-,-,-,hour,minute,second⟩,-⟩ := real
  have same (year : t.y = u.y) (month : t.mo = u.mo) (day : t.d = u.d) : t.days = u.days := by
    simp only [days,year,month,day]
  simp only [Before] at before
  simp only [seconds]
  rcases before with year | ⟨year,month | ⟨month,day | ⟨day,clock⟩⟩⟩
  · have := earlier (.inl year)
    omega
  · have := earlier (.inr ⟨year,.inl month⟩)
    omega
  · have := earlier (.inr ⟨year,.inr ⟨month,day⟩⟩)
    omega
  · have := same year month day
    omega

end Stamp

/-- The text is parsed exactly if it names an instant, to the seconds of that. -/
def TimeCorrect (s : Bytes) : Prop :=
    ∀ v : Int, timeParse s = some v ↔ ∃ t : Stamp, t.Exists ∧ s = t.text ∧ v = t.seconds

/-- The stamp names a day up to the 31st that its month does not have. -/
def LateDay (s : Bytes) : Prop := ∃ t : Stamp, t.Ranged ∧ monthDays t.y t.mo < t.d ∧ s = t.text

lemma LateDay.wrong (late : LateDay s) : ¬TimeCorrect s := by
  rintro right
  obtain ⟨t,ranged,late,rfl⟩ := late
  obtain ⟨u,real,same,-⟩ := (right _).mp (timeParse_text ranged)
  obtain ⟨year,month,day⟩ := Stamp.date_of_text ranged real.1 same
  have fits := real.2
  rw [← year,← month,← day] at fits
  omega

/-- `pkg_time_parse` follows the calendar but for the days after the end of a month. -/
theorem timeParse_calendar (s : Bytes) : (TimeCorrect s ↔ ¬LateDay s) ∧
    ∀ t u : Stamp, t.Exists → u.Exists → t.Before u → t.seconds ≤ u.seconds ∧ (t.se < 60 → t.seconds < u.seconds) := by
  refine ⟨⟨fun right late => late.wrong right,fun none v => ⟨fun parsed => ?_,?_⟩⟩,fun t u real _ => t.seconds_le real⟩
  · obtain ⟨t,ranged,text,value⟩ := timeParse_some parsed
    exact ⟨t,⟨ranged,not_lt.mp fun late => none ⟨t,ranged,late,text⟩⟩,text,value⟩
  · rintro ⟨t,real,rfl,rfl⟩
    exact timeParse_text real.1

/-- The thirty-first of February is taken for the third of March. -/
theorem february_accepted : timeParse (ascii "2026-02-31T00:00:00Z") = timeParse (ascii "2026-03-03T00:00:00Z") ∧
    ¬TimeCorrect (ascii "2026-02-31T00:00:00Z") :=
  ⟨by decide +kernel,LateDay.wrong ⟨⟨2026,2,31,0,0,0⟩,by decide,by decide,by decide +kernel⟩⟩

end UbixOS.Pkg
