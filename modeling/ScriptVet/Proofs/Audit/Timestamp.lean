import ScriptVet.Proofs.Audit.Calendar
import ScriptVet.Proofs.Text.Padded
import Mathlib.Data.List.Forall2

namespace ScriptVet.Audit.Timestamp

open Calendar (Date)

section Written

/-- Numbers in their widths, each with a mark behind it. -/
def written : List (Nat × UInt8) → List Nat → Text
  | (width, mark) :: layout, n :: ns => numeral width n ++ mark :: written layout ns
  | _, _ => []

/-- Each number has a place, and enough of it. -/
def Fits (layout : List (Nat × UInt8)) (ns : List Nat) : Prop :=
  List.Forall₂ (fun l n => 0 < l.1 ∧ n < 10 ^ l.1) layout ns

/-- Where a number begins. -/
def start (layout : List (Nat × UInt8)) (i : Nat) : Nat := ((layout.take i).map (·.1 + 1)).sum

variable {layout : List (Nat × UInt8)} {ns : List Nat}

theorem written_lt_iff {ns' : List Nat} (h : Fits layout ns) (h' : Fits layout ns') :
    written layout ns < written layout ns' ↔ ns < ns' := by
  induction h generalizing ns' with
  | nil =>
    cases h'
    exact iff_of_false (List.lt_irrefl []) (List.lt_irrefl [])
  | @cons l n layout ns hn _ ih =>
    cases h' with
    | @cons _ n' _ ns' hn' hns' =>
      have hlen : (numeral l.1 n).length = (numeral l.1 n').length := by
        rw [numeral, numeral, Text.length_padded hn.1 hn.2, Text.length_padded hn'.1 hn'.2]
      rw [written, written, Text.append_lt_append_iff hlen, numeral, numeral,
        Text.padded_lt_iff hn.1 hn.2 hn'.2, Text.padded_inj, List.cons_lt_cons_iff,
        List.cons_lt_cons_iff, ih hns']
      simp

/-- What begins with a number is written as the rest of the numbers is. -/
theorem drop_written (h : Fits layout ns) (i : Nat) :
    (written layout ns).drop (start layout i) = written (layout.drop i) (ns.drop i) := by
  induction h generalizing i with
  | nil => simp [written]
  | @cons l n layout ns hn _ ih =>
    cases i with
    | zero => rfl
    | succ i =>
      have hstart : start (l :: layout) (i + 1) = (numeral l.1 n ++ [l.2]).length + start layout i := by
        rw [List.length_append, List.length_singleton, numeral, Text.length_padded hn.1 hn.2]
        rfl
      rw [written, List.append_cons, hstart, List.drop_length_add_append, ih]
      rfl

/-- Every number is found at its place, with its mark behind it. -/
theorem written_at (h : Fits layout ns) {i n : Nat} {l : Nat × UInt8} (hl : layout[i]? = some l)
    (hn : ns[i]? = some n) :
    Text.natural? (((written layout ns).drop (start layout i)).take l.1) = some n ∧
    (written layout ns)[start layout i + l.1]? = some l.2 := by
  obtain ⟨hi, rfl⟩ := List.getElem?_eq_some_iff.mp hl
  obtain ⟨hi', rfl⟩ := List.getElem?_eq_some_iff.mp hn
  have hfits := List.forall₂_drop i h
  rw [List.drop_eq_getElem_cons hi, List.drop_eq_getElem_cons hi', List.forall₂_cons] at hfits
  have hlen : (numeral layout[i].1 ns[i]).length = layout[i].1 :=
    Text.length_padded hfits.1.1 hfits.1.2
  rw [← List.getElem?_drop, drop_written h, List.drop_eq_getElem_cons hi,
    List.drop_eq_getElem_cons hi', written]
  constructor
  · rw [List.take_left' hlen, numeral, Text.natural?_padded]
  · rw [List.getElem?_append_right (Nat.le_of_eq hlen), hlen, Nat.sub_self]
    rfl

/-- The text with a zero for every digit. -/
def shape (t : Text) : Text := t.map fun c => if Text.isDigit c then Text.byte '0' else c

theorem shape_numeral {width n : Nat} (hwidth : 0 < width) (hn : n < 10 ^ width) :
    shape (numeral width n) = List.replicate width (Text.byte '0') := by
  rw [List.eq_replicate_iff, shape, List.length_map]
  refine ⟨Text.length_padded hwidth hn, ?_⟩
  intro c hc
  obtain ⟨d, hd, rfl⟩ := List.mem_map.mp hc
  rw [if_pos (Text.isDigit_of_mem_padded hd)]

theorem shape_written (h : Fits layout ns) (hmarks : ∀ l ∈ layout, Text.isDigit l.2 = false) :
    shape (written layout ns) =
      layout.flatMap fun l => List.replicate l.1 (Text.byte '0') ++ [l.2] := by
  induction h with
  | nil => rfl
  | @cons l n layout ns hn _ ih =>
    obtain ⟨hmark, hmarks⟩ := List.forall_mem_cons.mp hmarks
    have hnumeral := shape_numeral hn.1 hn.2
    rw [written, List.append_cons, shape, List.map_append, List.map_append]
    change shape (numeral l.1 n) ++ _ ++ shape (written layout ns) = _
    rw [hnumeral, ih hmarks, List.flatMap_cons]
    simp [hmark]

end Written

/-- The year of four digits and the other parts, down to the milliseconds. -/
def layout : List (Nat × UInt8) :=
  [(4, Text.byte '-'), (2, Text.byte '-'), (2, Text.byte 'T'), (2, Text.byte ':'),
    (2, Text.byte ':'), (2, Text.byte '.'), (3, Text.byte 'Z')]

section Parts

/-- The day of a number of milliseconds since 1970, counted from the first day of year 1. -/
def dayOf (m : Nat) : Nat := m / 86400000 + Calendar.epoch

/-- The parts of the time that is `m` milliseconds after the beginning of 1970. -/
def parts (m : Nat) : List Nat :=
  let date := Date.ofDays (dayOf m)
  [date.year, date.month, date.day, m / 3600000 % 24, m / 60000 % 60, m / 1000 % 60, m % 1000]

theorem dateText_eq (days : Nat) :
    dateText days =
      numeral 4 (Date.ofDays days).year ++ .ascii "-" ++ numeral 2 (Date.ofDays days).month ++
        .ascii "-" ++ numeral 2 (Date.ofDays days).day := by
  rw [dateText]
  rfl

theorem signedDecimal_natCast (n : Nat) : Text.signedDecimal n = .decimal n := by
  rw [Text.signedDecimal, if_neg (Int.not_lt.mpr (Int.natCast_nonneg n)), Int.natAbs_natCast]

theorem render_eq {t : Int} {m : Nat} (h : t / 1000000 = m) (ht : 0 ≤ t) :
    render t = written layout (parts m) := by
  have hseconds : seconds t = (m / 1000 : Nat) := by
    rw [seconds, Int.tdiv_eq_ediv_of_nonneg ht]
    omega
  have hmillis : milliseconds t = (m % 1000 : Nat) := by
    rw [milliseconds, hseconds, Int.tdiv_eq_ediv_of_nonneg ht]
    omega
  have hday : (seconds t / 86400 + Calendar.epoch).toNat = dayOf m := by
    rw [hseconds, dayOf]
    omega
  have hsecond : (seconds t % 86400).toNat = m / 1000 % 86400 := by
    rw [hseconds]
    omega
  have hhour : m / 1000 % 86400 / 3600 = m / 3600000 % 24 := by omega
  have hminute : m / 1000 % 86400 / 60 % 60 = m / 60000 % 60 := by omega
  have hrest : m / 1000 % 86400 % 60 = m / 1000 % 60 := by omega
  rw [render, hday, hsecond, hmillis, dateText_eq, timeText, hhour, hminute, hrest,
    signedDecimal_natCast]
  simp only [List.append_assoc]
  rfl

/-- Numbers are compared by what is left of them, and where that is the same by what is cut off. -/
theorem lt_iff_div_mod (b x y : Nat) :
    x < y ↔ x / b < y / b ∨ x / b = y / b ∧ x % b < y % b := by
  have hx := Nat.div_add_mod x b
  have hy := Nat.div_add_mod y b
  constructor
  · intro h
    rcases Nat.lt_or_eq_of_le (Nat.div_le_div_right h.le : x / b ≤ y / b) with hlt | heq
    · exact .inl hlt
    · rw [heq] at hx
      exact .inr ⟨heq, by omega⟩
  · rintro (hlt | ⟨heq, hmod⟩)
    · exact Nat.lt_of_div_lt_div hlt
    · rw [heq] at hx
      omega

/-- A part that is counted up to `k` decides before the part of `b` below it. -/
theorem mod_lt_mod_iff (b k x y : Nat) :
    x % (b * k) < y % (b * k) ↔
      x / b % k < y / b % k ∨ x / b % k = y / b % k ∧ x % b < y % b := by
  rw [lt_iff_div_mod b, Nat.mod_mul_right_div_self, Nat.mod_mul_right_div_self,
    Nat.mod_mod_of_dvd _ (Nat.dvd_mul_right b k), Nat.mod_mod_of_dvd _ (Nat.dvd_mul_right b k)]

theorem date_lt_iff {d e : Date} (hd : d.Exists) (he : e.Exists) (x y : List Nat) :
    d.year :: d.month :: d.day :: x < e.year :: e.month :: e.day :: y ↔
      d.number < e.number ∨ d = e ∧ x < y := by
  rw [← hd.before_iff he, Date.Before, List.cons_lt_cons_iff, List.cons_lt_cons_iff,
    List.cons_lt_cons_iff]
  obtain ⟨year, month, day⟩ := d
  obtain ⟨year', month', day'⟩ := e
  rw [Date.mk.injEq]
  grind

theorem parts_lt_iff (m m' : Nat) : parts m < parts m' ↔ m < m' := by
  obtain ⟨hd, hnumber⟩ := Date.ofDays_spec (dayOf m)
  obtain ⟨hd', hnumber'⟩ := Date.ofDays_spec (dayOf m')
  have hsame : Date.ofDays (dayOf m) = Date.ofDays (dayOf m') ↔ dayOf m = dayOf m' := by
    constructor
    · intro h
      rw [← hnumber, h, hnumber']
    · intro h
      rw [h]
  rw [parts, parts, date_lt_iff hd hd', hnumber, hnumber', hsame, dayOf, dayOf,
    Nat.add_lt_add_iff_right, Nat.add_right_cancel_iff, lt_iff_div_mod 86400000 m m',
    mod_lt_mod_iff 3600000 24, mod_lt_mod_iff 60000 60, mod_lt_mod_iff 1000 60]
  simp only [List.cons_lt_cons_iff, List.lt_irrefl, and_false, or_false]

/-- Before the year 10000 every part fits in its place. -/
theorem fits_parts {m : Nat} (h : dayOf m < Calendar.daysBefore 10000) : Fits layout (parts m) := by
  obtain ⟨hd, hnumber⟩ := Date.ofDays_spec (dayOf m)
  have hyear : (Date.ofDays (dayOf m)).year < 10000 := by
    apply Nat.lt_of_not_le
    intro hle
    have hbefore := Calendar.daysBefore_mono (by decide) hle
    rw [Date.number_eq] at hnumber
    omega
  have hmonth : (Date.ofDays (dayOf m)).month < 10 ^ 2 := hd.month_le.trans_lt (by decide)
  have hday : (Date.ofDays (dayOf m)).day < 10 ^ 2 := hd.day_le.trans_lt (by decide)
  have hmod (n k : Nat) (hk : 0 < k) (hle : k ≤ 10 ^ 2) : n % k < 10 ^ 2 :=
    (Nat.mod_lt n hk).trans_le hle
  have hhour : m / 3600000 % 24 < 10 ^ 2 := hmod _ 24 (by decide) (by decide)
  have hminute : m / 60000 % 60 < 10 ^ 2 := hmod _ 60 (by decide) (by decide)
  have hsecond : m / 1000 % 60 < 10 ^ 2 := hmod _ 60 (by decide) (by decide)
  have hmilli : m % 1000 < 10 ^ 3 := Nat.mod_lt m (by decide)
  exact .cons ⟨by decide, hyear⟩ <| .cons ⟨by decide, hmonth⟩ <| .cons ⟨by decide, hday⟩ <|
    .cons ⟨by decide, hhour⟩ <| .cons ⟨by decide, hminute⟩ <| .cons ⟨by decide, hsecond⟩ <|
    .cons ⟨by decide, hmilli⟩ .nil

theorem shape_parts {m : Nat} (h : dayOf m < Calendar.daysBefore 10000) :
    shape (written layout (parts m)) = .ascii "0000-00-00T00:00:00.000Z" := by
  rw [shape_written (fits_parts h) (by decide)]
  rfl

theorem length_written {m : Nat} (h : dayOf m < Calendar.daysBefore 10000) :
    (written layout (parts m)).length = 24 := by
  have hlen := congrArg List.length (shape_parts h)
  rwa [shape, List.length_map] at hlen

/-- A time is read part by part, and then the parts are checked. -/
theorem read?_eq_some {t : Text} {date : Date} {hour minute second millisecond : Nat}
    (hlen : t.length = 24) (hmarks : ∀ m ∈ marks, t[m.1]? = some m.2) (hd : date.Exists)
    (hyear : Text.natural? ((t.drop 0).take 4) = some date.year)
    (hmonth : Text.natural? ((t.drop 5).take 2) = some date.month)
    (hday : Text.natural? ((t.drop 8).take 2) = some date.day)
    (hhour : Text.natural? ((t.drop 11).take 2) = some hour ∧ hour < 24)
    (hminute : Text.natural? ((t.drop 14).take 2) = some minute ∧ minute < 60)
    (hsecond : Text.natural? ((t.drop 17).take 2) = some second ∧ second < 60)
    (hmilli : Text.natural? ((t.drop 20).take 3) = some millisecond) :
    read? t = some ((((date.number : Int) - Calendar.epoch) * 86400 +
      (hour * 3600 + minute * 60 + second : Nat)) * 1000 + millisecond) := by
  have hmarks' : marks.all (fun m => t[m.1]? = some m.2) = true :=
    List.all_eq_true.mpr fun m hm => decide_eq_true (hmarks m hm)
  simp only [read?, hyear, hmonth, hday, hhour.1, hminute.1, hsecond.1, hmilli,
    Option.bind_eq_bind, Option.bind_some]
  rw [if_pos ⟨hlen, hmarks', hd, hhour.2, hminute.2, hsecond.2⟩]
  rfl

/-- A written time is read as the milliseconds that it was written for. -/
theorem read?_written {m : Nat} (h : dayOf m < Calendar.daysBefore 10000) :
    read? (written layout (parts m)) = some (m : Int) := by
  have hfits := fits_parts h
  obtain ⟨hd, hnumber⟩ := Date.ofDays_spec (dayOf m)
  have hyear := written_at hfits (i := 0) rfl rfl
  have hmonth := written_at hfits (i := 1) rfl rfl
  have hday := written_at hfits (i := 2) rfl rfl
  have hhour := written_at hfits (i := 3) rfl rfl
  have hminute := written_at hfits (i := 4) rfl rfl
  have hsecond := written_at hfits (i := 5) rfl rfl
  have hmilli := written_at hfits (i := 6) rfl rfl
  have hmarks : ∀ l ∈ marks, (written layout (parts m))[l.1]? = some l.2 := by
    rw [marks]
    simp only [List.forall_mem_cons]
    exact ⟨hyear.2, hmonth.2, hday.2, hhour.2, hminute.2, hsecond.2, hmilli.2, nofun⟩
  have hread := read?_eq_some (length_written h) hmarks hd hyear.1 hmonth.1 hday.1
    ⟨hhour.1, Nat.mod_lt _ (by decide)⟩ ⟨hminute.1, Nat.mod_lt _ (by decide)⟩
    ⟨hsecond.1, Nat.mod_lt _ (by decide)⟩ hmilli.1
  rw [hread, hnumber, dayOf]
  refine congrArg some ?_
  omega

/-- The last nanoseconds that 63 bits can count fall long before the year 10000. -/
theorem exists_milliseconds {t : Int} (ht : 0 ≤ t) (hlast : t < 2 ^ 63) :
    ∃ m : Nat, t / 1000000 = m ∧ dayOf m < Calendar.daysBefore 10000 := by
  have hbound : Calendar.daysBefore 10000 = 3652059 := rfl
  have hepoch : Calendar.epoch = 719162 := rfl
  refine ⟨(t / 1000000).toNat, by omega, ?_⟩
  rw [dayOf, hbound, hepoch]
  omega

end Parts

/-- For as long as nanoseconds since 1970 fit in 63 bits: a time is written in one form, with a date
that the calendar has and a time of day, which lie as many milliseconds after the beginning of 1970 as
have passed in full, and it is read as this number. So written times come in the order of their
milliseconds, and are equal where these are. -/
theorem render_exact :
    (∀ t : Timestamp, 0 ≤ t → t < 2 ^ 63 →
      shape t.render = .ascii "0000-00-00T00:00:00.000Z" ∧
      (∃ (date : Date) (hour minute second millisecond : Nat),
        date.Exists ∧ hour < 24 ∧ minute < 60 ∧ second < 60 ∧ millisecond < 1000 ∧
        t.render = numeral 4 date.year ++ .ascii "-" ++ numeral 2 date.month ++ .ascii "-" ++
          numeral 2 date.day ++ .ascii "T" ++ numeral 2 hour ++ .ascii ":" ++ numeral 2 minute ++
          .ascii ":" ++ numeral 2 second ++ .ascii "." ++ numeral 3 millisecond ++ .ascii "Z" ∧
        (((date.number : Int) - Date.number ⟨1970, 1, 1⟩) * 86400 +
          (hour * 3600 + minute * 60 + second : Nat)) * 1000 + millisecond = t / 1000000) ∧
      read? t.render = some (t / 1000000)) ∧
    ∀ t t' : Timestamp, 0 ≤ t → t < 2 ^ 63 → 0 ≤ t' → t' < 2 ^ 63 →
      (t.render < t'.render ↔ t / 1000000 < t' / 1000000) ∧
      (t.render = t'.render ↔ t / 1000000 = t' / 1000000) := by
  constructor
  · intro t ht hlast
    obtain ⟨m, hm, hday⟩ := exists_milliseconds ht hlast
    obtain ⟨hd, hnumber⟩ := Date.ofDays_spec (dayOf m)
    rw [render_eq hm ht]
    refine ⟨shape_parts hday, ?_, ?_⟩
    · refine ⟨Date.ofDays (dayOf m), m / 3600000 % 24, m / 60000 % 60, m / 1000 % 60, m % 1000, hd,
        Nat.mod_lt _ (by decide), Nat.mod_lt _ (by decide), Nat.mod_lt _ (by decide),
        Nat.mod_lt _ (by decide), ?_, ?_⟩
      · simp only [List.append_assoc]
        rfl
      · have hepoch : Date.number ⟨1970, 1, 1⟩ = Calendar.epoch := rfl
        rw [hnumber, hepoch, dayOf]
        refine Eq.trans ?_ hm.symm
        omega
    · rw [read?_written hday]
      exact congrArg some hm.symm
  · intro t t' ht hlast ht' hlast'
    obtain ⟨m, hm, hday⟩ := exists_milliseconds ht hlast
    obtain ⟨m', hm', hday'⟩ := exists_milliseconds ht' hlast'
    rw [render_eq hm ht, render_eq hm' ht']
    constructor
    · have horder : t / 1000000 < t' / 1000000 ↔ m < m' := by
        refine Iff.trans ?_ Int.ofNat_lt
        rw [← hm, ← hm']
      rw [written_lt_iff (fits_parts hday) (fits_parts hday'), parts_lt_iff]
      exact horder.symm
    · constructor
      · intro h
        have hread := congrArg read? h
        rw [read?_written hday, read?_written hday', ← hm, ← hm'] at hread
        exact Option.some.inj hread
      · intro h
        obtain rfl : m = m' := Int.ofNat_inj.mp (hm.symm.trans (h.trans hm'))
        rfl

/-- The last millisecond in front of a leap day and the first one of it, where the order of the
milliseconds decides, and the last time of all. -/
theorem render_exact_leap_day :
    (0 : Timestamp) ≤ 951782399999999999 ∧ (951782399999999999 : Timestamp) < 2 ^ 63 ∧
    (0 : Timestamp) ≤ 951782400000000000 ∧ (951782400000000000 : Timestamp) < 2 ^ 63 ∧
    render 951782399999999999 = .ascii "2000-02-28T23:59:59.999Z" ∧
    render 951782400000000000 = .ascii "2000-02-29T00:00:00.000Z" ∧
    render 951782399999999999 < render 951782400000000000 ∧
    render 9223372036854775807 = .ascii "2262-04-11T23:47:16.854Z" ∧
    read? (.ascii "2262-04-11T23:47:16.854Z") = some 9223372036854 := by
  have hlast : render 9223372036854775807 = .ascii "2262-04-11T23:47:16.854Z" := by decide +kernel
  have hread := (render_exact.1 9223372036854775807 (by decide) (by decide)).2.2
  rw [hlast] at hread
  exact ⟨by decide, by decide, by decide, by decide, by decide +kernel, by decide +kernel,
    (render_exact.2 951782399999999999 951782400000000000 (by decide) (by decide) (by decide)
      (by decide)).1.mpr (by decide), hlast, hread⟩

end ScriptVet.Audit.Timestamp
