import LuaAudit.Docs.Timestamp
import Mathlib.Algebra.Ring.Nat

/-!
# Timestamps written and read back

Exactly the timestamps in range are read, each from the text that is written of it.

* `Timestamp.InRange` says what a timestamp in range is;
* `inRange_of_parse`: every timestamp that is read is in range;
* `parse_text`: every timestamp in range is read back from its text;
* `inRange_ofSeconds`: the moments up to the end of year 9999 are in range.
-/

namespace LuaAudit.Docs.Timestamp

/-- A date that the calendar has, a time that the clock shows to the millionth, and less than a day
    from universal time: not at all, or by a second at least. -/
structure InRange (t : Timestamp) : Prop where
  year : 1 ≤ t.year ∧ t.year ≤ 9999
  month : 1 ≤ t.month ∧ t.month ≤ 12
  day : 1 ≤ t.day ∧ t.day ≤ daysInMonth t.year t.month
  hour : t.hour ≤ 23
  minute : t.minute ≤ 59
  second : t.second ≤ 59
  micro : t.micro < 1000000
  offset : ∀ m ∈ t.offset, m.natAbs < 86400000000 ∧ (m = 0 ∨ 1000000 ≤ m.natAbs)

/-! ### Digits -/

theorem digits?_append {ds : List Char} (hdigit : ∀ c ∈ ds, c.isDigit) (value : Nat)
    (rest : List Char) :
    digits? ds.length value (ds ++ rest) = some (Nat.ofDigitChars 10 ds value, rest) := by
  induction ds generalizing value with
  | nil => rfl
  | cons d ds ih =>
    rw [List.length_cons, List.cons_append, digits?, if_pos (hdigit d List.mem_cons_self),
      ih fun c hc => hdigit c (List.mem_cons_of_mem d hc), Nat.ofDigitChars_cons]
    rfl

/-- The number that digits write is below the power of ten that they allow. -/
theorem lt_of_digits? {n value w : Nat} {cs rest : List Char}
    (h : digits? n value cs = some (w, rest)) : w < (value + 1) * 10 ^ n := by
  induction n generalizing value cs with
  | zero =>
    obtain ⟨rfl, -⟩ := Prod.mk.inj (Option.some.inj h)
    simp
  | succ n ih =>
    cases cs with
    | nil => cases h
    | cons c cs =>
      rw [digits?] at h
      split at h
      next hdigit =>
        have hvalue : c.toNat ≤ 57 := by
          simp only [Char.isDigit, Bool.and_eq_true, decide_eq_true_eq] at hdigit
          exact hdigit.2
        have hw := ih h
        calc w < (10 * value + (c.toNat - 48) + 1) * 10 ^ n := hw
          _ ≤ ((value + 1) * 10) * 10 ^ n := Nat.mul_le_mul_right _ (by omega)
          _ = (value + 1) * 10 ^ (n + 1) := by rw [Nat.pow_succ', Nat.mul_assoc]
      next => cases h

theorem isDigit_of_mem_padded (width n : Nat) {c : Char} (h : c ∈ (padded width n).toList) :
    c.isDigit := by
  simp only [padded, Number.decimal, Number.zeros, String.toList_ofList, List.mem_append,
    List.mem_replicate] at h
  rcases h with ⟨-, rfl⟩ | h
  · rfl
  · exact Nat.isDigit_of_mem_toDigits (by decide) (by decide) h

theorem length_padded (width : Nat) {n : Nat} (hwidth : 0 < width) (h : n < 10 ^ width) :
    (padded width n).toList.length = width := by
  have hdigits : (Nat.toDigits 10 n).length ≤ width :=
    (Nat.length_toDigits_le_iff (by decide) hwidth).2 h
  simp only [padded, Number.decimal, Number.zeros, String.toList_ofList, List.length_append,
    List.length_replicate]
  omega

theorem ofDigitChars_padded (width n : Nat) :
    Nat.ofDigitChars 10 (padded width n).toList 0 = n := by
  simp [padded, Number.decimal, Number.zeros, Nat.ofDigitChars_append]

/-- A number is read back from its digits, whatever follows them. -/
theorem digits?_padded (width : Nat) {n : Nat} (hwidth : 0 < width) (h : n < 10 ^ width)
    (rest : List Char) : digits? width 0 ((padded width n).toList ++ rest) = some (n, rest) := by
  have hread := digits?_append (fun _ => isDigit_of_mem_padded width n) 0 rest
  rwa [length_padded width hwidth h, ofDigitChars_padded] at hread

/-- A number of two digits, of which the first marks no week. -/
theorem exists_padded_two {n : Nat} (h : n < 100) :
    ∃ a b, (padded 2 n).toList = [a, b] ∧ a ≠ 'W' := by
  have hlength := length_padded 2 (by decide) h
  have hdigit := fun c => isDigit_of_mem_padded 2 n (c := c)
  match hds : (padded 2 n).toList, hlength with
  | [a, b], _ =>
    refine ⟨a, b, rfl, ?_⟩
    rintro rfl
    have hW := hdigit 'W' (by simp [hds])
    cases hW

/-! ### Dates -/

/-- Year, month and day. -/
def dateText (year month day : Nat) : List Char :=
  (padded 4 year).toList ++ '-' :: ((padded 2 month).toList ++ '-' :: (padded 2 day).toList)

section Date

variable {year month day : Nat} (hyear : year < 10000) (hmonth : month < 100) (hday : day < 100)

include hyear hmonth hday

theorem length_dateText : (dateText year month day).length = 10 := by
  have h4 := length_padded 4 (by decide) hyear
  have h2 {n : Nat} (h : n < 100) := length_padded 2 (by decide) h
  simp only [dateText, List.length_append, List.length_cons, h4, h2 hmonth, h2 hday]

theorem date?_dateText : date? (dateText year month day) = some (year, month, day) := by
  obtain ⟨a, b, hab, hW⟩ := exists_padded_two hmonth
  have hreadMonth := digits?_padded 2 (by decide) hmonth ('-' :: (padded 2 day).toList)
  have hreadDay := digits?_padded 2 (by decide) hday []
  rw [List.append_nil] at hreadDay
  rw [hab] at hreadMonth
  rw [dateText, hab, date?, digits?_padded 4 (by decide) hyear]
  simp only [List.cons_append, List.nil_append, List.head?_cons, List.drop_succ_cons,
    List.drop_zero, decide_true, if_true, Option.bind_eq_bind, Option.bind_some] at hreadMonth ⊢
  -- after the dash stands a digit, so this is no week date
  split
  next heq => exact absurd (List.cons.inj heq).1 hW
  next => simp [hreadMonth, hreadDay]

theorem dateLength?_dateText (time : List Char) :
    dateLength? (dateText year month day ++ 'T' :: time) = some 10 := by
  obtain ⟨a, b, hab, hW⟩ := exists_padded_two hmonth
  obtain ⟨c, d, hcd, -⟩ := exists_padded_two hday
  have hlength := length_padded 4 (by decide) hyear
  rw [dateText]
  generalize (padded 4 year).toList = ys at hlength
  match ys, hlength with
  | [p, q, r, s], _ => simp [dateLength?, hab, hcd, hW]

end Date

/-! ### Times of day and zones -/

/-- A field and the colon after it. -/
theorem clock?_of_colon {next : Option Char} {left n : Nat} {colons : Option Bool}
    {fields : List Nat} {cs tail : List Char} {c : Char}
    (hread : digits? 2 0 cs = some (n, ':' :: c :: tail)) (hcolons : colons.getD true = true) :
    clock? next (left + 1) colons fields cs =
      clock? next left (some true) (n :: fields) (c :: tail) := by
  cases colons <;> simp_all [clock?]

/-- The last field. -/
theorem clock?_of_end {next : Option Char} {left n : Nat} {colons : Option Bool} {fields : List Nat}
    {cs : List Char} (hread : digits? 2 0 cs = some (n, [])) :
    clock? next (left + 1) colons fields cs = some ⟨(n :: fields).reverse, 0, isMore next⟩ := by
  simp [clock?, hread]

/-- The last field before a fraction. -/
theorem clock?_of_point {next : Option Char} {left n : Nat} {fields : List Nat}
    {cs tail : List Char} {c : Char} (hread : digits? 2 0 cs = some (n, '.' :: c :: tail)) :
    clock? next (left + 1) (some true) fields cs = fraction? next (n :: fields) (c :: tail) := by
  simp [clock?, hread]

theorem fraction?_padded (next : Option Char) (fields : List Nat) {micro : Nat}
    (h : micro < 1000000) :
    fraction? next fields (padded 6 micro).toList =
      some ⟨fields.reverse, micro, isMore next⟩ := by
  have hread := digits?_padded 6 (by decide) h []
  have hlength := length_padded 6 (by decide) h
  rw [List.append_nil] at hread
  simp [fraction?, hlength, hread]

/-- Two fields, and no more. -/
theorem clock?_hourMinute (next : Option Char) {hour minute : Nat} (hhour : hour < 100)
    (hminute : minute < 100) :
    clock? next 3 none [] ((padded 2 hour).toList ++ ':' :: (padded 2 minute).toList) =
      some ⟨[hour, minute], 0, isMore next⟩ := by
  obtain ⟨a, b, hab, -⟩ := exists_padded_two hminute
  have hreadHour := digits?_padded 2 (by decide) hhour (':' :: (padded 2 minute).toList)
  have hreadMinute := digits?_padded 2 (by decide) hminute []
  rw [List.append_nil] at hreadMinute
  rw [hab] at hreadHour hreadMinute ⊢
  rw [clock?_of_colon hreadHour rfl, clock?_of_end hreadMinute]
  rfl

/-- The millionths of a second, left out when there are none. -/
def fractionText (micro : Nat) : List Char :=
  if micro = 0 then [] else '.' :: (padded 6 micro).toList

/-- Hours, minutes and seconds. -/
def clockText (hour minute second micro : Nat) : List Char :=
  (padded 2 hour).toList ++ ':' :: ((padded 2 minute).toList ++ ':' ::
    ((padded 2 second).toList ++ fractionText micro))

/-- Three fields, with the millionths if there are any. -/
theorem clock?_clockText (next : Option Char) {hour minute second micro : Nat} (hhour : hour < 100)
    (hminute : minute < 100) (hsecond : second < 100) (hmicro : micro < 1000000) :
    clock? next 3 none [] (clockText hour minute second micro) =
      some ⟨[hour, minute, second], micro, isMore next⟩ := by
  have hreadHour := digits?_padded 2 (by decide) hhour
  have hreadMinute := digits?_padded 2 (by decide) hminute
  have hreadSecond := digits?_padded 2 (by decide) hsecond (fractionText micro)
  obtain ⟨a, b, hab, -⟩ := exists_padded_two hminute
  obtain ⟨c, d, hcd, -⟩ := exists_padded_two hsecond
  simp only [clockText, hab, hcd, List.cons_append, List.nil_append] at hreadMinute hreadSecond ⊢
  rw [clock?_of_colon (hreadHour _) rfl, clock?_of_colon (hreadMinute _) rfl]
  by_cases hzero : micro = 0
  · simp only [fractionText, hzero, if_true] at hreadSecond ⊢
    rw [clock?_of_end hreadSecond]
    rfl
  · have hfraction := fraction?_padded next [second, minute, hour] hmicro
    have hlength := length_padded 6 (by decide) hmicro
    simp only [fractionText, if_neg hzero] at hreadSecond ⊢
    generalize (padded 6 micro).toList = ds at hfraction hlength hreadSecond
    cases ds with
    | nil => cases hlength
    | cons e es =>
      rw [clock?_of_point hreadSecond, hfraction]
      rfl

/-- What follows the sign of a zone. -/
def zoneBody (n : Nat) : List Char :=
  let seconds := n / 1000000
  if n % 60000000 = 0 then
    (padded 2 (seconds / 3600)).toList ++ ':' :: (padded 2 (seconds / 60 % 60)).toList
  else clockText (seconds / 3600) (seconds / 60 % 60) (seconds % 60) (n % 1000000)

theorem toList_zoneText (micros : Int) :
    (zoneText micros).toList = (if micros < 0 then '-' else '+') :: zoneBody micros.natAbs := by
  unfold zoneText zoneBody
  generalize micros.natAbs = n
  by_cases hminute : n % 60000000 = 0
  · have hsecond : n % 1000000 = 0 := by omega
    by_cases hsign : micros < 0 <;> simp [hminute, hsecond, hsign]
  · by_cases hsecond : n % 1000000 = 0 <;> by_cases hsign : micros < 0 <;>
      simp [hminute, hsecond, hsign, clockText, fractionText]

/-- A zone is read back, if it is not below a second. -/
theorem zone?_zoneBody (negative : Bool) {n : Nat} (hday : n < 86400000000)
    (hsecond : n = 0 ∨ 1000000 ≤ n) :
    zone? negative (zoneBody n) = some (if negative then -(n : Int) else n) := by
  have hclock : ∃ fields micro, clock? none 3 none [] (zoneBody n) = some ⟨fields, micro, false⟩ ∧
      fields.getD 0 0 * 3600 + fields.getD 1 0 * 60 + fields.getD 2 0 = n / 1000000 ∧
      micro = n % 1000000 := by
    unfold zoneBody
    split
    next hminute =>
      -- whole minutes: the seconds are left out, and nothing is lost with them
      refine ⟨_, _, clock?_hourMinute none (by omega) (by omega), ?_, ?_⟩
      · simp only [List.getD_cons_zero, List.getD_cons_succ, List.getD_nil]
        omega
      · omega
    next hminute =>
      refine ⟨_, _, clock?_clockText none (by omega) (by omega) (by omega) (by omega), ?_, rfl⟩
      simp only [List.getD_cons_zero, List.getD_cons_succ]
      omega
  obtain ⟨fields, micro, hread, hfields, rfl⟩ := hclock
  -- a distance below a second would be read as none
  have hvalue : (if n / 1000000 = 0 then 0
      else ((n / 1000000 : Nat) : Int) * 1000000 + (n % 1000000 : Nat)) = n := by
    split <;> omega
  simp only [zone?, hread, Option.bind_eq_bind, Option.bind_some, hfields, hvalue,
    Bool.false_eq_true, if_false]

theorem isZoneMark_of_isDigit {c : Char} (h : c.isDigit) : isZoneMark c = false := by
  simp only [isZoneMark, Bool.or_eq_false_iff, beq_eq_false_iff_ne]
  refine ⟨⟨?_, ?_⟩, ?_⟩ <;> rintro rfl <;> cases h

/-- No zone starts inside a time of day. -/
theorem isZoneMark_of_mem_clockText {hour minute second micro : Nat} {c : Char}
    (h : c ∈ clockText hour minute second micro) : isZoneMark c = false := by
  have hdigit (width n : Nat) (hc : c ∈ (padded width n).toList) : isZoneMark c = false :=
    isZoneMark_of_isDigit (isDigit_of_mem_padded width n hc)
  unfold clockText fractionText at h
  simp only [List.mem_append, List.mem_cons] at h
  rcases h with h | rfl | h | rfl | h | h
  · exact hdigit 2 hour h
  · rfl
  · exact hdigit 2 minute h
  · rfl
  · exact hdigit 2 second h
  · split at h
    · cases h
    · rcases List.mem_cons.1 h with rfl | h
      · rfl
      · exact hdigit 6 micro h

/-- The zone, if there is one. -/
def zoneSuffix : Option Int → List Char
  | none => []
  | some micros => (zoneText micros).toList

/-- A time of day and its zone are read back. -/
theorem timeOfDay?_clockText {hour minute second micro : Nat} {offset : Option Int}
    (hhour : hour < 100) (hminute : minute < 100) (hsecond : second < 100)
    (hmicro : micro < 1000000)
    (hoffset : ∀ m ∈ offset, m.natAbs < 86400000000 ∧ (m = 0 ∨ 1000000 ≤ m.natAbs)) :
    ∃ followed, timeOfDay? (clockText hour minute second micro ++ zoneSuffix offset) =
      some (⟨[hour, minute, second], micro, followed⟩, offset) := by
  have hmark : ∀ c ∈ clockText hour minute second micro, (!isZoneMark c) = true := by
    intro c hc
    rw [isZoneMark_of_mem_clockText hc, Bool.not_false]
  have hclock (next : Option Char) := clock?_clockText next hhour hminute hsecond hmicro
  generalize clockText hour minute second micro = cs at hmark hclock
  rw [timeOfDay?, List.takeWhile_append_of_pos hmark, List.dropWhile_append_of_pos hmark]
  cases offset with
  | none => exact ⟨false, by simp [zoneSuffix, hclock, isMore]⟩
  | some m =>
    obtain ⟨hday, hzero⟩ := hoffset m rfl
    have hsecond : m.natAbs = 0 ∨ 1000000 ≤ m.natAbs := by omega
    refine ⟨true, ?_⟩
    rw [zoneSuffix, toList_zoneText]
    by_cases hsign : m < 0
    · have hvalue : -(m.natAbs : Int) = m := by omega
      have hzone : zone? true (zoneBody m.natAbs) = some m := by
        rw [zone?_zoneBody true hday hsecond, if_pos rfl, hvalue]
      simp [hsign, hclock, hzone, isMore, isZoneMark]
    · have hvalue : (m.natAbs : Int) = m := by omega
      have hzone : zone? false (zoneBody m.natAbs) = some m := by
        rw [zone?_zoneBody false hday hsecond, if_neg Bool.false_ne_true, hvalue]
      simp [hsign, hclock, hzone, isMore, isZoneMark]

/-! ### Timestamps -/

theorem toList_text (t : Timestamp) :
    t.text.toList = dateText t.year t.month t.day ++ 'T' ::
      (clockText t.hour t.minute t.second t.micro ++ zoneSuffix t.offset) := by
  unfold text dateText clockText fractionText zoneSuffix
  cases t.offset <;> by_cases hmicro : t.micro = 0 <;> simp [hmicro]

theorem check_eq_ok_iff {t u : Timestamp} : t.check = .ok u ↔ t = u ∧
    (∀ m ∈ t.offset, m.natAbs < 86400000000) ∧ (1 ≤ t.year ∧ t.year ≤ 9999) ∧
    (1 ≤ t.month ∧ t.month ≤ 12) ∧ (1 ≤ t.day ∧ t.day ≤ daysInMonth t.year t.month) ∧
    t.hour ≤ 23 ∧ t.minute ≤ 59 ∧ t.second ≤ 59 := by
  unfold check
  constructor
  · intro h
    iterate 7 (split at h; · cases h)
    rename_i hoffset hyear hmonth hday hhour hminute hsecond
    obtain rfl := Except.ok.inj h
    refine ⟨rfl, fun m hm => ?_, by omega, by omega, by omega, by omega, by omega, by omega⟩
    simpa [Option.mem_def.1 hm] using hoffset
  · rintro ⟨rfl, hoffset, hyear, hmonth, hday, hhour, hminute, hsecond⟩
    have hnear : ¬ (t.offset.any fun m => 86400000000 ≤ m.natAbs) := by
      cases hm : t.offset with
      | none => simp
      | some m => simpa using hoffset m hm
    rw [if_neg hnear, if_neg (by omega), if_neg (by omega), if_neg (by omega), if_neg (by omega),
      if_neg (by omega), if_neg (by omega)]

theorem daysInMonth_le (year month : Nat) : daysInMonth year month ≤ 31 := by
  unfold daysInMonth
  repeat' split
  all_goals decide

/-- **Read back.**  A timestamp in range is read back from its text. -/
theorem parse_text {t : Timestamp} (h : t.InRange) : parse t.text = .ok t := by
  have hyear : t.year < 10000 := by have := h.year; omega
  have hmonth : t.month < 100 := by have := h.month; omega
  have hday : t.day < 100 := by have := h.day; have := daysInMonth_le t.year t.month; omega
  have hchecked : t.check = .ok t := check_eq_ok_iff.2 ⟨rfl, fun m hm => (h.offset m hm).1, h.year,
    h.month, h.day, h.hour, h.minute, h.second⟩
  have hhour : t.hour < 100 := by have := h.hour; omega
  have hminute : t.minute < 100 := by have := h.minute; omega
  have hsecond : t.second < 100 := by have := h.second; omega
  obtain ⟨followed, htime⟩ := timeOfDay?_clockText hhour hminute hsecond h.micro h.offset
  have hread : read? t.text.toList = some t := by
    have hlength := length_dateText hyear hmonth hday
    rw [read?, toList_text, dateLength?_dateText hyear hmonth hday]
    simp only [Option.bind_eq_bind, Option.bind_some, List.take_left' hlength,
      List.drop_left' hlength, date?_dateText hyear hmonth hday, htime]
    rfl
  rw [parse, hread]
  exact hchecked

/-! ### Which timestamps are read -/

theorem micro_of_fraction? {next : Option Char} {fields : List Nat} {cs : List Char} {c : Clock}
    (h : fraction? next fields cs = some c) : c.micro < 1000000 := by
  simp only [fraction?, Option.bind_eq_bind, Option.bind_eq_some_iff] at h
  obtain ⟨⟨value, rest⟩, hread, h⟩ := h
  obtain rfl := Option.some.inj h
  have hvalue := lt_of_digits? hread
  rw [Nat.zero_add, Nat.one_mul] at hvalue
  calc value * 10 ^ (6 - min 6 cs.length)
      < 10 ^ min 6 cs.length * 10 ^ (6 - min 6 cs.length) :=
        Nat.mul_lt_mul_of_pos_right hvalue (Nat.pow_pos (by decide))
    _ = 10 ^ 6 := by rw [← Nat.pow_add, Nat.add_sub_cancel' (Nat.min_le_left 6 _)]

theorem micro_of_clock? {next : Option Char} {left : Nat} {colons : Option Bool} {fields : List Nat}
    {cs : List Char} {c : Clock} (h : clock? next left colons fields cs = some c) :
    c.micro < 1000000 := by
  fun_induction clock? next left colons fields cs with
  | case1 => exact micro_of_fraction? h
  | case2 => cases h
  | case3 | case4 =>
    obtain rfl := Option.some.inj h
    exact Nat.succ_pos _
  | case5 _ _ _ _ _ _ _ _ _ _ _ _ ih => exact ih h
  | case6 => exact micro_of_fraction? h
  | case7 _ _ _ _ _ _ _ _ _ _ _ _ _ _ ih => exact ih h
  | case8 => cases h

/-- A distance that is read is none at all or a second at least. -/
theorem natAbs_of_zone? {negative : Bool} {cs : List Char} {m : Int}
    (h : zone? negative cs = some m) : m = 0 ∨ 1000000 ≤ m.natAbs := by
  simp only [zone?, Option.bind_eq_bind, Option.bind_eq_some_iff] at h
  obtain ⟨c, -, h⟩ := h
  split at h
  · cases h
  · obtain rfl := Option.some.inj h
    split <;> split <;> omega

theorem of_timeOfDay? {cs : List Char} {c : Clock} {offset : Option Int}
    (h : timeOfDay? cs = some (c, offset)) :
    c.micro < 1000000 ∧ ∀ m ∈ offset, m = 0 ∨ 1000000 ≤ m.natAbs := by
  simp only [timeOfDay?, Option.bind_eq_bind, Option.bind_eq_some_iff] at h
  obtain ⟨d, hclock, h⟩ := h
  have hmicro := micro_of_clock? hclock
  split at h
  next =>
    split at h
    · cases h
    · cases h
      exact ⟨hmicro, by simp⟩
  next =>
    cases h
    exact ⟨hmicro, by simp⟩
  next =>
    split at h
    · cases h
      exact ⟨hmicro, by simp⟩
    · cases h
  next sign rest _ _ _ =>
    obtain ⟨m, hzone, h⟩ := Option.map_eq_some_iff.1 h
    cases h
    refine ⟨hmicro, fun m hm => ?_⟩
    cases hm
    exact natAbs_of_zone? hzone

theorem of_read? {cs : List Char} {t : Timestamp} (h : read? cs = some t) :
    t.micro < 1000000 ∧ ∀ m ∈ t.offset, m = 0 ∨ 1000000 ≤ m.natAbs := by
  simp only [read?, Option.bind_eq_bind, Option.bind_eq_some_iff] at h
  obtain ⟨n, -, ⟨year, month, day⟩, -, h⟩ := h
  split at h
  next =>
    split at h
    · cases h
    · cases h
      exact ⟨Nat.succ_pos _, by simp⟩
  next =>
    obtain ⟨⟨c, offset⟩, htime, h⟩ := Option.bind_eq_some_iff.1 h
    cases h
    exact of_timeOfDay? htime

/-- **In range.**  Every timestamp that is read is in range. -/
theorem inRange_of_parse {s : String} {t : Timestamp} (h : parse s = .ok t) : t.InRange := by
  unfold parse at h
  split at h
  next u hread =>
    obtain ⟨rfl, hday, hyear, hmonth, hdays, hhour, hminute, hsecond⟩ := check_eq_ok_iff.1 h
    obtain ⟨hmicro, hoffset⟩ := of_read? hread
    exact ⟨hyear, hmonth, hdays, hhour, hminute, hsecond, hmicro, fun m hm =>
      ⟨hday m hm, hoffset m hm⟩⟩
  next => cases h

/-! ### Moments -/

/-- A day that lies within some months lies in one of them. -/
theorem monthAndDay_spec {year : Nat} {months : List Nat} {day : Nat}
    (h : day < (months.map (daysInMonth year)).sum) :
    (monthAndDay year months day).1 ∈ months ∧ 1 ≤ (monthAndDay year months day).2 ∧
      (monthAndDay year months day).2 ≤ daysInMonth year (monthAndDay year months day).1 := by
  induction months generalizing day with
  | nil => cases h
  | cons m ms ih =>
    rw [monthAndDay]
    split
    next hday => exact ⟨List.mem_cons_self, Nat.succ_pos day, hday⟩
    next hday =>
      rw [List.map_cons, List.sum_cons] at h
      have hrest : day - daysInMonth year m < (ms.map (daysInMonth year)).sum := by omega
      obtain ⟨hmem, hdays⟩ := ih hrest
      exact ⟨List.mem_cons_of_mem m hmem, hdays⟩

/-- The days of a year. -/
theorem sum_daysInMonth (year : Nat) :
    (([1, 2, 3, 4, 5, 6, 7, 8, 9, 10, 11, 12]).map (daysInMonth year)).sum =
      if isLeap year then 366 else 365 := by
  cases h : isLeap year <;> simp [daysInMonth, h]

/-- Centuries, groups of four years and years are split off so that the day that is left lies within
    the year: only the last year of a group has a day more, and the last year of a century but every
    fourth has not. -/
theorem lt_daysInYear (n400 : Nat) {r400 n100 r100 n4 r4 n1 : Nat} (hr400 : r400 < 146097)
    (hn100 : n100 = min (r400 / 36524) 3) (hr100 : r100 = r400 - n100 * 36524)
    (hn4 : n4 = r100 / 1461) (hr4 : r4 = r100 % 1461) (hn1 : n1 = min (r4 / 365) 3) :
    r4 - n1 * 365 < if isLeap (n400 * 400 + n100 * 100 + n4 * 4 + n1 + 1) then 366 else 365 := by
  by_cases hshort : r4 - n1 * 365 < 365
  · split <;> omega
  · -- the 366th day: the last day of four years, and of the century only if that has a leap day
    have hlast : n1 = 3 ∧ r4 = 1460 := by omega
    have hleap : isLeap (n400 * 400 + n100 * 100 + n4 * 4 + n1 + 1) := by
      have hcentury : n4 = 24 → n100 = 3 := by omega
      have hgroup : n4 ≤ 24 := by omega
      simp only [isLeap, Bool.and_eq_true, Bool.or_eq_true, beq_iff_eq, bne_iff_ne]
      omega
    rw [if_pos hleap]
    omega

theorem dateOfDays_spec {days : Nat} (h : days < 3652059) :
    (1 ≤ (dateOfDays days).1 ∧ (dateOfDays days).1 ≤ 9999) ∧
      (1 ≤ (dateOfDays days).2.1 ∧ (dateOfDays days).2.1 ≤ 12) ∧
      (1 ≤ (dateOfDays days).2.2 ∧
        (dateOfDays days).2.2 ≤ daysInMonth (dateOfDays days).1 (dateOfDays days).2.1) := by
  have hwithin := lt_daysInYear (days / 146097) (Nat.mod_lt days (by decide)) rfl rfl rfl rfl rfl
  rw [← sum_daysInMonth] at hwithin
  obtain ⟨hmonth, hday⟩ := monthAndDay_spec hwithin
  refine ⟨?_, ?_, hday⟩
  · simp only [dateOfDays]
    omega
  · have hall : ∀ m ∈ [1, 2, 3, 4, 5, 6, 7, 8, 9, 10, 11, 12], 1 ≤ m ∧ m ≤ 12 := by decide
    exact hall _ hmonth

/-- The moments up to the end of year 9999, to the millionth, are in range. -/
theorem inRange_ofSeconds {n micro : Nat} (h : n < 315537897600) (hmicro : micro < 1000000) :
    { ofSeconds n with micro }.InRange := by
  have hdays : n / 86400 < 3652059 := by omega
  obtain ⟨hyear, hmonth, hday⟩ := dateOfDays_spec hdays
  exact {
    year := hyear
    month := hmonth
    day := hday
    hour := by simp only [ofSeconds]; omega
    minute := by simp only [ofSeconds]; omega
    second := by simp only [ofSeconds]; omega
    micro := hmicro
    offset := by simp [ofSeconds] }

end LuaAudit.Docs.Timestamp
