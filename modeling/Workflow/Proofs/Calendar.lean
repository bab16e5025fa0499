import Workflow.Proofs.Numerals

/-!
# Points in time are read back

A day of the calendar has a year, a month and a day of the month, and these give the day back: the
years of an era of four centuries follow one another without gaps, and so do the months of a year
that starts in March. The text of a point in time is read piece by piece.
-/

namespace Workflow

/-- A reader goes on with what it has read. -/
theorem bind_of_some {α β : Type} {o : Option α} {a : α} (h : o = some a) (f : α → Option β) :
    o >>= f = f a := by
  rw [h, Option.bind_eq_bind, Option.bind_some]

namespace Timestamp

/-! ### Years of an era -/

/-- The year of an era in which a day of the era lies. -/
def yearOfEra (day : Nat) : Nat :=
  (day - day / 1460 + day / 36524 - day / 146096) / 365

/-- The first day of a year of an era. -/
def yearStart (year : Nat) : Nat :=
  365 * year + year / 4 - year / 100 + year / 400

theorem yearOfEra_mono {a b : Nat} (h : a ≤ b) : yearOfEra a ≤ yearOfEra b := by
  refine Nat.div_le_div_right ?_
  omega

/-- A year starts on a day of its own, the day after the last day of the year before. -/
theorem yearOfEra_yearStart : ∀ y < 400, yearOfEra (yearStart y) = y ∧
    yearOfEra (yearStart (y + 1) - 1) = y := by
  decide +kernel

/-- A day of an era lies between the first day of its year and that of the next. -/
theorem yearStart_le {day : Nat} (h : day < 146097) : yearOfEra day < 400 ∧
    yearStart (yearOfEra day) ≤ day ∧ day < yearStart (yearOfEra day + 1) := by
  have last : yearOfEra day ≤ 399 := yearOfEra_mono (b := 146096) (by omega)
  obtain ⟨y, hy⟩ : ∃ y, yearOfEra day = y := ⟨_, rfl⟩
  rw [hy] at last ⊢
  refine ⟨by omega, Nat.not_lt.mp fun before => ?_, Nat.not_le.mp fun after => ?_⟩
  · cases y with
    | zero => exact Nat.not_lt_zero day before
    | succ y =>
      have earlier := yearOfEra_mono (a := day) (b := yearStart (y + 1) - 1) (by omega)
      rw [hy, (yearOfEra_yearStart y (by omega)).2] at earlier
      omega
  · by_cases final : y = 399
    · rw [final] at after
      exact Nat.not_lt.mpr after h
    · have later := yearOfEra_mono after
      rw [hy, (yearOfEra_yearStart (y + 1) (by omega)).1] at later
      omega

/-- A year has 365 days, or one more if the next number is that of a leap year. -/
theorem yearStart_succ : ∀ y < 400, yearStart (y + 1) = yearStart y + 365 ∨
    yearStart (y + 1) = yearStart y + 366 ∧
      ((y + 1) % 4 = 0 ∧ (y + 1) % 100 ≠ 0 ∨ y = 399) := by
  decide +kernel

/-! ### Months of a year -/

/-- The length of a month, counted from March; February may have a day more. -/
def monthLength (shifted : Nat) : Nat :=
  if shifted = 11 then 28 else if shifted = 1 ∨ shifted = 3 ∨ shifted = 6 ∨ shifted = 8 then 30
  else 31

theorem month_of_day : ∀ day < 366, (5 * day + 2) / 153 ≤ 11 ∧
    (153 * ((5 * day + 2) / 153) + 2) / 5 ≤ day ∧
    (day < 365 → day - (153 * ((5 * day + 2) / 153) + 2) / 5 + 1 ≤
      monthLength ((5 * day + 2) / 153)) := by
  decide +kernel

theorem monthLength_le (year : Int) {m : Nat} (h : m ≤ 11) :
    monthLength m ≤ daysOfMonth year (if m < 10 then m + 3 else m - 9) := by
  rw [monthLength, daysOfMonth]
  repeat' split
  all_goals omega

/-! ### Days of the calendar -/

theorem dateOfDays_eq {days era : Int} {day : Nat} (h : days + 719468 = era * 146097 + day)
    (hd : day < 146097) :
    dateOfDays days =
      (let dayOfYear := day - (365 * yearOfEra day + yearOfEra day / 4 - yearOfEra day / 100)
      let shifted := (5 * dayOfYear + 2) / 153
      let month := if shifted < 10 then shifted + 3 else shifted - 9
      (if month ≤ 2 then era * 400 + yearOfEra day + 1 else era * 400 + yearOfEra day, month,
        dayOfYear - (153 * shifted + 2) / 5 + 1)) := by
  have hera : (days + 719468).fdiv 146097 = era := by
    rw [Int.fdiv_eq_ediv_of_nonneg _ (by decide)]
    omega
  have hday : (days + 719468 - era * 146097).toNat = day := by omega
  rw [dateOfDays]
  simp only [hera, hday]
  rfl

/-- The day of a date in a year that starts in March. -/
theorem daysOfDate_eq (era : Int) {y month : Nat} (day : Nat) (hy : y < 400) {year : Int}
    (hyear : (if month ≤ 2 then year - 1 else year) = era * 400 + y) :
    daysOfDate year month day = era * 146097 + (yearStart y +
      ((153 * ((month + 9) % 12) + 2) / 5 + day - 1 : Nat) : Nat) - 719468 := by
  have hera : (era * 400 + y).fdiv 400 = era := by
    rw [Int.fdiv_eq_ediv_of_nonneg _ (by decide)]
    omega
  have rest : era * 400 + y - era * 400 = (y : Int) := by omega
  rw [daysOfDate]
  simp only [hyear, hera, rest, yearStart,
    Int.fdiv_eq_ediv_of_nonneg _ (show (0 : Int) ≤ 4 by decide),
    Int.fdiv_eq_ediv_of_nonneg _ (show (0 : Int) ≤ 100 by decide)]
  omega

/-- **A day has a date that the calendar knows, and the date gives the day back.** -/
theorem exists_date (days : Int) : ∃ year month day, dateOfDays days = (year, month, day) ∧
    daysOfDate year month day = days ∧ 1 ≤ month ∧ month ≤ 12 ∧ 1 ≤ day ∧
      day ≤ daysOfMonth year month := by
  obtain ⟨era, d, h, hd⟩ : ∃ (era : Int) (d : Nat),
      days + 719468 = era * 146097 + d ∧ d < 146097 :=
    ⟨(days + 719468) / 146097, ((days + 719468) % 146097).toNat, by omega, by omega⟩
  obtain ⟨y, hy⟩ : ∃ y, yearOfEra d = y := ⟨_, rfl⟩
  obtain ⟨few, low, high⟩ := yearStart_le hd
  rw [hy] at few low high
  obtain ⟨n, hn⟩ : ∃ n, d - (365 * y + y / 4 - y / 100) = n := ⟨_, rfl⟩
  have start : yearStart y + n = d := by
    rw [yearStart] at low ⊢
    omega
  have long : n < 365 ∨ n = 365 ∧ ((y + 1) % 4 = 0 ∧ (y + 1) % 100 ≠ 0 ∨ y = 399) := by
    rcases yearStart_succ y few with year | ⟨year, leap⟩
    · omega
    · exact (Nat.lt_or_eq_of_le (by omega)).imp_right fun last => ⟨last, leap⟩
  obtain ⟨below, after, within⟩ := month_of_day n (by omega)
  obtain ⟨m, hm⟩ : ∃ m, (5 * n + 2) / 153 = m := ⟨_, rfl⟩
  have date := dateOfDays_eq h hd
  simp only [hy, hn, hm] at date
  rw [hm] at below after within
  refine ⟨_, _, _, date, ?_, ?_, ?_, ?_, ?_⟩
  · have turn : ((if m < 10 then m + 3 else m - 9) + 9) % 12 = m := by split <;> omega
    have whole : (153 * m + 2) / 5 + (n - (153 * m + 2) / 5 + 1) - 1 = n := by omega
    rw [daysOfDate_eq era _ few (by split <;> split <;> omega), turn, whole, start]
    omega
  · split <;> omega
  · split <;> omega
  · omega
  · rcases long with ordinary | ⟨last, leap⟩
    · exact Nat.le_trans (within ordinary) (monthLength_le _ below)
    · obtain rfl : m = 11 := by omega
      have bissextile : (era * 400 + y + 1) % 4 = 0 ∧ (era * 400 + y + 1) % 100 ≠ 0 ∨
          (era * 400 + y + 1) % 400 = 0 := by omega
      rw [last]
      exact Nat.le_of_eq (if_pos bissextile).symm

/-! ### Pieces of a text -/

theorem isBlank_of_isDigit {c : Char} (h : c.isDigit = true) :
    CharClass.blanks.contains c = false := by
  have low : 48 ≤ c.toNat ∧ c.toNat ≤ 57 := by
    simpa [Char.isDigit, UInt32.le_iff_toNat_le] using h
  simp only [CharClass.contains, CharClass.blanks, List.any_eq_false, List.mem_cons,
    List.not_mem_nil, or_false, decide_eq_true_eq]
  rintro r (rfl | rfl | rfl | rfl | rfl | rfl | rfl | rfl | rfl | rfl) <;> omega

theorem skipBlanks_of_digits {ds : List Char} (hd : ∀ c ∈ ds, c.isDigit = true) (hn : ds ≠ [])
    (rest : List Char) : skipBlanks (ds ++ rest) = ds ++ rest := by
  cases ds with
  | nil => exact absurd rfl hn
  | cons c ds =>
    exact List.dropWhile_cons_of_neg (by rw [isBlank_of_isDigit (hd c List.mem_cons_self)]; decide)

theorem readNumber_digits {ds : List Char} {width : Nat} (hd : ∀ c ∈ ds, c.isDigit = true)
    (hn : ds ≠ []) (hw : ds.length ≤ width) {c : Char} (hc : c.isDigit = false)
    (rest : List Char) :
    readNumber width (ds ++ c :: rest) = some (digitsValue ds, c :: rest) := by
  have ends : ((c :: rest).take (width - ds.length)).takeWhile Char.isDigit = [] := by
    cases width - ds.length with
    | zero => rfl
    | succ k => exact List.takeWhile_cons_of_neg (by rw [hc]; decide)
  have taken : ((ds ++ c :: rest).take width).takeWhile Char.isDigit = ds := by
    rw [List.take_append, List.take_of_length_le hw, List.takeWhile_append_of_pos hd, ends,
      List.append_nil]
  rw [readNumber, taken]
  cases ds with
  | nil => exact absurd rfl hn
  | cons d ds => simp

/-- A number that fits the width of a pair is read, up to what follows. -/
theorem readPair_padded {n : Nat} (hn : n < 100) {c : Char} (hc : c.isDigit = false)
    (rest : List Char) : readPair (padded 2 n ++ c :: rest) = some (n, c :: rest) := by
  have digits : ∀ c ∈ padded 2 n, c.isDigit = true := fun _ => isDigit_of_mem_padded
  rw [readPair, skipBlanks_of_digits digits (padded_ne_nil 2 n),
    readNumber_digits digits (padded_ne_nil 2 n) (Nat.le_of_eq (length_padded (by decide) hn)) hc,
    digitsValue_padded]

/-- The text of a year. -/
def yearText (year : Int) : List Char :=
  if 0 ≤ year ∧ year ≤ 9999 then padded 4 year.toNat
  else (if year < 0 then '-' else '+') :: padded 4 year.natAbs

theorem readYear_digits {ds : List Char} (hd : ∀ c ∈ ds, c.isDigit = true) (hn : ds ≠ [])
    (rest : List Char) : readYear (ds ++ rest) =
      (readNumber 4 (ds ++ rest)).map fun (n, rest) => ((n : Int), rest) := by
  rw [readYear, skipBlanks_of_digits hd hn]
  cases ds with
  | nil => exact absurd rfl hn
  | cons c ds =>
    have digit := hd c List.mem_cons_self
    rw [List.cons_append]
    split
    · next sign =>
      rw [(List.cons.inj sign).1] at digit
      exact absurd digit (by decide)
    · next sign =>
      rw [(List.cons.inj sign).1] at digit
      exact absurd digit (by decide)
    · rfl

theorem readYear_yearText (year : Int) (rest : List Char) :
    readYear (yearText year ++ '-' :: rest) = some (year, '-' :: rest) := by
  have digits (n : Nat) : ∀ c ∈ padded 4 n, c.isDigit = true := fun _ => isDigit_of_mem_padded
  have read (width n : Nat) (hw : (padded 4 n).length ≤ width) :
      readNumber width (padded 4 n ++ '-' :: rest) = some (n, '-' :: rest) := by
    rw [readNumber_digits (digits n) (padded_ne_nil 4 n) hw rfl, digitsValue_padded]
  have all (n : Nat) : (padded 4 n).length ≤ (padded 4 n ++ '-' :: rest).length := by
    rw [List.length_append]
    exact Nat.le_add_right _ _
  rw [yearText]
  split
  · have short : (padded 4 year.toNat).length = 4 := length_padded (by decide) (by omega)
    rw [readYear_digits (digits _) (padded_ne_nil 4 _), read 4 _ (Nat.le_of_eq short)]
    exact congrArg (fun y : Int => some (y, '-' :: rest)) (Int.toNat_of_nonneg (by omega))
  · split
    · have whole : readYear ('-' :: padded 4 year.natAbs ++ '-' :: rest) =
          (readNumber (padded 4 year.natAbs ++ '-' :: rest).length
            (padded 4 year.natAbs ++ '-' :: rest)).map fun (n, rest) => (-(n : Int), rest) := rfl
      rw [whole, read _ _ (all _)]
      exact congrArg (fun y : Int => some (y, '-' :: rest)) (by omega)
    · have whole : readYear ('+' :: padded 4 year.natAbs ++ '-' :: rest) =
          (readNumber (padded 4 year.natAbs ++ '-' :: rest).length
            (padded 4 year.natAbs ++ '-' :: rest)).map fun (n, rest) => ((n : Int), rest) := rfl
      rw [whole, read _ _ (all _)]
      exact congrArg (fun y : Int => some (y, '-' :: rest)) (by omega)

/-- Some digits of a fraction are read as nanoseconds. -/
theorem readFraction_padded {width n : Nat} (hw : 0 < width) (h9 : width ≤ 9)
    (hn : n < 10 ^ width) :
    readFraction ('.' :: padded width n ++ ['Z']) = some (n * 10 ^ (9 - width), ['Z']) := by
  have digits : ∀ c ∈ padded width n, c.isDigit = true := fun _ => isDigit_of_mem_padded
  have length := length_padded hw hn
  have taken : (padded width n ++ ['Z']).takeWhile Char.isDigit = padded width n := by
    rw [List.takeWhile_append_of_pos digits]
    exact List.append_nil _
  have value : digitsValue ((padded width n).take 9 ++
      List.replicate (9 - (padded width n).length) '0') = n * 10 ^ (9 - width) := by
    rw [List.take_of_length_le (Nat.le_trans (Nat.le_of_eq length) h9), length, digitsValue_eq,
      Nat.ofDigitChars_append, Nat.ofDigitChars_replicate_zero, ← digitsValue_eq,
      digitsValue_padded, Nat.mul_comm]
  rw [List.cons_append, readFraction, taken]
  split
  · next none => exact absurd none (padded_ne_nil width n)
  · rw [value, List.drop_left]

theorem readFraction_fraction {nanos : Nat} (h : nanos < 1000000000) :
    readFraction (fraction nanos ++ ['Z']) = some (nanos, ['Z']) := by
  rw [fraction]
  split
  · next hz =>
    rw [hz]
    rfl
  · split
    · next millis =>
      rw [readFraction_padded (by decide) (by decide) (by omega)]
      exact congrArg (fun n => some (n, ['Z']))
        (Nat.div_mul_cancel (Nat.dvd_of_mod_eq_zero millis))
    · split
      · next micros =>
        rw [readFraction_padded (by decide) (by decide) (by omega)]
        exact congrArg (fun n => some (n, ['Z']))
          (Nat.div_mul_cancel (Nat.dvd_of_mod_eq_zero micros))
      · rw [readFraction_padded (by decide) (by decide) (by omega)]
        rw [Nat.sub_self, Nat.pow_zero, Nat.mul_one]

theorem daysOfMonth_le (year : Int) (month : Nat) : daysOfMonth year month ≤ 31 := by
  rw [daysOfMonth]
  repeat' split
  all_goals decide

/-- A mark, and no digit, stands behind the seconds of a time of day. -/
theorem exists_fraction_eq_cons (nanos : Nat) :
    ∃ c rest, fraction nanos ++ ['Z'] = c :: rest ∧ c.isDigit = false := by
  rw [fraction]
  repeat' split
  all_goals exact ⟨_, _, rfl, rfl⟩

/-- A point in time that the calendar holds: a second has a thousand million nanoseconds, and the
last one of a minute may have twice as many. -/
structure Fits (t : Timestamp) : Prop where
  day : isWithinCalendar (t.seconds.fdiv 86400) = true
  nanos : t.nanos < 1000000000 ∨ t.nanos < 2000000000 ∧ t.seconds % 60 = 59

instance (t : Timestamp) : Decidable t.Fits :=
  decidable_of_iff (_ ∧ _) ⟨fun h => ⟨h.1, h.2⟩, fun h => ⟨h.1, h.2⟩⟩

/-- The day and the clock of a point in time make up its seconds. -/
theorem seconds_eq (t : Timestamp) :
    ∃ clock < 86400, (t.seconds - t.seconds.fdiv 86400 * 86400).toNat = clock ∧
      t.seconds = t.seconds.fdiv 86400 * 86400 + clock := by
  rw [Int.fdiv_eq_ediv_of_nonneg _ (by decide)]
  exact ⟨_, by omega, rfl, by omega⟩

/-- A mark is read. -/
theorem readChar_mark {accepted : List Char} {c : Char} (h : c ∈ accepted) (rest : List Char) :
    readChar accepted (c :: rest) = some rest :=
  if_pos h

theorem guard_bind {α : Type} {p : Prop} [Decidable p] (h : p) (f : Unit → Option α) :
    (guard p >>= f : Option α) = f () :=
  bind_of_some (if_pos h) f

/-- **The text of a point in time is read back.** -/
theorem parse?_print {t : Timestamp} (h : t.Fits) : parse? t.print = some t := by
  have within := h.day
  obtain ⟨clock, inDay, hclock, seconds⟩ := t.seconds_eq
  obtain ⟨days, hdays⟩ : ∃ days, t.seconds.fdiv 86400 = days := ⟨_, rfl⟩
  rw [hdays] at within hclock seconds
  obtain ⟨year, month, day, date, back, m1, m2, d1, d2⟩ := exists_date days
  have long := daysOfMonth_le year month
  obtain ⟨second, hsecond⟩ : ∃ s, clock % 60 + t.nanos / 1000000000 = s := ⟨_, rfl⟩
  have leap : (if second = 60 then 1 else 0 : Nat) = t.nanos / 1000000000 ∧ second ≤ 60 := by
    have := h.nanos
    split <;> omega
  have printed : t.print.toList = yearText year ++ '-' :: (padded 2 month ++ '-' ::
      (padded 2 day ++ 'T' :: (padded 2 (clock / 3600) ++ ':' :: (padded 2 (clock / 60 % 60) ++
      ':' :: (padded 2 second ++ (fraction (t.nanos % 1000000000) ++ ['Z'])))))) := by
    rw [print, String.toList_ofList]
    simp only [hdays, hclock, date, hsecond, List.append_assoc, List.cons_append]
    rfl
  obtain ⟨c, rest, tail, hc⟩ := exists_fraction_eq_cons (t.nanos % 1000000000)
  have fraction := readFraction_fraction (Nat.mod_lt t.nanos (show 0 < 1000000000 by decide))
  have whole : days * 86400 + (((clock / 3600 : Nat) : Int) * 3600 +
      ((clock / 60 % 60 : Nat) : Int) * 60 +
      ((second - t.nanos / 1000000000 : Nat) : Int)) - 0 = t.seconds := by
    rw [seconds]
    omega
  have valid : (isWithinCalendar days && isWithinCalendar days) = true := by
    rw [within]
    rfl
  have dash : '-' ∈ ['-'] := List.mem_cons_self
  have colon : ':' ∈ [':'] := List.mem_cons_self
  rw [parse?, printed]
  refine (bind_of_some (readYear_yearText year _) _).trans ?_
  refine (bind_of_some (readChar_mark dash _) _).trans ?_
  refine (bind_of_some (readPair_padded (by omega) rfl _) _).trans ?_
  refine (bind_of_some (readChar_mark dash _) _).trans ?_
  refine (bind_of_some (readPair_padded (by omega) rfl _) _).trans ?_
  refine (bind_of_some (readChar_mark List.mem_cons_self _) _).trans ?_
  refine (bind_of_some (readPair_padded (by omega) rfl _) _).trans ?_
  refine (bind_of_some (readChar_mark colon _) _).trans ?_
  refine (bind_of_some (readPair_padded (by omega) rfl _) _).trans ?_
  refine (bind_of_some (readChar_mark colon _) _).trans ?_
  rw [tail]
  refine (bind_of_some (readPair_padded (by omega) hc _) _).trans ?_
  rw [← tail]
  refine (bind_of_some fraction _).trans ?_
  refine (bind_of_some (a := ((0 : Int), [])) rfl _).trans ?_
  refine (guard_bind rfl _).trans ?_
  refine (guard_bind ⟨m1, m2, d1, d2⟩ _).trans ?_
  refine (guard_bind ⟨by omega, by omega, leap.2⟩ _).trans ?_
  dsimp only
  rw [back, leap.1, whole, hdays, guard_bind valid, Nat.mod_add_div']
  rfl

end Timestamp

end Workflow
