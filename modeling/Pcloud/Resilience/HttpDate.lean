import Mathlib.Data.List.SplitLengths
import Pcloud.Lib.Calendar
import Pcloud.Proto.Numerals
import Pcloud.Resilience.Transport

/-!
# Dates of HTTP (`pcloud-resilience/src/transport.rs`)

What `parse_imf_fixdate_unix` takes, against the texts of the dates and times of the calendar.
-/

namespace Pcloud.HttpDate

open Calendar Numerals

/-! ## The calendar of the source -/

theorem isLeapYear_iff (year : Int) : isLeapYear year = true ↔ IsLeap year := by
  have hmod : ∀ n : Int, year.tmod n = 0 ↔ n ∣ year := fun n => (Int.dvd_iff_tmod_eq_zero).symm
  simp [isLeapYear, IsLeap, hmod]

theorem daysInMonth_eq (year : Int) {month : Nat} (hpos : 1 ≤ month) (hle : month ≤ 12) :
    daysInMonth year month = monthLength year month := by
  have hleap := isLeapYear_iff year
  interval_cases month <;> simp [daysInMonth, monthLength, hleap]

theorem daysBeforeMonth_eq (year : Int) {month : Nat} (hpos : 1 ≤ month) (hle : month ≤ 12) :
    daysBeforeMonth year month + 306 =
      (153 * (if 2 < month then month - 3 else month + 9) + 2) / 5 + if 2 < month then yearLength year else 0 := by
  induction month, hpos using Nat.le_induction with
  | base => simp [daysBeforeMonth]
  | succ month hpos ih =>
    have hlt : month < 12 := hle
    have ih := ih hlt.le
    rw [daysBeforeMonth_succ year hpos]
    unfold yearLength at *
    by_cases hleap : IsLeap year
    · interval_cases month <;> simp [monthLength, hleap] at ih ⊢ <;> omega
    · interval_cases month <;> simp [monthLength, hleap] at ih ⊢ <;> omega

/-- The division of the source rounds to zero. -/
theorem era_eq (y : Int) : (if 0 ≤ y then y else y - 399).tdiv 400 = y / 400 := by
  have hsign : Int.sign 400 = 1 := rfl
  rw [Int.tdiv_eq_ediv, hsign]
  split <;> split <;> omega

theorem daysBeforeMarch_eq (y : Int) :
    y / 400 * 146097 + ((y - y / 400 * 400) * 365 + (y - y / 400 * 400) / 4 - (y - y / 400 * 400) / 100) - 719468 +
      306 = daysBeforeYear (y + 1) - daysBeforeYear 1970 := by
  unfold daysBeforeYear
  omega

theorem unixTimestamp_eq (date : Date) (time : TimeOfDay) :
    unixTimestamp date.year date.month date.day time.hour time.minute time.second = secondsSince 1970 date time := by
  have hmonth := daysBeforeMonth_eq date.year date.month_pos date.month_le
  have hyear := daysBeforeYear_succ date.year
  have hday := date.day_pos
  rw [secondsSince, Date.daysSince, yearsBetween_eq, unixTimestamp, era_eq]
  by_cases hjanuary : date.month ≤ 2
  · have hmarch := daysBeforeMarch_eq (date.year - 1)
    rw [if_neg (by omega), if_neg (by omega)] at hmonth
    rw [if_pos hjanuary, if_neg (by omega)]
    rw [sub_add_cancel] at hmarch
    omega
  · have hmarch := daysBeforeMarch_eq date.year
    rw [if_pos (by omega), if_pos (by omega)] at hmonth
    rw [if_neg hjanuary, if_pos (by omega)]
    omega

/-! ## Numbers with a sign -/

def IsSigned (width : Nat) (n : Int) (text : List Char) : Prop :=
  (∃ m : Nat, n = m ∧ IsUnsigned width m text) ∨
    ∃ m : Nat, n = -m ∧ text = '-' :: numeral (width - 1) m ∧ m < 10 ^ (width - 1)

theorem map_cast_eq_some_iff {parsed : Option Nat} {f : Int → Int} {n : Int} :
    Option.map f (do let m ← parsed; pure (m : Int)) = some n ↔ ∃ m : Nat, parsed = some m ∧ f m = n := by
  cases parsed <;> simp

theorem parseSigned_eq_some_iff {text : List Char} {n : Int} (hlength : text.length = 4) :
    parseSigned text = some n ↔ IsSigned 4 n text := by
  unfold parseSigned
  split
  · next digits =>
    have hdigits : digits.length = 3 := by simpa using hlength
    rw [IsSigned, or_iff_right fun ⟨m, _, hm⟩ => not_isUnsigned_minus hm]
    split
    · next hplus =>
      obtain ⟨rest, rfl⟩ := List.head?_eq_some_iff.mp hplus
      refine iff_of_false (by simp) ?_
      rintro ⟨m, -, h, -⟩
      exact numeral_ne_cons (by decide) (List.cons.inj h).2.symm
    · next hplus =>
      rw [map_cast_eq_some_iff]
      refine exists_congr fun m => ?_
      have hdecimal : IsUnsigned 3 m digits ↔ digits = numeral 3 m ∧ m < 10 ^ 3 := by
        refine or_iff_left ?_
        rintro ⟨h, -⟩
        exact hplus (by rw [h]; rfl)
      rw [parseUnsigned_eq_some_iff hdigits (by decide), hdecimal, List.cons_inj_right, @eq_comm _ n]
      exact and_comm
  · next hminus =>
    rw [map_cast_eq_some_iff, IsSigned, or_iff_left]
    · refine exists_congr fun m => ?_
      rw [parseUnsigned_eq_some_iff hlength (by decide), @eq_comm _ n]
      exact and_comm
    · rintro ⟨m, -, h, -⟩
      exact hminus _ h

theorem isSigned_iff_of_notMem {width : Nat} {n : Int} {number : List Char} (hplus : '+' ∉ number)
    (hminus : '-' ∉ number) :
    IsSigned width n number ↔ 0 ≤ n ∧ number = numeral width n.toNat ∧ n.toNat < 10 ^ width := by
  constructor
  · rintro (⟨m, rfl, h⟩ | ⟨m, -, rfl, -⟩)
    · rw [isUnsigned_iff_of_notMem hplus] at h
      exact ⟨Int.natCast_nonneg m, h⟩
    · exact absurd List.mem_cons_self hminus
  · rintro ⟨hn, h⟩
    exact .inl ⟨n.toNat, (Int.toNat_of_nonneg hn).symm, (isUnsigned_iff_of_notMem hplus).mpr h⟩

/-! ## The bytes of a text -/

/-- The bytes of a text as the parser sees them, each as a character. -/
def byteChars (s : List Char) : List Char := (utf8 (String.ofList s)).map fun b => Char.ofNat b.toNat

theorem toList_loop (bytes : ByteArray) (i : Nat) (seen : List UInt8) :
    ByteArray.toList.loop bytes i seen = seen.reverse ++ bytes.data.toList.drop i := by
  induction i, seen using ByteArray.toList.loop.induct bytes with
  | case1 i seen hlt ih =>
    have hi : i < bytes.data.size := hlt
    have hget : bytes.get! i = bytes.data[i] := by
      unfold ByteArray.get!
      exact getElem!_pos bytes.data i hi
    have hdrop : bytes.data.toList.drop i = bytes.get! i :: bytes.data.toList.drop (i + 1) := by
      rw [hget, ← Array.getElem_toList, ← List.drop_eq_getElem_cons]
    rw [ByteArray.toList.loop, if_pos hlt, ih, hdrop, List.reverse_cons, List.append_assoc, List.singleton_append]
  | case2 i seen hle =>
    have hdrop : bytes.data.toList.drop i = [] := List.drop_eq_nil_of_le (Nat.not_lt.mp hle)
    rw [ByteArray.toList.loop, if_neg hle, hdrop, List.append_nil]

theorem toList_toUTF8 (text : String) : text.toUTF8.toList = utf8 text := toList_loop text.toUTF8 0 []

theorem toNat_ofNat_byte (b : UInt8) : (Char.ofNat b.toNat).toNat = b.toNat := by
  have hlt := b.toNat_lt
  have hvalid : b.toNat.isValidChar := Or.inl (by omega)
  rw [Char.ofNat, dif_pos hvalid]
  rfl

theorem encode_of_ascii {c : Char} (hascii : c.toNat < 128) :
    (String.utf8EncodeChar c).map (fun b => Char.ofNat b.toNat) = [c] := by
  have hle : c.val ≤ 0x7f := UInt32.le_iff_toNat_le.mpr (Nat.le_of_lt_succ hascii)
  have hsize : c.utf8Size = 1 := if_pos hle
  have hbyte : c.val.toUInt8.toNat = c.toNat := by
    rw [UInt32.toNat_toUInt8]
    exact Nat.mod_eq_of_lt (hascii.trans (by decide))
  rw [String.utf8EncodeChar_eq_singleton hsize, List.map_singleton, hbyte, Char.ofNat_toNat]

theorem byteChars_inj {s text : List Char} (h : byteChars s = byteChars text) : s = text := by
  have hbyte : Function.Injective fun b : UInt8 => Char.ofNat b.toNat := fun a b hab => by
    have hnat := congrArg Char.toNat hab
    rw [toNat_ofNat_byte, toNat_ofNat_byte] at hnat
    exact UInt8.toNat_inj.mp hnat
  exact String.ofList_injective (utf8_inj (List.map_injective_iff.mpr hbyte h))

def isAscii (text : List Char) : Bool := text.all fun c => c.toNat < 128

theorem byteChars_of_isAscii {text : List Char} (hascii : isAscii text = true) : byteChars text = text := by
  rw [byteChars, utf8_eq_flatMap, String.toList_ofList]
  induction text with
  | nil => rfl
  | cons c text ih =>
    obtain ⟨hc, htext⟩ := Bool.and_eq_true_iff.mp hascii
    rw [List.flatMap_cons, List.map_append, encode_of_ascii (of_decide_eq_true hc), List.singleton_append, ih htext]

/-! ## The pieces of a text -/

theorem splitLengths_flatten {α : Type} (pieces : List (List α)) :
    (pieces.map List.length).splitLengths pieces.flatten = pieces := by
  induction pieces with
  | nil => rfl
  | cons piece pieces ih =>
    rw [List.map_cons, List.flatten_cons, List.splitLengths_cons, List.take_left, List.drop_left, ih]

/-- The pieces of a text of 29 bytes that has a comma and a blank after the third and the zone at its end. -/
structure Fields where
  weekday : List Char
  day : List Char
  daySep : Char
  month : List Char
  monthSep : Char
  year : List Char
  yearSep : Char
  hour : List Char
  hourSep : Char
  minute : List Char
  minuteSep : Char
  second : List Char
  length_weekday : weekday.length = 3
  length_day : day.length = 2
  length_month : month.length = 3
  length_year : year.length = 4
  length_hour : hour.length = 2
  length_minute : minute.length = 2
  length_second : second.length = 2

namespace Fields

def pieces (f : Fields) : List (List Char) :=
  [f.weekday, ", ".toList, f.day, [f.daySep], f.month, [f.monthSep], f.year, [f.yearSep], f.hour, [f.hourSep],
    f.minute, [f.minuteSep], f.second, " GMT".toList]

def text (f : Fields) : List Char := f.pieces.flatten

def widths : List Nat := [3, 2, 2, 1, 3, 1, 4, 1, 2, 1, 2, 1, 2, 4]

theorem map_length_pieces (f : Fields) : f.pieces.map List.length = widths := by
  simp [pieces, widths, f.length_weekday, f.length_day, f.length_month, f.length_year, f.length_hour,
    f.length_minute, f.length_second]

theorem split_text (f : Fields) : widths.splitLengths f.text = f.pieces := by
  rw [← f.map_length_pieces, text, splitLengths_flatten]

theorem length_text (f : Fields) : f.text.length = 29 := by
  rw [text, List.length_flatten, map_length_pieces]
  rfl

theorem pieces_inj {f g : Fields} (h : f.pieces = g.pieces) : f = g := by
  cases f
  cases g
  simpa [pieces] using h

theorem text_inj {f g : Fields} (h : f.text = g.text) : f = g := by
  apply pieces_inj
  rw [← split_text, h, split_text]

theorem split_widths (bytes : List Char) :
    widths.splitLengths bytes =
      [bytes.take 3, (bytes.drop 3).take 2, (bytes.drop 5).take 2, (bytes.drop 7).take 1, (bytes.drop 8).take 3,
        (bytes.drop 11).take 1, (bytes.drop 12).take 4, (bytes.drop 16).take 1, (bytes.drop 17).take 2,
        (bytes.drop 19).take 1, (bytes.drop 20).take 2, (bytes.drop 22).take 1, (bytes.drop 23).take 2,
        (bytes.drop 25).take 4] := by
  simp [widths, List.drop_drop]

theorem exists_text_eq {bytes : List Char} (hlength : bytes.length = 29)
    (hcomma : (bytes.drop 3).take 2 = ", ".toList) (hzone : bytes.drop 25 = " GMT".toList) :
    ∃ f : Fields, f.text = bytes := by
  have hflatten : (widths.splitLengths bytes).flatten = bytes := List.flatten_splitLengths _ _ hlength.le
  have hone : ∀ i, i < 29 → ∃ c, (bytes.drop i).take 1 = [c] := fun i hi => by
    apply List.length_eq_one_iff.mp
    rw [List.length_take, List.length_drop, hlength]
    omega
  obtain ⟨daySep, hdaySep⟩ := hone 7 (by decide)
  obtain ⟨monthSep, hmonthSep⟩ := hone 11 (by decide)
  obtain ⟨yearSep, hyearSep⟩ := hone 16 (by decide)
  obtain ⟨hourSep, hhourSep⟩ := hone 19 (by decide)
  obtain ⟨minuteSep, hminuteSep⟩ := hone 22 (by decide)
  refine ⟨{ weekday := bytes.take 3
            day := (bytes.drop 5).take 2
            daySep
            month := (bytes.drop 8).take 3
            monthSep
            year := (bytes.drop 12).take 4
            yearSep
            hour := (bytes.drop 17).take 2
            hourSep
            minute := (bytes.drop 20).take 2
            minuteSep
            second := (bytes.drop 23).take 2
            length_weekday := by simp [hlength]
            length_day := by simp [hlength]
            length_month := by simp [hlength]
            length_year := by simp [hlength]
            length_hour := by simp [hlength]
            length_minute := by simp [hlength]
            length_second := by simp [hlength] }, ?_⟩
  rw [split_widths, hdaySep, hmonthSep, hyearSep, hhourSep, hminuteSep, hcomma, hzone] at hflatten
  exact hflatten

end Fields

/-! ## What is read -/

def monthName (month : Nat) : String :=
  ["Jan", "Feb", "Mar", "Apr", "May", "Jun", "Jul", "Aug", "Sep", "Oct", "Nov", "Dec"].getD (month - 1) ""

theorem monthNumber_eq_some_iff {name : String} {month : Nat} :
    monthNumber name = some month ↔ name = monthName month ∧ 1 ≤ month ∧ month ≤ 12 := by
  constructor
  · intro h
    unfold monthNumber at h
    split at h <;> cases h <;> decide
  · rintro ⟨rfl, hpos, hle⟩
    interval_cases month <;> rfl

namespace Fields

/-- The pieces are a way to write a date and a time. -/
structure Reads (f : Fields) (date : Date) (time : TimeOfDay) : Prop where
  day : IsUnsigned 2 date.day f.day
  month : f.month = (monthName date.month).toList
  year : IsSigned 4 date.year f.year
  hour : IsUnsigned 2 time.hour f.hour
  minute : IsUnsigned 2 time.minute f.minute
  second : IsUnsigned 2 time.second f.second

theorem guard_eq_some_iff {p : Prop} [Decidable p] {u : Unit} : guard p = some u ↔ p := by
  by_cases hp : p <;> simp [hp]

theorem parse_text_eq_some_iff (f : Fields) {s : List Char} (htext : byteChars s = f.text) {t : Int} :
    parseImfFixdateUnix s = some t ↔ ∃ date time, f.Reads date time ∧ t = secondsSince 1970 date time := by
  have hpieces := f.split_text
  simp only [split_widths, pieces, List.cons.injEq] at hpieces
  obtain ⟨-, hcomma, hday, -, hmonth, -, hyear, -, hhour, -, hminute, -, hsecond, hzone, -⟩ := hpieces
  have hbytes : ((String.ofList s).toUTF8.toList.map fun b => Char.ofNat b.toNat) = f.text := by
    rw [toList_toUTF8]
    exact htext
  have hzone' : f.text.drop 25 = " GMT".toList := by
    rw [← hzone, List.take_of_length_le (by simp [length_text])]
  unfold parseImfFixdateUnix
  simp only [hbytes, hcomma, hday, hmonth, hyear, hhour, hminute, hsecond, hzone', f.length_text,
    Option.bind_eq_bind, Option.bind_eq_some_iff, guard_eq_some_iff, exists_const, monthNumber_eq_some_iff,
    parseUnsigned_eq_some_iff f.length_day (by decide : 10 ^ 2 ≤ 2 ^ 32 - 1 + 1),
    parseUnsigned_eq_some_iff f.length_hour (by decide : 10 ^ 2 ≤ 2 ^ 32 - 1 + 1),
    parseUnsigned_eq_some_iff f.length_minute (by decide : 10 ^ 2 ≤ 2 ^ 32 - 1 + 1),
    parseUnsigned_eq_some_iff f.length_second (by decide : 10 ^ 2 ≤ 2 ^ 32 - 1 + 1),
    parseSigned_eq_some_iff f.length_year]
  constructor
  · rintro ⟨-, -, day, hday, year, hyear, hour, hhour, minute, hminute, second, hsecond, ⟨hlt, hlt', hlt''⟩, month,
      ⟨hmonth, hpos, hle⟩, ⟨hday_ne, hday_le⟩, ht⟩
    rw [daysInMonth_eq year hpos hle] at hday_le
    let date : Date := ⟨year, month, day, hpos, hle, Nat.pos_of_ne_zero hday_ne, hday_le⟩
    let time : TimeOfDay := ⟨hour, minute, second, hlt, hlt', hlt''⟩
    have hreads : f.Reads date time := ⟨hday, by rw [← hmonth, String.toList_ofList], hyear, hhour, hminute, hsecond⟩
    exact ⟨date, time, hreads, (Option.some.inj ht).symm.trans (unixTimestamp_eq date time)⟩
  · rintro ⟨date, time, h, rfl⟩
    have hday := date.day_le
    rw [← daysInMonth_eq date.year date.month_pos date.month_le] at hday
    refine ⟨trivial, ⟨trivial, trivial⟩, date.day, h.day, date.year, h.year, time.hour, h.hour, time.minute, h.minute,
      time.second, h.second, ⟨time.hour_lt, time.minute_lt, time.second_lt⟩, date.month,
      ⟨?_, date.month_pos, date.month_le⟩, ⟨Nat.ne_of_gt date.day_pos, hday⟩, ?_⟩
    · rw [h.month, String.ofList_toList]
    · exact congrArg some (unixTimestamp_eq date time)

theorem exists_text_eq_of_parse {s : List Char} {t : Int} (h : parseImfFixdateUnix s = some t) :
    ∃ f : Fields, f.text = byteChars s := by
  have hbytes : ((String.ofList s).toUTF8.toList.map fun b => Char.ofNat b.toNat) = byteChars s := by
    rw [toList_toUTF8]
    rfl
  unfold parseImfFixdateUnix at h
  simp only [hbytes, Option.bind_eq_bind, Option.bind_eq_some_iff, guard_eq_some_iff, exists_const] at h
  obtain ⟨hlength, ⟨hcomma, hzone⟩, -⟩ := h
  exact exists_text_eq hlength hcomma hzone

/-- **What the parser takes**: the texts whose pieces are a way to write a date and a time. -/
theorem parse_eq_some_iff {s : List Char} {t : Int} :
    parseImfFixdateUnix s = some t ↔
      ∃ f : Fields, byteChars s = f.text ∧ ∃ date time, f.Reads date time ∧ t = secondsSince 1970 date time := by
  constructor
  · intro h
    obtain ⟨f, htext⟩ := exists_text_eq_of_parse h
    exact ⟨f, htext.symm, (f.parse_text_eq_some_iff htext.symm).mp h⟩
  · rintro ⟨f, htext, h⟩
    exact (f.parse_text_eq_some_iff htext).mpr h

end Fields

/-! ## Dates as they are to be written -/

def weekdays : List String := ["Mon", "Tue", "Wed", "Thu", "Fri", "Sat", "Sun"]

/-- `Wed, 21 Oct 2015 07:28:00 GMT` -/
def imfFixdate (weekday : String) (date : Date) (time : TimeOfDay) : List Char :=
  [weekday.toList, ", ".toList, numeral 2 date.day, [' '], (monthName date.month).toList, [' '],
    numeral 4 date.year.toNat, [' '], numeral 2 time.hour, [':'], numeral 2 time.minute, [':'], numeral 2 time.second,
    " GMT".toList].flatten

/-- A text is the writing of a date and a time, so many seconds from the epoch. The weekday is any of the seven. -/
def Denotes (s : List Char) (t : Int) : Prop :=
  ∃ weekday ∈ weekdays, ∃ date time, 0 ≤ date.year ∧ date.year ≤ 9999 ∧ s = imfFixdate weekday date time ∧
    t = secondsSince 1970 date time

namespace Fields

/-- A weekday, the separators in their places, and no sign before a number. -/
structure Strict (f : Fields) : Prop where
  weekday : ∃ weekday ∈ weekdays, f.weekday = weekday.toList
  separators : [f.daySep, f.monthSep, f.yearSep, f.hourSep, f.minuteSep] = [' ', ' ', ' ', ':', ':']
  numbers : ∀ number ∈ [f.day, f.year, f.hour, f.minute, f.second], '+' ∉ number ∧ '-' ∉ number

theorem Reads.text_eq {f : Fields} {date : Date} {time : TimeOfDay} (h : f.Reads date time) (hstrict : f.Strict) :
    ∃ weekday ∈ weekdays, 0 ≤ date.year ∧ date.year ≤ 9999 ∧ f.text = imfFixdate weekday date time := by
  obtain ⟨weekday, hmem, hweekday⟩ := hstrict.weekday
  have hseparators := hstrict.separators
  have hnumbers := hstrict.numbers
  simp only [List.cons.injEq, and_true] at hseparators
  simp only [List.forall_mem_cons] at hnumbers
  obtain ⟨hdaySep, hmonthSep, hyearSep, hhourSep, hminuteSep⟩ := hseparators
  obtain ⟨hday, hyear, hhour, hminute, hsecond, -⟩ := hnumbers
  obtain ⟨hnonneg, hyear, hlt⟩ := (isSigned_iff_of_notMem hyear.1 hyear.2).mp h.year
  refine ⟨weekday, hmem, hnonneg, by omega, ?_⟩
  rw [text, pieces, hweekday, ((isUnsigned_iff_of_notMem hday.1).mp h.day).1, hdaySep, h.month, hmonthSep, hyear,
    hyearSep, ((isUnsigned_iff_of_notMem hhour.1).mp h.hour).1, hhourSep,
    ((isUnsigned_iff_of_notMem hminute.1).mp h.minute).1, hminuteSep,
    ((isUnsigned_iff_of_notMem hsecond.1).mp h.second).1]
  rfl

end Fields

theorem length_of_mem_weekdays {weekday : String} (h : weekday ∈ weekdays) : weekday.toList.length = 3 := by
  revert weekday
  decide

theorem length_monthName {month : Nat} (hpos : 1 ≤ month) (hle : month ≤ 12) :
    (monthName month).toList.length = 3 := by
  interval_cases month <;> rfl

/-- The pieces of a date as it is to be written. -/
def Fields.ofDate {weekday : String} (hweekday : weekday ∈ weekdays) (date : Date) (time : TimeOfDay) : Fields where
  weekday := weekday.toList
  day := numeral 2 date.day
  daySep := ' '
  month := (monthName date.month).toList
  monthSep := ' '
  year := numeral 4 date.year.toNat
  yearSep := ' '
  hour := numeral 2 time.hour
  hourSep := ':'
  minute := numeral 2 time.minute
  minuteSep := ':'
  second := numeral 2 time.second
  length_weekday := length_of_mem_weekdays hweekday
  length_day := length_numeral _ _
  length_month := length_monthName date.month_pos date.month_le
  length_year := length_numeral _ _
  length_hour := length_numeral _ _
  length_minute := length_numeral _ _
  length_second := length_numeral _ _

namespace Fields

variable {weekday : String} (hweekday : weekday ∈ weekdays) (date : Date) (time : TimeOfDay)

theorem text_ofDate : (ofDate hweekday date time).text = imfFixdate weekday date time := rfl

theorem reads_ofDate (hnonneg : 0 ≤ date.year) (hle : date.year ≤ 9999) :
    (ofDate hweekday date time).Reads date time := by
  have hday := date.day_le.trans (monthLength_le date.year date.month)
  have hhour := time.hour_lt
  have hminute := time.minute_lt
  have hsecond := time.second_lt
  exact {
    day := .inl ⟨rfl, by omega⟩
    month := rfl
    year := .inl ⟨date.year.toNat, (Int.toNat_of_nonneg hnonneg).symm, .inl ⟨rfl, by omega⟩⟩
    hour := .inl ⟨rfl, by omega⟩
    minute := .inl ⟨rfl, by omega⟩
    second := .inl ⟨rfl, by omega⟩ }

theorem strict_ofDate : (ofDate hweekday date time).Strict where
  weekday := ⟨weekday, hweekday, rfl⟩
  separators := rfl
  numbers := by
    have hsigns : ∀ width n, '+' ∉ numeral width n ∧ '-' ∉ numeral width n := fun width n =>
      ⟨notMem_numeral (by decide), notMem_numeral (by decide)⟩
    simp [ofDate, hsigns]

end Fields

theorem isAscii_flatten (pieces : List (List Char)) : isAscii pieces.flatten = pieces.all isAscii := List.all_flatten

theorem isAscii_imfFixdate {weekday : String} (hweekday : weekday ∈ weekdays) (date : Date) (time : TimeOfDay) :
    isAscii (imfFixdate weekday date time) = true := by
  have hnumeral : ∀ width n, isAscii (numeral width n) = true := fun width n => List.all_eq_true.mpr fun c hc => by
    have hdigit := mem_numeral hc
    exact decide_eq_true (by omega)
  have hname : isAscii weekday.toList = true := by
    revert weekday
    decide
  have hmonth : isAscii (monthName date.month).toList = true := by
    have hpos := date.month_pos
    have hle := date.month_le
    generalize date.month = month at hpos hle
    interval_cases month <;> rfl
  rw [imfFixdate, isAscii_flatten]
  simp only [List.all_cons, List.all_nil, hname, hmonth, hnumeral]
  rfl

theorem byteChars_eq_iff {s : List Char} {weekday : String} (hweekday : weekday ∈ weekdays) {date : Date}
    {time : TimeOfDay} : byteChars s = imfFixdate weekday date time ↔ s = imfFixdate weekday date time := by
  have hascii := byteChars_of_isAscii (isAscii_imfFixdate hweekday date time)
  constructor
  · exact fun h => byteChars_inj (h.trans hascii.symm)
  · intro h
    rw [h, hascii]

/-! ## Results -/

theorem parse_of_denotes {s : List Char} {t : Int} (h : Denotes s t) : parseImfFixdateUnix s = some t := by
  obtain ⟨weekday, hweekday, date, time, hnonneg, hle, htext, ht⟩ := h
  refine Fields.parse_eq_some_iff.mpr ⟨.ofDate hweekday date time, ?_, date, time, ?_, ht⟩
  · rw [Fields.text_ofDate, byteChars_eq_iff hweekday, htext]
  · exact Fields.reads_ofDate hweekday date time hnonneg hle

/-- A writing of a date and a time with another name in place of the weekday, a separator that is not the one for its
place, or a number with a sign. -/
def Loose (s : List Char) : Prop :=
  ∃ f : Fields, byteChars s = f.text ∧ (∃ date time, f.Reads date time) ∧ ¬f.Strict

/-- Exactly the dates as they are to be written are read. -/
def IsExactAt (s : List Char) : Prop := ∀ t, parseImfFixdateUnix s = some t ↔ Denotes s t

theorem strict_of_denotes {s : List Char} {t : Int} (h : Denotes s t) {f : Fields} (htext : byteChars s = f.text) :
    f.Strict := by
  obtain ⟨weekday, hweekday, date, time, -, -, hs, -⟩ := h
  have heq : f = .ofDate hweekday date time := by
    apply Fields.text_inj
    rw [← htext, Fields.text_ofDate, byteChars_eq_iff hweekday, hs]
  rw [heq]
  exact Fields.strict_ofDate hweekday date time

theorem Loose.not_isExactAt {s : List Char} (h : Loose s) : ¬IsExactAt s := by
  obtain ⟨f, htext, ⟨date, time, hreads⟩, hloose⟩ := h
  intro hexact
  have hparse := Fields.parse_eq_some_iff.mpr ⟨f, htext, date, time, hreads, rfl⟩
  exact hloose (strict_of_denotes ((hexact _).mp hparse) htext)

theorem isExactAt_iff (s : List Char) : IsExactAt s ↔ ¬Loose s := by
  constructor
  · exact fun hexact hloose => hloose.not_isExactAt hexact
  · intro hloose t
    refine ⟨fun h => ?_, parse_of_denotes⟩
    obtain ⟨f, htext, date, time, hreads, ht⟩ := Fields.parse_eq_some_iff.mp h
    have hstrict : f.Strict := by
      by_contra hnot
      exact hloose ⟨f, htext, ⟨date, time, hreads⟩, hnot⟩
    obtain ⟨weekday, hweekday, hnonneg, hle, hf⟩ := hreads.text_eq hstrict
    rw [hf, byteChars_eq_iff hweekday] at htext
    exact ⟨weekday, hweekday, date, time, hnonneg, hle, htext, ht⟩

/-- The date of an old cookie, with dashes. -/
theorem not_forall_isExactAt : ¬∀ s, IsExactAt s := by
  intro hexact
  have hwed : "Wed" ∈ weekdays := by decide
  let date : Date := ⟨2015, 10, 21, by decide, by decide, by decide, by decide⟩
  let time : TimeOfDay := ⟨7, 28, 0, by decide, by decide, by decide⟩
  let f : Fields := { Fields.ofDate hwed date time with daySep := '-', monthSep := '-' }
  have hascii : isAscii "Wed, 21-Oct-2015 07:28:00 GMT".toList = true := by decide
  have hloose : Loose "Wed, 21-Oct-2015 07:28:00 GMT".toList := by
    refine ⟨f, (byteChars_of_isAscii hascii).trans ?_, ⟨date, time, ?_⟩, ?_⟩
    · simp [f, date, time, Fields.text, Fields.pieces, Fields.ofDate, numeral, digit, monthName]
    · have hreads := Fields.reads_ofDate hwed date time (by decide) (by decide)
      exact ⟨hreads.day, hreads.month, hreads.year, hreads.hour, hreads.minute, hreads.second⟩
    · intro hstrict
      have hdash : '-' = ' ' := (List.cons.inj hstrict.separators).1
      exact absurd hdash (by decide)
  exact hloose.not_isExactAt (hexact _)

end Pcloud.HttpDate
