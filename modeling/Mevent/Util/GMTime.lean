import Mevent.Library.Calendar
import Mevent.Response.Framing

/-!
# `GetGMTimeStr`

The date of a response, as `gmtime_r` and `strftime` make it in the C locale, and how a
client reads it.
-/

namespace Mevent

open Library

/-- `%a`. -/
def dayNames : List Bytes :=
  ["Sun", "Mon", "Tue", "Wed", "Thu", "Fri", "Sat"].map fun name => ascii name.toList

/-- `%b`. -/
def monthNames : List Bytes :=
  ["Jan", "Feb", "Mar", "Apr", "May", "Jun", "Jul", "Aug", "Sep", "Oct", "Nov", "Dec"].map
    fun name => ascii name.toList

/-- `%d`, `%H`, `%M` and `%S`. -/
def twoDigits (number : Nat) : Bytes :=
  [UInt8.ofNat (48 + number / 10), UInt8.ofNat (48 + number % 10)]

def gmDate (time : Nat) : CivilDate := civilOfDays 1970 (time / 86400)

/-- `GetGMTimeStr` at a `time` from 1970 on, in seconds, the year of which an `int` holds. -/
def getGMTimeStr (time : Nat) : Bytes :=
  dayNames.getD ((time / 86400 + 4) % 7) [] ++ ascii ", ".toList ++
    twoDigits (gmDate time).day ++ [Request.space] ++ monthNames.getD (gmDate time).month [] ++
    [Request.space] ++ Response.toString (gmDate time).year ++ [Request.space] ++
    twoDigits (time / 3600 % 24) ++ ascii [':'] ++ twoDigits (time / 60 % 60) ++ ascii [':'] ++
    twoDigits (time % 60) ++ ascii " GMT".toList

example : getGMTimeStr 951782399 = ascii "Mon, 28 Feb 2000 23:59:59 GMT".toList := by
  decide +kernel

/-- The second of a day at the end of an HTTP date. -/
def readClock (text : Bytes) : Option Nat := do
  let hour ← Request.decimal (text.take 2)
  let minuteAndSecond ← (text.drop 2).dropPrefix? (ascii [':'])
  let minute ← Request.decimal (minuteAndSecond.take 2)
  let secondAndZone ← (minuteAndSecond.drop 2).dropPrefix? (ascii [':'])
  let second ← Request.decimal (secondAndZone.take 2)
  if hour < 24 ∧ minute < 60 ∧ second < 60 ∧ secondAndZone.drop 2 = ascii " GMT".toList then
    return hour * 3600 + minute * 60 + second
  else
    none

/-- The time that an HTTP date denotes.  The weekday has to be that of the date, every field has
to be in its range, and nothing may stand between the fields or behind them but what the format
has there. -/
def readGMTime (text : Bytes) : Option Nat := do
  let weekday ← dayNames.idxOf? (text.take 3)
  let date ← (text.drop 3).dropPrefix? (ascii ", ".toList)
  let day ← Request.decimal (date.take 2)
  let monthAndYear ← (date.drop 2).dropPrefix? [Request.space]
  let month ← monthNames.idxOf? (monthAndYear.take 3)
  let yearAndClock ← (monthAndYear.drop 3).dropPrefix? [Request.space]
  let year ← Request.decimal (yearAndClock.takeWhile (· ≠ Request.space))
  let clock ← (yearAndClock.dropWhile (· ≠ Request.space)).dropPrefix? [Request.space]
  let second ← readClock clock
  let civil : CivilDate := ⟨year, month, day⟩
  if civil.Valid ∧ 1970 ≤ year ∧ weekday = civil.weekday then
    return (dayNumber civil - daysBeforeYear 1970) * 86400 + second
  else
    none

/-- Every byte is a printable character, so that none can end a line. -/
def Printable (text : Bytes) : Prop := ∀ ch ∈ text, 32 ≤ ch ∧ ch < 127

instance (text : Bytes) : Decidable (Printable text) :=
  inferInstanceAs (Decidable (∀ ch ∈ text, 32 ≤ ch ∧ ch < 127))

section Fields

theorem dayNames_eq : dayNames =
    [[83, 117, 110], [77, 111, 110], [84, 117, 101], [87, 101, 100], [84, 104, 117], [70,
      114, 105], [83, 97, 116]] := by
  decide

theorem monthNames_eq : monthNames =
    [[74, 97, 110], [70, 101, 98], [77, 97, 114], [65, 112, 114], [77, 97, 121], [74, 117,
      110], [74, 117, 108], [65, 117, 103], [83, 101, 112], [79, 99, 116], [78, 111, 118],
      [68, 101, 99]] := by
  decide

theorem dayName_spec {index : Nat} (small : index < 7) :
    (dayNames.getD index []).length = 3 ∧ Printable (dayNames.getD index []) ∧
      dayNames.idxOf? (dayNames.getD index []) = some index := by
  rw [dayNames_eq]
  revert index
  decide +kernel

theorem monthName_spec {index : Nat} (small : index < 12) :
    (monthNames.getD index []).length = 3 ∧ Printable (monthNames.getD index []) ∧
      monthNames.idxOf? (monthNames.getD index []) = some index := by
  rw [monthNames_eq]
  revert index
  decide +kernel

theorem digit_spec {digit : Nat} (small : digit < 10) :
    Request.isNum (UInt8.ofNat (48 + digit)) = true ∧
      (UInt8.ofNat (48 + digit)).toNat - 48 = digit := by
  revert digit
  decide

theorem printable_of_isNum {text : Bytes} (digits : ∀ ch ∈ text, Request.isNum ch = true) :
    Printable text := by
  have all : ∀ ch : UInt8, Request.isNum ch = true → 32 ≤ ch ∧ ch < 127 := by decide +kernel
  exact fun ch member => all ch (digits ch member)

theorem isNum_of_mem_twoDigits {number : Nat} (small : number < 100) :
    ∀ ch ∈ twoDigits number, Request.isNum ch = true := by
  have tens := (digit_spec (show number / 10 < 10 by omega)).1
  have ones := (digit_spec (show number % 10 < 10 by omega)).1
  simp only [twoDigits, List.forall_mem_cons, tens, ones, List.not_mem_nil, false_implies,
    implies_true, and_true]

theorem decimal_twoDigits {number : Nat} (small : number < 100) :
    Request.decimal (twoDigits number) = some number := by
  have tens := (digit_spec (show number / 10 < 10 by omega)).2
  have ones := (digit_spec (show number % 10 < 10 by omega)).2
  rw [Request.decimal, if_pos ⟨List.cons_ne_nil _ _, isNum_of_mem_twoDigits small⟩]
  simp only [Request.number, twoDigits, List.foldl_cons, List.foldl_nil, tens, ones]
  exact congrArg some (by omega)

theorem day_lt {date : CivilDate} (valid : date.Valid) : date.day < 100 := by
  have short : ∀ length ∈ monthLengths date.year, length < 100 := by
    unfold monthLengths
    cases isLeap date.year <;> decide
  have listed : (monthLengths date.year).getD date.month 0 ∈ monthLengths date.year := by
    have inside : date.month < (monthLengths date.year).length := valid.month
    rw [List.getD_eq_getElem _ _ inside]
    exact List.getElem_mem inside
  exact valid.day.trans_lt (short _ listed)

end Fields

def clockText (time : Nat) : Bytes :=
  twoDigits (time / 3600 % 24) ++ (ascii [':'] ++ (twoDigits (time / 60 % 60) ++
    (ascii [':'] ++ (twoDigits (time % 60) ++ ascii " GMT".toList))))

theorem getGMTimeStr_eq (time : Nat) :
    getGMTimeStr time = dayNames.getD ((time / 86400 + 4) % 7) [] ++ (ascii ", ".toList ++
      (twoDigits (gmDate time).day ++ ([Request.space] ++ (monthNames.getD (gmDate time).month [] ++
        ([Request.space] ++ (Response.toString (gmDate time).year ++
          ([Request.space] ++ clockText time))))))) := by
  simp only [getGMTimeStr, clockText, List.append_assoc]

section Reading

variable (time : Nat)

theorem gmDate_spec :
    (gmDate time).Valid ∧ 1970 ≤ (gmDate time).year ∧
      dayNumber (gmDate time) = daysBeforeYear 1970 + time / 86400 :=
  civilOfDays_spec 1970 (time / 86400)

theorem weekday_gmDate : (gmDate time).weekday = (time / 86400 + 4) % 7 := by
  have epoch : daysBeforeYear 1970 = 719528 := by decide
  rw [CivilDate.weekday, (gmDate_spec time).2.2, epoch]
  omega

theorem take_twoDigits (number : Nat) (rest : Bytes) :
    (twoDigits number ++ rest).take 2 = twoDigits number := rfl

theorem drop_twoDigits (number : Nat) (rest : Bytes) :
    (twoDigits number ++ rest).drop 2 = rest := rfl

theorem dropPrefix?_append (front rest : Bytes) :
    (front ++ rest).dropPrefix? front = some rest :=
  List.dropPrefix?_append_of_beq rest (beq_self_eq_true front)

theorem year_spec (year : Nat) (rest : Bytes) :
    (Response.toString year ++ ([Request.space] ++ rest)).takeWhile (· ≠ Request.space) =
        Response.toString year ∧
      (Response.toString year ++ ([Request.space] ++ rest)).dropWhile (· ≠ Request.space) =
        [Request.space] ++ rest := by
  have digits : ∀ c ∈ Response.toString year, (decide (c ≠ Request.space)) = true := by
    intro c member
    refine decide_eq_true fun isSpace => ?_
    subst isSpace
    exact absurd (Response.isNum_of_mem_toString member) (by decide)
  rw [List.takeWhile_append_of_pos digits, List.dropWhile_append_of_pos digits]
  simp

end Reading

theorem readClock_clockText (time : Nat) :
    readClock (clockText time) =
      some (time / 3600 % 24 * 3600 + time / 60 % 60 * 60 + time % 60) := by
  have hour := decimal_twoDigits (show time / 3600 % 24 < 100 by omega)
  have minute := decimal_twoDigits (show time / 60 % 60 < 100 by omega)
  have second := decimal_twoDigits (show time % 60 < 100 by omega)
  have ranges : time / 3600 % 24 < 24 ∧ time / 60 % 60 < 60 ∧ time % 60 < 60 ∧
      ascii " GMT".toList = ascii " GMT".toList := ⟨by omega, by omega, by omega, rfl⟩
  simp only [readClock, Option.bind_eq_bind, Option.pure_def]
  rw [clockText, take_twoDigits, hour, Option.bind_some, drop_twoDigits, dropPrefix?_append,
    Option.bind_some, take_twoDigits, minute, Option.bind_some, drop_twoDigits,
    dropPrefix?_append, Option.bind_some, take_twoDigits, second, Option.bind_some,
    drop_twoDigits, if_pos ranges]

theorem readGMTime_getGMTimeStr (time : Nat) : readGMTime (getGMTimeStr time) = some time := by
  obtain ⟨valid, later, days⟩ := gmDate_spec time
  obtain ⟨dayLength, -, dayName⟩ := dayName_spec
    (Nat.mod_lt (time / 86400 + 4) (show 0 < 7 by decide))
  obtain ⟨monthLength, -, monthName⟩ := monthName_spec valid.month
  obtain ⟨year, clock⟩ := year_spec (gmDate time).year (clockText time)
  have ranges : (gmDate time).Valid ∧ 1970 ≤ (gmDate time).year ∧
      (time / 86400 + 4) % 7 = (gmDate time).weekday :=
    ⟨valid, later, (weekday_gmDate time).symm⟩
  have seconds : (dayNumber (gmDate time) - daysBeforeYear 1970) * 86400 +
      (time / 3600 % 24 * 3600 + time / 60 % 60 * 60 + time % 60) = time := by
    rw [days]
    omega
  simp only [readGMTime, Option.bind_eq_bind, Option.pure_def]
  rw [getGMTimeStr_eq, List.take_left' dayLength, dayName, Option.bind_some,
    List.drop_left' dayLength, dropPrefix?_append, Option.bind_some, take_twoDigits,
    decimal_twoDigits (day_lt valid), Option.bind_some, drop_twoDigits, dropPrefix?_append,
    Option.bind_some, List.take_left' monthLength, monthName, Option.bind_some,
    List.drop_left' monthLength, dropPrefix?_append, Option.bind_some, year,
    Response.decimal_toString, Option.bind_some, clock, dropPrefix?_append, Option.bind_some,
    readClock_clockText, Option.bind_some, if_pos ranges, seconds]

theorem printable_getGMTimeStr (time : Nat) : Printable (getGMTimeStr time) := by
  have valid := (gmDate_spec time).1
  have dayName := (dayName_spec (Nat.mod_lt (time / 86400 + 4) (show 0 < 7 by decide))).2.1
  have monthName := (monthName_spec valid.month).2.1
  have day := printable_of_isNum (isNum_of_mem_twoDigits (day_lt valid))
  have year := printable_of_isNum fun c member =>
    @Response.isNum_of_mem_toString (gmDate time).year c member
  have hour := printable_of_isNum
    (isNum_of_mem_twoDigits (show time / 3600 % 24 < 100 by omega))
  have minute := printable_of_isNum
    (isNum_of_mem_twoDigits (show time / 60 % 60 < 100 by omega))
  have second := printable_of_isNum (isNum_of_mem_twoDigits (show time % 60 < 100 by omega))
  have comma : Printable (ascii ", ".toList) := by decide +kernel
  have colon : Printable (ascii [':']) := by decide +kernel
  have zone : Printable (ascii " GMT".toList) := by decide +kernel
  have gap : Printable [Request.space] := by decide +kernel
  simp only [Printable, getGMTimeStr, List.forall_mem_append]
  exact ⟨⟨⟨⟨⟨⟨⟨⟨⟨⟨⟨⟨⟨dayName, comma⟩, day⟩, gap⟩, monthName⟩, gap⟩, year⟩, gap⟩, hour⟩, colon⟩,
    minute⟩, colon⟩, second⟩, zone⟩

/-- No byte of the string is a carriage return. -/
theorem clean_getGMTimeStr (time : Nat) : Response.Clean (getGMTimeStr time) := by
  intro inside
  have carriageReturn : (13 : UInt8) ∈ getGMTimeStr time := inside.subset (by decide)
  exact absurd (printable_getGMTimeStr time 13 carriageReturn) (by decide)

theorem length_getGMTimeStr (time : Nat) :
    (getGMTimeStr time).length = 25 + (Response.toString (gmDate time).year).length := by
  have dayName := (dayName_spec (Nat.mod_lt (time / 86400 + 4) (show 0 < 7 by decide))).1
  have monthName := (monthName_spec (gmDate_spec time).1.month).1
  simp only [getGMTimeStr_eq, clockText, List.length_append, dayName, monthName, twoDigits, ascii,
    List.length_map]
  simp
  omega

/-- For every time from 1970 on, the year of which fits into `tm_year`, the string of
`GetGMTimeStr` is read back as that time, it has no byte that could end a line, its length
depends on the digits of the year alone, and it fits into `buf`. -/
theorem getGMTimeStr_reads_back (time : Nat) (fits : (gmDate time).year < 2 ^ 31 + 1900) :
    readGMTime (getGMTimeStr time) = some time ∧ Printable (getGMTimeStr time) ∧
      (getGMTimeStr time).length = 25 + (Response.toString (gmDate time).year).length ∧
      (getGMTimeStr time).length < 128 := by
  have short : (Response.toString (gmDate time).year).length ≤ 10 := by
    rw [Response.toString, ascii, List.length_map,
      Nat.length_toDigits_le_iff (by decide) (by decide)]
    omega
  have length := length_getGMTimeStr time
  exact ⟨readGMTime_getGMTimeStr time, printable_getGMTimeStr time, length, by omega⟩

/-- The last second of a 28 February. -/
theorem getGMTimeStr_reads_back_2000 :
    readGMTime (getGMTimeStr 951782399) = some 951782399 ∧
      Printable (getGMTimeStr 951782399) ∧
      (getGMTimeStr 951782399).length =
        25 + (Response.toString (gmDate 951782399).year).length ∧
      (getGMTimeStr 951782399).length < 128 :=
  getGMTimeStr_reads_back 951782399 (by decide +kernel)

end Mevent
