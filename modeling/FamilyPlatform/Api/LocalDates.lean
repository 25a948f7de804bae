import FamilyPlatform.Api.TaskAnswers
import FamilyPlatform.Tasks.Reload

/-! The dates of the years 1 to 9999, counted and written. `Date.UTC` takes the years of the
first century for others; neither the counts nor the texts show it. -/
namespace FamilyPlatform.LocalDates
open ZonedTime RecurrenceRule Civil
open Tasks (parseLocalDate)
open TaskApi (formatLocalDate)

structure Common (d : LocalDate) : Prop where
  since : 1 ≤ d.year
  till : d.year ≤ 9999
  real : d.Real

instance (d : LocalDate) : Decidable (Common d) :=
  decidable_of_iff (1 ≤ d.year ∧ d.year ≤ 9999 ∧ d.Real)
    ⟨fun ⟨since,till,real⟩ => ⟨since,till,real⟩,fun common => ⟨common.since,common.till,common.real⟩⟩

theorem commonBounds {d : LocalDate} (common : Common d) : earliest ≤ d.number ∧ d.number < latest - 400 := by
  obtain ⟨since,till,real⟩ := common
  obtain ⟨low,high⟩ := realOffset real
  have first := yearStartMono since
  have last := yearStartMono (show d.year + 1 ≤ 10000 by omega)
  have : yearStart 1 = -719162 := by decide
  have : yearStart 10000 = 2932897 := by decide
  unfold earliest latest
  omega

theorem toEpochDayCommon {d : LocalDate} (common : Common d) : toEpochDay d = some d.number := by
  obtain ⟨low,high⟩ := commonBounds common
  exact toEpochDayReal common.real low (by omega)

theorem fromEpochDayCommon {d : LocalDate} (common : Common d) : fromEpochDay d.number = some d := by
  obtain ⟨low,high⟩ := commonBounds common
  rw [fromEpochDayReal (by unfold earliest latest at *; omega) (by omega),dateOfNumber common.real]

theorem followingDay {d : LocalDate} (common : Common d) : toEpochDay d.following = some (d.number + 1) := by
  obtain ⟨low,high⟩ := commonBounds common
  have next := followingNumber common.real
  rw [← next]
  exact toEpochDayReal (followingReal common.real) (by omega) (by omega)

theorem fromEpochDaySource {n : Int} {d : LocalDate} (made : fromEpochDay n = some d) : d.Real ∧ d.number = n := by
  obtain ⟨ms,clipped,rfl⟩ := Option.map_eq_some_iff.mp made
  have is : ms = n * msPerDay := by
    unfold timeClip at clipped
    split at clipped
    · exact (Option.some.inj clipped).symm
    · cases clipped
  rw [utcDate,is,Int.mul_ediv_cancel n (by decide)]
  exact ⟨dateOfReal n,numberOfDate n⟩

theorem addDaysCommon {d x : LocalDate} {m n : Int} (common : Common d) (sum : addDays d m = some x)
    (since : 1 ≤ x.year) (till : x.year ≤ 9999) : addDays d (m + n) = addDays x n := by
  simp only [addDays,toEpochDayCommon common,bind,Option.bind_some] at sum
  obtain ⟨real,number⟩ := fromEpochDaySource sum
  simp only [addDays,toEpochDayCommon common,toEpochDayCommon ⟨since,till,real⟩,bind,Option.bind_some,number,
    Int.add_assoc]

theorem daysInMonthCommon {year month : Int} (since : 1 ≤ year) (till : year ≤ 9999) (low : 1 ≤ month)
    (high : month ≤ 12) : daysInMonth year month = some (monthLength year month) := by
  have last : Common ⟨year,month,monthLength year month⟩ := ⟨since,till,lastDayReal year low high⟩
  have := (commonBounds last).2
  exact daysInMonthReal since low high (show Date.number ⟨year,month,monthLength year month⟩ ≤ latest by omega)

theorem parseDigits {value : String} {date : LocalDate} (read : parseLocalDate value = some date) :
    ∃ ys ms ds : List Char, value.toList = ys ++ '-' :: (ms ++ '-' :: ds) ∧ Reads ys 4 date.year ∧
      Reads ms 2 date.month ∧ Reads ds 2 date.day ∧ UntilDate date := by
  have valid := Tasks.parseLocalDateSource read
  unfold parseLocalDate at read
  split at read
  · rename_i y1 y2 y3 y4 m1 m2 d1 d2 text
    have all : [y1,y2,y3,y4,m1,m2,d1,d2].all isDigit = true ∧
        date = ⟨digitsValue [y1,y2,y3,y4],digitsValue [m1,m2],digitsValue [d1,d2]⟩ := by
      simp only at read
      split at read
      · cases read
      rename_i digits
      rw [Bool.not_eq_true,Bool.not_eq_false'] at digits
      split at read
      · cases read
      · split at read
        · split at read <;> cases read
          exact ⟨digits,rfl⟩
        · cases read
          exact ⟨digits,rfl⟩
    obtain ⟨digits,rfl⟩ := all
    simp only [List.all_cons,Bool.and_eq_true] at digits
    obtain ⟨a,b,c,d,e,f,g,h,-⟩ := digits
    exact ⟨[y1,y2,y3,y4],[m1,m2],[d1,d2],text,⟨rfl,by simp [a,b,c,d],rfl⟩,⟨rfl,by simp [e,f],rfl⟩,
      ⟨rfl,by simp [g,h],rfl⟩,valid⟩
  · cases read

theorem readsPadded {cs : List Char} {width : Nat} {n : Int} (positive : 0 < width) (reads : Reads cs width n) :
    (padded n width).toList = cs := by
  obtain ⟨length,digits,value⟩ := reads
  obtain ⟨low,high⟩ := digitsBounds digits
  rw [value] at low high
  rw [length] at high
  obtain ⟨length',digits',value'⟩ := paddedReads low (by exact_mod_cast high) positive
  exact digitsUnique (length'.trans length.symm) digits' digits (value'.trans value.symm)

theorem formatDigits (date : LocalDate) : (formatLocalDate date).toList =
    (padded date.year 4).toList ++ '-' :: ((padded date.month 2).toList ++ '-' :: (padded date.day 2).toList) := by
  simp [formatLocalDate]

theorem formatParsed {value : String} {date : LocalDate} (read : parseLocalDate value = some date) :
    formatLocalDate date = value := by
  obtain ⟨ys,ms,ds,text,year,month,day,-⟩ := parseDigits read
  refine String.toList_inj.mp ?_
  rw [formatDigits,text,readsPadded (by decide) year,readsPadded (by decide) month,readsPadded (by decide) day]

theorem parseFormatted {date : LocalDate} (common : Common date) : parseLocalDate (formatLocalDate date) = some date := by
  obtain ⟨since,till,real⟩ := common
  obtain ⟨low,high,first,last⟩ := real
  have long := monthLengthBounds date.year date.month
  have year := paddedReads (show 0 ≤ date.year by omega) (show date.year < 10 ^ 4 by omega) (by decide)
  have month := paddedReads (show 0 ≤ date.month by omega) (show date.month < 10 ^ 2 by omega) (by decide)
  have day := paddedReads (show 0 ≤ date.day by omega) (show date.day < 10 ^ 2 by omega) (by decide)
  have text := formatDigits date
  generalize (padded date.year 4).toList = ys at year text
  generalize (padded date.month 2).toList = ms at month text
  generalize (padded date.day 2).toList = ds at day text
  obtain ⟨y1,y2,y3,y4,rfl⟩ := List.length_eq_four.mp year.length
  obtain ⟨m1,m2,rfl⟩ := List.length_eq_two.mp month.length
  obtain ⟨d1,d2,rfl⟩ := List.length_eq_two.mp day.length
  have digits : [y1,y2,y3,y4,m1,m2,d1,d2].all isDigit = true := by
    have all := And.intro year.digits (And.intro month.digits day.digits)
    simpa [List.all_cons,and_assoc] using all
  have bounds : ¬ (decide (date.month < 1) || decide (12 < date.month) || decide (date.day < 1)) = true := by
    simp only [Bool.or_eq_true,decide_eq_true_eq]
    omega
  simp only [parseLocalDate,text,List.cons_append,List.nil_append,year.value,month.value,day.value,digits,
    Bool.not_true,Bool.false_eq_true,if_false,daysInMonthCommon since till low high]
  rw [if_neg bounds,if_neg (Int.not_lt.mpr last)]

theorem parsedCommon {value : String} {date : LocalDate} (read : parseLocalDate value = some date)
    (since : 1 ≤ date.year) : Common date := by
  obtain ⟨-,-,-,-,-,-,-,valid⟩ := parseDigits read
  exact ⟨since,valid.year.2,valid.month.1,valid.month.2,valid.first,
    valid.last _ (daysInMonthCommon since valid.year.2 valid.month.1 valid.month.2)⟩

/-- For the years 1 to 9999: days are counted one by one and in the order of the calendar, and
a count leads back to its date; sums of days add up; a month has the days that are real dates;
and the texts that are accepted are those of the real dates, each read as the date it is of. -/
theorem calendarLaws :
    (∀ d, Common d → toEpochDay d = some d.number ∧ (toEpochDay d).bind fromEpochDay = some d ∧
      toEpochDay d.following = (toEpochDay d).map (· + 1)) ∧
    (∀ a b m n, Common a → Common b → toEpochDay a = some m → toEpochDay b = some n → (m < n ↔ a.Earlier b)) ∧
    (∀ d x m n, Common d → addDays d m = some x → 1 ≤ x.year → x.year ≤ 9999 → addDays d (m + n) = addDays x n) ∧
    (∀ year month day, 1 ≤ year → year ≤ 9999 → 1 ≤ month → month ≤ 12 → ∃ last, daysInMonth year month = some last ∧
      (Date.Real ⟨year,month,day⟩ ↔ 1 ≤ day ∧ day ≤ last)) ∧
    (∀ value d, (parseLocalDate value = some d ∧ 1 ≤ d.year) ↔ (Common d ∧ value = formatLocalDate d)) ∧
    ∀ value d, parseLocalDate value = some d → formatLocalDate d = value := by
  refine ⟨fun d common => ?_,fun a b m n left right first second => ?_,fun d x m n => addDaysCommon,
    fun year month day since till low high => ?_,fun value d => ⟨fun ⟨read,since⟩ => ?_,?_⟩,fun value d => formatParsed⟩
  · rw [toEpochDayCommon common,followingDay common]
    exact ⟨rfl,fromEpochDayCommon common,rfl⟩
  · obtain rfl := Option.some.inj ((toEpochDayCommon left).symm.trans first)
    obtain rfl := Option.some.inj ((toEpochDayCommon right).symm.trans second)
    exact numberEarlier left.real right.real
  · refine ⟨_,daysInMonthCommon since till low high,fun real => real.2.2,fun inside => ⟨low,high,inside⟩⟩
  · exact ⟨parsedCommon read since,(formatParsed read).symm⟩
  · rintro ⟨common,rfl⟩
    exact ⟨parseFormatted common,common.since⟩

/- The last day of the year 99, which `Date.UTC` takes for one of 1999. -/
theorem centuryTurns :
    (toEpochDay ⟨99,12,31⟩).bind fromEpochDay = some ⟨99,12,31⟩ ∧
    addDays ⟨99,12,31⟩ (1 + 59) = addDays ⟨100,1,1⟩ 59 ∧
    parseLocalDate "0099-12-31" = some ⟨99,12,31⟩ ∧ formatLocalDate ⟨99,12,31⟩ = "0099-12-31" := by
  obtain ⟨days,-,sums,-,texts,written⟩ := calendarLaws
  have read := (texts "0099-12-31" ⟨99,12,31⟩).mpr ⟨by decide,by decide +kernel⟩
  exact ⟨(days _ (by decide)).2.1,sums _ _ _ _ (by decide) (by decide +kernel) (by decide) (by decide),read.1,
    written _ _ read.1⟩

end FamilyPlatform.LocalDates
