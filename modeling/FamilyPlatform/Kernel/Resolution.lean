import FamilyPlatform.Kernel.Readings

/-! A reading resolves to an instant by the offsets of its zone, in whole seconds. From
there come the order of instants and their distance from what is read at them. -/
namespace FamilyPlatform.ZonedTime
open Civil Offsets

theorem earlyNotLeapDay {day : Int} (low : earliest ≤ day) : day ≠ leapDay := by
  unfold earliest at low
  unfold leapDay
  omega

theorem localAsUtcMsSource {l : LocalDateTime} {ms : Int} (real : l.toDate.Real) (clock : LocalDateTime.Clock l)
    (low : earliest ≤ l.toDate.number) (found : localAsUtcMs l = some ms) :
    ms = secondOf l * 1000 ∧ secondOf l * 1000 ≤ latest * msPerDay := by
  rw [localAsUtcMsSecond real clock (earlyNotLeapDay low)] at found
  exact ⟨timeClipSource found,(timeClipRange found).2⟩

theorem toEpochDaySource {d : LocalDate} {n : Int} (real : d.Real) (low : earliest ≤ d.number)
    (found : toEpochDay d = some n) : n = d.number ∧ d.number ≤ latest := by
  obtain ⟨ms,source,rfl⟩ := Option.map_eq_some_iff.mp found
  have clock : LocalDateTime.Clock (atTime d 0 0 0) := by simp [LocalDateTime.Clock,atTime]
  obtain ⟨rfl,high⟩ := localAsUtcMsSource (l := atTime d 0 0 0) real clock low source
  have second : secondOf (atTime d 0 0 0) = d.number * 86400 := by simp [secondOf,atTime]
  rw [second] at high ⊢
  unfold msPerDay latest at *
  omega

theorem localAsUtcMsEarly {l : LocalDateTime} {ms : Int} (real : l.toDate.Real) (clock : LocalDateTime.Clock l)
    (early : l.toDate.number < -719162) (found : localAsUtcMs l = some ms) : ms < -719162 * msPerDay := by
  have one : yearStart 1 = -719162 := by decide
  have zero : yearStart 0 = -719528 := by decide
  obtain ⟨since,till⟩ := realOffset real
  have year : l.year ≤ 0 := by
    by_contra after
    have := yearStartMono (show 1 ≤ l.year by omega)
    omega
  obtain ⟨low,high⟩ := clockBounds clock
  have sum : ∀ n : Int, n * msPerDay + l.hour * 3600000 + l.minute * 60000 + l.second * 1000 =
      n * msPerDay + clockMs l := by
    intro n
    unfold clockMs
    omega
  simp only [localAsUtcMs,dateUtc,bind,Option.bind_eq_some_iff,makeDayReal _ real.1 real.2.1,sum] at found
  obtain ⟨utc,clip,full⟩ := found
  rw [timeClipSource clip] at full
  by_cases first : 0 ≤ l.year
  · rw [if_pos (by omega),if_pos (by omega)] at full
    -- The year 0 with a month and a day of the year 1900.
    obtain ⟨date,is⟩ : ∃ date, dateOf ((dayNumber (1900 + l.year) l.month l.day * msPerDay + clockMs l) / msPerDay) = date :=
      ⟨_,rfl⟩
    obtain ⟨firstMonth,lastMonth,firstDay,lastDay⟩ := is ▸ dateOfReal _
    simp only [setUtcFullYear,is,makeDayReal _ firstMonth lastMonth] at full
    have most : monthLength date.year date.month ≤ monthLength 0 date.month := by
      cases leap' : leap date.year <;> simp [monthLength,leap',show leap 0 = true by decide]
      split <;> omega
    obtain ⟨-,before⟩ := @realOffset ⟨0,date.month,date.day⟩ ⟨firstMonth,lastMonth,firstDay,le_trans lastDay most⟩
    simp only [Date.number,Int.zero_add] at before
    rw [timeClipSource full,show l.year = 0 by omega]
    unfold msPerDay
    omega
  · rw [if_neg (by omega),if_neg (by omega)] at full
    cases full
    simp only [Date.number] at early
    unfold msPerDay at *
    omega

theorem toEpochDayEarly {d : LocalDate} {n : Int} (real : d.Real) (early : d.number < -719162)
    (found : toEpochDay d = some n) : n < -719162 := by
  obtain ⟨ms,source,rfl⟩ := Option.map_eq_some_iff.mp found
  have := localAsUtcMsEarly (l := atTime d 0 0 0) real (by simp [LocalDateTime.Clock,atTime]) early source
  unfold msPerDay at *
  omega

theorem toEpochDayAny {d : LocalDate} {n : Int} (real : d.Real) (found : toEpochDay d = some n)
    (since : -719162 ≤ n) : n = d.number := by
  by_cases early : d.number < -719162
  · have := toEpochDayEarly real early found
    omega
  · exact (toEpochDaySource real (by unfold earliest; omega) found).1

variable {zone : Zone}

theorem instantToLocalSource {i : Int} {l : LocalDateTime} (found : instantToLocal zone i = some l) :
    l = readingOf (i / 1000 + zone.offsetAt (i / 1000)) := Anywhere.instantToLocalSource found

theorem instantToLocalReal {i : Int} {l : LocalDateTime} (found : instantToLocal zone i = some l) :
    l.toDate.Real ∧ LocalDateTime.Clock l := by
  rw [instantToLocalSource found]
  exact readingOfReal _

theorem localToInstantSource {reading : LocalDateTime} {i : Int} (real : reading.toDate.Real)
    (clock : LocalDateTime.Clock reading) (low : -719170 ≤ reading.toDate.number)
    (found : localToInstant zone reading = some i) :
    i = resolve zone.offsetAt 86400 (secondOf reading) * 1000 :=
  Anywhere.localToInstantSource zone.steady.apart real clock (.inr (by unfold leapDay; omega)) found

theorem midnightDate {reading : LocalDateTime} {i : Int} (real : reading.toDate.Real) (clock : LocalDateTime.Clock reading)
    (midnight : clockMs reading = 0) (low : -719170 ≤ reading.toDate.number)
    (found : localToInstant zone reading = some i) :
    (instantToLocal zone i).map LocalDateTime.toDate = some reading.toDate := by
  have away : Away reading.toDate.number := .inr (by unfold leapDay; omega)
  have read := Anywhere.candidatesInside zone.steady.apart real clock away found (resolveCases _)
  have second : secondOf reading = reading.toDate.number * 86400 := by
    unfold clockMs at midnight
    unfold secondOf
    omega
  obtain ⟨since,till⟩ := zone.steady.resolveOn (secondOf reading)
  rw [localToInstantSource real clock low found,← Anywhere.instantToLocalZone] at *
  rw [read,Option.map_some,(dateOfReading real).mpr (by omega)]

theorem localToInstantReads {reading : LocalDateTime} {i : Int} (found : localToInstant zone reading = some i) :
    ∃ ms, localAsUtcMs reading = some ms := by
  simp only [localToInstant,bind,Option.bind_eq_some_iff] at found
  obtain ⟨pivot,utc,-⟩ := found
  exact ⟨pivot,utc⟩

theorem instantsIncrease {a b : LocalDateTime} {i j : Int} (realA : a.toDate.Real) (realB : b.toDate.Real)
    (clockA : LocalDateTime.Clock a) (clockB : LocalDateTime.Clock b) (low : -719170 ≤ a.toDate.number)
    (less : a.toDate.number < b.toDate.number) (clock : clockMs a = clockMs b)
    (first : localToInstant zone a = some i) (second : localToInstant zone b = some j) : i < j := by
  rw [localToInstantSource realA clockA low first,localToInstantSource realB clockB (by omega) second]
  have apart : secondOf b = secondOf a + ((b.toDate.number - a.toDate.number).toNat : Int) * 86400 := by
    unfold secondOf clockMs at *
    omega
  have := zone.steady.resolveMono (show 0 < (b.toDate.number - a.toDate.number).toNat by omega) apart
  omega

theorem resolvedAfter {reading l : LocalDateTime} {i stop : Int} (real : reading.toDate.Real)
    (clock : LocalDateTime.Clock reading) (low : -719170 ≤ reading.toDate.number)
    (found : localToInstant zone reading = some i) (read : instantToLocal zone stop = some l)
    (later : l.toDate.number + 2 ≤ reading.toDate.number) : stop ≤ i := by
  have at_ := congrArg (fun l : LocalDateTime => l.toDate.number) (instantToLocalSource read)
  simp only [readingOfDay] at at_
  have day := secondDay clock
  have := zone.steady.resolveAfter (show stop / 1000 + zone.offsetAt (stop / 1000) + 86400 ≤ secondOf reading by omega)
  rw [localToInstantSource real clock low found]
  omega

theorem resolvedBefore {reading l : LocalDateTime} {i start : Int} (real : reading.toDate.Real)
    (clock : LocalDateTime.Clock reading) (low : -719170 ≤ reading.toDate.number)
    (found : localToInstant zone reading = some i) (read : instantToLocal zone start = some l)
    (earlier : reading.toDate.number + 3 ≤ l.toDate.number) : i < start := by
  have at_ := congrArg (fun l : LocalDateTime => l.toDate.number) (instantToLocalSource read)
  simp only [readingOfDay] at at_
  have day := secondDay clock
  have := zone.steady.bounded (start / 1000)
  have := (zone.steady.apart.resolveBounds (secondOf reading)).2
  rw [localToInstantSource real clock low found]
  omega

theorem offsetMsAtReal {s : Int} (low : earliest * 86400 + 54000 ≤ s) (high : s ≤ latest * 86400)
    (inside : s + zone.offsetAt s ≤ latest * 86400) : offsetMsAt zone (s * 1000) = some (zone.offsetAt s * 1000) := by
  have bounds := zone.steady.bounded s
  exact Anywhere.offsetMsAtReal (by unfold earliest latest at *; omega) high (by unfold earliest latest at *; omega) inside
    (earlyNotLeapDay (by omega))

/- Where an offset is told, the reading there is inside the range. -/
theorem readInside {s ms : Int} (low : -719170 * 86400 ≤ s) (told : offsetMsAt zone (s * 1000) = some ms) :
    s + zone.offsetAt s ≤ latest * 86400 := by
  simp only [offsetMsAt,bind,Option.bind_eq_some_iff] at told
  obtain ⟨reading,read,utc,asUtc,-⟩ := told
  have whole : s * 1000 / 1000 = s := by omega
  have is := instantToLocalSource read
  rw [whole,whole] at is
  obtain ⟨real,clock⟩ := readingOfReal (s + zone.offsetAt s)
  have bounds := zone.steady.bounded s
  have inside := (localAsUtcMsSource (is ▸ real) (is ▸ clock)
    (by rw [is,readingOfDay]; unfold earliest; omega) asUtc).2
  rw [is,secondOfReading] at inside
  unfold latest msPerDay at *
  omega

theorem localToInstantEarlier {a b : LocalDateTime} {j : Int} (realA : a.toDate.Real) (realB : b.toDate.Real)
    (clockA : LocalDateTime.Clock a) (clockB : LocalDateTime.Clock b) (low : -719170 ≤ a.toDate.number)
    (less : a.toDate.number < b.toDate.number) (clock : clockMs a = clockMs b)
    (later : localToInstant zone b = some j) : ∃ i, localToInstant zone a = some i := by
  simp only [localToInstant,bind,Option.bind_eq_some_iff] at later
  obtain ⟨pivot,utc,before,-,after,offsetAfter,-⟩ := later
  obtain ⟨rfl,high⟩ := localAsUtcMsSource realB clockB (by unfold earliest; omega) utc
  have late : secondOf b * 1000 + msPerDay = (secondOf b + 86400) * 1000 := by unfold msPerDay; omega
  rw [late] at offsetAfter
  have dayA := secondDay clockA
  have apart : secondOf a + 86400 ≤ secondOf b := by
    unfold secondOf clockMs at *
    omega
  have last := readInside (by omega) offsetAfter
  have boundBefore := zone.steady.bounded (secondOf a - 86400)
  have boundAfter := zone.steady.bounded (secondOf a + 86400)
  have boundLast := zone.steady.bounded (secondOf b + 86400)
  have highB : secondOf b ≤ latest * 86400 := by unfold latest msPerDay at *; omega
  have insideAfter : secondOf a + 86400 + zone.offsetAt (secondOf a + 86400) ≤ latest * 86400 := by
    by_cases close : secondOf b ≤ secondOf a + 86400
    · have same : secondOf a + 86400 = secondOf b := by omega
      have near := zone.steady.near (show secondOf b ≤ secondOf b + 86400 by omega) (by omega)
      rw [same]
      omega
    · have : secondOf a + 2 * 86400 ≤ secondOf b := by
        unfold secondOf clockMs at *
        omega
      omega
  have pivotA := localAsUtcMsReal realA clockA (by unfold earliest; omega)
    (by rw [secondMs]; unfold latest msPerDay at *; omega)
  rw [secondMs] at pivotA
  have early : secondOf a * 1000 - msPerDay = (secondOf a - 86400) * 1000 := by unfold msPerDay; omega
  have late' : secondOf a * 1000 + msPerDay = (secondOf a + 86400) * 1000 := by unfold msPerDay; omega
  have reads : ∀ shift : Int, -54000 ≤ shift → shift ≤ 54000 →
      ∃ l, instantToLocal zone (secondOf a * 1000 - shift * 1000) = some l := by
    intro shift least most
    have is : secondOf a * 1000 - shift * 1000 = (secondOf a - shift) * 1000 := by omega
    exact ⟨_,by rw [is]; exact Anywhere.instantToLocalSecond (by unfold latest; omega) (by omega)⟩
  obtain ⟨readsFirst,first⟩ := reads _ boundBefore.1 boundBefore.2
  obtain ⟨readsSecond,second⟩ := reads _ boundAfter.1 boundAfter.2
  simp only [localToInstant,pivotA,early,late',bind,Option.bind_some,
    @offsetMsAtReal zone (secondOf a - 86400) (by unfold earliest; omega) (by omega) (by omega),
    @offsetMsAtReal zone (secondOf a + 86400) (by unfold earliest; omega) (by omega) insideAfter,first,second]
  split <;> exact ⟨_,rfl⟩
/- `Date.UTC` on the years of four digits, of which it takes 0 to 99 for 1900 to 1999. -/

def fullYear (year : Int) : Int := if 0 ≤ year ∧ year ≤ 99 then 1900 + year else year

theorem fullYearBounds {year : Int} (low : 0 ≤ year) (high : year ≤ 9999) :
    100 ≤ fullYear year ∧ fullYear year ≤ 9999 := by
  unfold fullYear
  split <;> omega

theorem fullYearSame {year : Int} (low : 0 ≤ year) : fullYear year = year ↔ 100 ≤ year := by
  unfold fullYear
  split <;> omega

theorem yearsWithin {d : LocalDate} (real : d.Real) (low : 0 ≤ d.year) (high : d.year ≤ 9999) :
    -719528 ≤ d.number ∧ d.number ≤ 2932896 := by
  obtain ⟨since,till⟩ := realOffset real
  have := yearStartMono low
  have := yearStartMono (show d.year + 1 ≤ 10000 by omega)
  have : yearStart 0 = -719528 := by decide
  have : yearStart 10000 = 2932897 := by decide
  omega

theorem dateUtcFull {l : LocalDateTime} (low : 0 ≤ l.year) (high : l.year ≤ 9999)
    (real : Date.Real ⟨fullYear l.year,l.month,l.day⟩) (clock : LocalDateTime.Clock l) :
    dateUtc l.year l.month l.day l.hour l.minute l.second =
      some (dayNumber (fullYear l.year) l.month l.day * msPerDay + clockMs l) := by
  have bounds := fullYearBounds low high
  have within := yearsWithin real (show 0 ≤ fullYear l.year by omega) bounds.2
  have long := clockBounds clock
  simp only [Date.number] at within
  have sum : dayNumber (fullYear l.year) l.month l.day * msPerDay + l.hour * 3600000 + l.minute * 60000 +
      l.second * 1000 = dayNumber (fullYear l.year) l.month l.day * msPerDay + clockMs l := by
    unfold clockMs
    omega
  change timeClip (makeDay (fullYear l.year) l.month l.day * msPerDay + _ + _ + _) = _
  rw [makeDayReal _ real.1 real.2.1,sum]
  refine timeClipSome ?_ ?_ <;> unfold latest msPerDay at * <;> omega

theorem daysInMonthFull {year month : Int} (low : 0 ≤ year) (high : year ≤ 9999) (first : 1 ≤ month)
    (last : month ≤ 12) : daysInMonth year month = some (monthLength (fullYear year) month) := by
  have bounds := fullYearBounds low high
  have real := lastDayReal (fullYear year) first last
  have within := yearsWithin real (show 0 ≤ fullYear year by omega) bounds.2
  simp only [Date.number] at within
  have date := dateOfNumber real
  simp only [Date.number] at date
  change (timeClip (makeDay (fullYear year) (month + 1) 0 * msPerDay + 0 * 3600000 + 0 * 60000 + 0 * 1000)).map
    (fun ms => (utcDate ms).day) = _
  rw [makeDayLast (fullYear year) first last,timeClipSome (by unfold latest msPerDay; omega)
    (by unfold latest msPerDay; omega)]
  simp only [Int.zero_mul,Int.add_zero,Option.map_some,utcDate]
  rw [Int.mul_ediv_cancel _ (by decide),date]

structure Moderate (l : LocalDateTime) : Prop where
  real : l.toDate.Real
  clock : LocalDateTime.Clock l
  low : -1000000 ≤ l.toDate.number
  high : l.toDate.number ≤ 5000000

theorem makeDayModerate {year month day ms : Int} (first : 1 ≤ month) (last : month ≤ 12)
    (low : -50000000 ≤ dayNumber year month day) (high : dayNumber year month day ≤ 50000000)
    (positive : 0 ≤ ms) (within : ms < msPerDay) :
    timeClip (makeDay year month day * msPerDay + ms) = some (dayNumber year month day * msPerDay + ms) := by
  rw [makeDayReal day first last]
  exact timeClipSome (by unfold latest msPerDay at *; omega) (by unfold latest msPerDay at *; omega)

theorem dayNumberModerate {year month day : Int} (early : 0 ≤ year) (late : year ≤ 1999) (first : 1 ≤ month)
    (last : month ≤ 12) (positive : 1 ≤ day) (short : day ≤ 31) :
    -720000 ≤ dayNumber year month day ∧ dayNumber year month day ≤ 12000 := by
  have start := yearStartMono early
  have stop := yearStartMono late
  have : yearStart 0 = -719528 := by decide
  have : yearStart 1999 = 10592 := by decide
  have months : -2 ≤ beforeMonth year month ∧ beforeMonth year month ≤ 366 := by
    unfold beforeMonth
    split
    · omega
    · split <;> omega
  unfold dayNumber
  omega

theorem localAsUtcMsModerate {l : LocalDateTime} (moderate : Moderate l) :
    ∃ ms, localAsUtcMs l = some ms ∧ min l.toDate.number (-720000) * msPerDay ≤ ms ∧
      ms ≤ (max l.toDate.number 12000 + 1) * msPerDay := by
  obtain ⟨real,clock,low,high⟩ := moderate
  have time := clockBounds clock
  have day : l.day ≤ 31 := le_trans real.2.2.2 (monthLengthBounds _ _).2
  have sum : ∀ n : Int, n * msPerDay + l.hour * 3600000 + l.minute * 60000 + l.second * 1000 =
      n * msPerDay + clockMs l := by
    intro n
    unfold clockMs
    omega
  have whole : (0 : Int) < msPerDay := by decide
  simp only [localAsUtcMs,dateUtc,sum]
  by_cases century : 0 ≤ l.year ∧ l.year ≤ 99
  · obtain ⟨start,stop⟩ := @dayNumberModerate (1900 + l.year) _ _ (by omega) (by omega) real.1 real.2.1 real.2.2.1 day
    rw [if_pos century,makeDayModerate real.1 real.2.1 (by omega) (by omega) time.1 (by omega),Option.bind_eq_bind,
      Option.bind_some,if_pos (by omega)]
    obtain ⟨date,is⟩ : ∃ date, dateOf ((dayNumber (1900 + l.year) l.month l.day * msPerDay + clockMs l) / msPerDay) =
      date := ⟨_,rfl⟩
    obtain ⟨firstMonth,lastMonth,firstDay,lastDay⟩ := is ▸ dateOfReal _
    obtain ⟨start',stop'⟩ := @dayNumberModerate l.year _ _ century.1 (by omega) firstMonth lastMonth firstDay
      (le_trans lastDay (monthLengthBounds _ _).2)
    simp only [setUtcFullYear,is]
    have rest := Int.emod_nonneg (dayNumber (1900 + l.year) l.month l.day * msPerDay + clockMs l)
      (show msPerDay ≠ 0 by decide)
    have within := Int.emod_lt_of_pos (dayNumber (1900 + l.year) l.month l.day * msPerDay + clockMs l) whole
    refine ⟨_,makeDayModerate firstMonth lastMonth (by omega) (by omega) rest within,?_⟩
    unfold msPerDay at rest within ⊢
    omega
  · simp only [Date.number] at low high
    rw [if_neg century,makeDayModerate real.1 real.2.1 (by omega) (by omega) time.1 (by omega),Option.bind_eq_bind,
      Option.bind_some,if_neg (by omega)]
    refine ⟨_,rfl,?_⟩
    unfold msPerDay at time ⊢
    simp only [Date.number]
    omega

theorem readingModerate {n : Int} (low : -1000000 * 86400 ≤ n) (high : n ≤ 5000000 * 86400) : Moderate (readingOf n) := by
  obtain ⟨real,clock⟩ := readingOfReal n
  exact ⟨real,clock,by rw [readingOfDay]; omega,by rw [readingOfDay]; omega⟩

theorem offsetMsAtModerate {i : Int} (low : -900000 * msPerDay ≤ i) (high : i ≤ 4900000 * msPerDay) :
    ∃ o, offsetMsAt zone i = some o ∧ -10000000 * msPerDay ≤ o ∧ o ≤ 10000000 * msPerDay := by
  have bounds := zone.steady.bounded (i / 1000 * 1000 / 1000)
  have whole : i / 1000 * 1000 / 1000 = i / 1000 := by omega
  rw [whole] at bounds
  unfold msPerDay at low high
  have read : instantToLocal zone (i / 1000 * 1000) = some (readingOf (i / 1000 + zone.offsetAt (i / 1000))) := by
    rw [instantToLocal,timeClipSome (by unfold latest msPerDay; omega) (by unfold latest msPerDay; omega),
      Option.map_some,whole]
  obtain ⟨ms,utc,start,stop⟩ := localAsUtcMsModerate (@readingModerate (i / 1000 + zone.offsetAt (i / 1000))
    (by omega) (by omega))
  rw [readingOfDay] at start stop
  unfold msPerDay at *
  exact ⟨ms - i / 1000 * 1000,by simp only [offsetMsAt,read,utc,bind,Option.bind_some],by omega,by omega⟩

theorem localToInstantModerate {l : LocalDateTime} (real : l.toDate.Real) (clock : LocalDateTime.Clock l)
    (low : -720000 ≤ l.toDate.number) (high : l.toDate.number ≤ 2932898) : ∃ i, localToInstant zone l = some i := by
  obtain ⟨pivot,utc,start,stop⟩ := localAsUtcMsModerate ⟨real,clock,by omega,by omega⟩
  have low' : -720000 * msPerDay ≤ pivot := by unfold msPerDay at *; omega
  have high' : pivot ≤ 2932899 * msPerDay := by unfold msPerDay at *; omega
  obtain ⟨before,offsetBefore,leastBefore,mostBefore⟩ := @offsetMsAtModerate zone (pivot - msPerDay)
    (by unfold msPerDay at *; omega) (by unfold msPerDay at *; omega)
  obtain ⟨after,offsetAfter,leastAfter,mostAfter⟩ := @offsetMsAtModerate zone (pivot + msPerDay)
    (by unfold msPerDay at *; omega) (by unfold msPerDay at *; omega)
  have reads : ∀ {offset : Int}, -10000000 * msPerDay ≤ offset → offset ≤ 10000000 * msPerDay →
      ∃ l, instantToLocal zone (pivot - offset) = some l := by
    intro offset least most
    rw [instantToLocal,timeClipSome (by unfold latest msPerDay at *; omega) (by unfold latest msPerDay at *; omega)]
    exact ⟨_,rfl⟩
  obtain ⟨readsFirst,first⟩ := reads leastBefore mostBefore
  obtain ⟨readsSecond,second⟩ := reads leastAfter mostAfter
  simp only [localToInstant,utc,offsetBefore,offsetAfter,first,second,bind,Option.bind_some]
  split <;> exact ⟨_,rfl⟩

end FamilyPlatform.ZonedTime
