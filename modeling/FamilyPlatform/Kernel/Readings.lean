import FamilyPlatform.Kernel.Dates

/-! What a reading resolves to under offsets of any kind that change no more than once in
48 hours: the first instant it is read at, or one the width of the gap later. -/
namespace FamilyPlatform.ZonedTime
open Civil Offsets

def secondOf (l : LocalDateTime) : Int := l.toDate.number * 86400 + (l.hour * 3600 + l.minute * 60 + l.second)

theorem secondDay {l : LocalDateTime} (clock : LocalDateTime.Clock l) : secondOf l / 86400 = l.toDate.number := by
  unfold LocalDateTime.Clock at clock
  unfold secondOf
  omega

theorem secondMs (l : LocalDateTime) : l.toDate.number * msPerDay + clockMs l = secondOf l * 1000 := by
  unfold secondOf clockMs msPerDay
  omega

theorem readingOfReal (n : Int) : (readingOf n).toDate.Real ∧ LocalDateTime.Clock (readingOf n) := by
  refine ⟨dateOfReal _,?_⟩
  simp only [LocalDateTime.Clock,readingOf,atTime]
  omega

@[simp] theorem secondOfReading (n : Int) : secondOf (readingOf n) = n := by
  simp only [secondOf,readingOf,atTime,numberOfDate]
  omega

theorem readingOfDay (n : Int) : (readingOf n).toDate.number = n / 86400 := numberOfDate _

theorem readingOfSecond {l : LocalDateTime} (real : l.toDate.Real) (clock : LocalDateTime.Clock l) :
    readingOf (secondOf l) = l := by
  have day := secondDay clock
  have hour : secondOf l % 86400 / 3600 = l.hour := by
    unfold LocalDateTime.Clock at clock
    unfold secondOf
    omega
  have minute : secondOf l % 86400 % 3600 / 60 = l.minute := by
    unfold LocalDateTime.Clock at clock
    unfold secondOf
    omega
  have second : secondOf l % 86400 % 60 = l.second := by
    unfold LocalDateTime.Clock at clock
    unfold secondOf
    omega
  simp only [readingOf,day,dateOfNumber real,hour,minute,second]
  rfl

theorem secondInjective {a b : LocalDateTime} (realA : a.toDate.Real) (clockA : LocalDateTime.Clock a)
    (realB : b.toDate.Real) (clockB : LocalDateTime.Clock b) (same : secondOf a = secondOf b) : a = b := by
  rw [← readingOfSecond realA clockA,same,readingOfSecond realB clockB]

theorem readingOfIff {l : LocalDateTime} (real : l.toDate.Real) (clock : LocalDateTime.Clock l) {n : Int} :
    readingOf n = l ↔ n = secondOf l := by
  constructor
  · rintro rfl
    exact (secondOfReading n).symm
  · rintro rfl
    exact readingOfSecond real clock

theorem timeClipSource {ms utc : Int} (clip : timeClip ms = some utc) : utc = ms := by
  unfold timeClip at clip
  split at clip <;> cases clip
  rfl

theorem timeClipRange {ms utc : Int} (clip : timeClip ms = some utc) :
    -(latest * msPerDay) ≤ ms ∧ ms ≤ latest * msPerDay := by
  unfold timeClip at clip
  split at clip
  · assumption
  · cases clip

/- The 29th of February of the year 0, which the source has as a day of the year 1900.
Two days to either side of it are within reach of an offset and a day. -/
def leapDay : Int := -719469

def Away (day : Int) : Prop := day + 3 ≤ leapDay ∨ leapDay + 3 ≤ day

instance (day : Int) : Decidable (Away day) := inferInstanceAs (Decidable (_ ∨ _))

theorem notLeapDay {d : LocalDate} (other : d.number ≠ leapDay) : d ≠ ⟨0,2,29⟩ := by
  rintro rfl
  exact other (by decide)

theorem localAsUtcMsSecond {l : LocalDateTime} (real : l.toDate.Real) (clock : LocalDateTime.Clock l)
    (other : l.toDate.number ≠ leapDay) : localAsUtcMs l = timeClip (secondOf l * 1000) := by
  rw [localAsUtcMsClip real clock (notLeapDay other),secondMs]

/-! The source with the offsets of no zone in particular. -/
namespace Anywhere
variable (offsetAt : Int → Int)

def instantToLocal (instant : Instant) : Option LocalDateTime :=
  (timeClip instant).map (fun ms => readingOf (ms / 1000 + offsetAt (ms / 1000)))

def offsetMsAt (instant : Instant) : Option Int := do
  let wholeSecond := instant / 1000 * 1000
  let reading ← instantToLocal offsetAt wholeSecond
  let ms ← localAsUtcMs reading
  some (ms - wholeSecond)

def localToInstant (reading : LocalDateTime) : Option Instant := do
  let pivot ← localAsUtcMs reading
  let offsetBefore ← offsetMsAt offsetAt (pivot - msPerDay)
  let offsetAfter ← offsetMsAt offsetAt (pivot + msPerDay)
  let first := pivot - offsetBefore
  let second := pivot - offsetAfter
  let readsFirst ← instantToLocal offsetAt first
  let readsSecond ← instantToLocal offsetAt second
  match decide (readsFirst = reading), decide (readsSecond = reading) with
  | true, true => some (min first second)
  | true, false => some first
  | false, true => some second
  | false, false => some first

theorem instantToLocalZone (zone : Zone) : ZonedTime.instantToLocal zone = instantToLocal zone.offsetAt := rfl

variable {offsetAt}

theorem instantToLocalSource {i : Int} {l : LocalDateTime} (found : instantToLocal offsetAt i = some l) :
    l = readingOf (i / 1000 + offsetAt (i / 1000)) := by
  obtain ⟨ms,clip,rfl⟩ := Option.map_eq_some_iff.mp found
  rw [timeClipSource clip]

theorem instantToLocalSecond {s : Int} (low : -(latest * 86400) ≤ s) (high : s ≤ latest * 86400) :
    instantToLocal offsetAt (s * 1000) = some (readingOf (s + offsetAt s)) := by
  have whole : s * 1000 / 1000 = s := by omega
  rw [instantToLocal,timeClipSome (by unfold latest msPerDay at *; omega) (by unfold latest msPerDay at *; omega),
    Option.map_some,whole]

theorem offsetMsAtSource {s o : Int} (other : (s + offsetAt s) / 86400 ≠ leapDay)
    (found : offsetMsAt offsetAt (s * 1000) = some o) : o = offsetAt s * 1000 := by
  simp only [offsetMsAt,bind,Option.bind_eq_some_iff] at found
  obtain ⟨reading,read,ms,utc,is⟩ := found
  have whole : s * 1000 / 1000 = s := by omega
  have at_ := instantToLocalSource read
  rw [whole,whole] at at_
  obtain ⟨real,clock⟩ := readingOfReal (s + offsetAt s)
  rw [at_,localAsUtcMsSecond real clock (readingOfDay _ ▸ other),secondOfReading] at utc
  have ms' := timeClipSource utc
  have same := Option.some.inj is
  omega

theorem offsetMsAtReal {s : Int} (low : -(latest * 86400) ≤ s) (high : s ≤ latest * 86400)
    (low' : -(latest * 86400) ≤ s + offsetAt s) (high' : s + offsetAt s ≤ latest * 86400)
    (other : (s + offsetAt s) / 86400 ≠ leapDay) : offsetMsAt offsetAt (s * 1000) = some (offsetAt s * 1000) := by
  have whole : s * 1000 / 1000 * 1000 = s * 1000 := by omega
  obtain ⟨real,clock⟩ := readingOfReal (s + offsetAt s)
  have ms := localAsUtcMsSecond real clock (readingOfDay _ ▸ other)
  rw [secondOfReading,timeClipSome (by unfold latest msPerDay at *; omega)
    (by unfold latest msPerDay at *; omega)] at ms
  simp only [offsetMsAt,whole,@instantToLocalSecond offsetAt s low high,ms,bind,Option.bind_some,Option.some.injEq]
  omega

section
variable {reading : LocalDateTime} (apart : Apart offsetAt 86400 54000) (real : reading.toDate.Real)
  (clock : LocalDateTime.Clock reading) (away : Away reading.toDate.number)

theorem awayHere {day : Int} (away : Away day) : day ≠ leapDay := by
  unfold Away at away
  omega

include apart clock away in
theorem awayAround {s : Int} (near : s = secondOf reading - 86400 ∨ s = secondOf reading + 86400) :
    (s + offsetAt s) / 86400 ≠ leapDay := by
  have day := secondDay clock
  have := apart.bounded s
  unfold Away at away
  omega

include apart real clock away

omit apart real clock away in
theorem minMs (a b : Int) : min (a * 1000) (b * 1000) = min a b * 1000 := by omega

theorem localToInstantSteps {i : Int} (found : localToInstant offsetAt reading = some i) :
    ∃ readsFirst readsSecond,
      instantToLocal offsetAt ((secondOf reading - offsetAt (secondOf reading - 86400)) * 1000) = some readsFirst ∧
      instantToLocal offsetAt ((secondOf reading - offsetAt (secondOf reading + 86400)) * 1000) = some readsSecond ∧
      i = resolve offsetAt 86400 (secondOf reading) * 1000 := by
  simp only [localToInstant,bind,Option.bind_eq_some_iff] at found
  obtain ⟨pivot,utc,before,offsetBefore,after,offsetAfter,readsFirst,first,readsSecond,second,taken⟩ := found
  rw [localAsUtcMsSecond real clock (awayHere away)] at utc
  obtain rfl := timeClipSource utc
  have early : secondOf reading * 1000 - msPerDay = (secondOf reading - 86400) * 1000 := by unfold msPerDay; omega
  have late : secondOf reading * 1000 + msPerDay = (secondOf reading + 86400) * 1000 := by unfold msPerDay; omega
  rw [early] at offsetBefore
  rw [late] at offsetAfter
  obtain rfl := offsetMsAtSource (awayAround apart clock away (.inl rfl)) offsetBefore
  obtain rfl := offsetMsAtSource (awayAround apart clock away (.inr rfl)) offsetAfter
  rw [← Int.sub_mul] at first second taken
  rw [← Int.sub_mul] at taken
  have back : ∀ shift reads, instantToLocal offsetAt ((secondOf reading - shift) * 1000) = some reads →
      (reads = reading ↔ ReadsBack offsetAt (secondOf reading) shift) := by
    intro shift reads read
    have is := instantToLocalSource read
    have whole : (secondOf reading - shift) * 1000 / 1000 = secondOf reading - shift := by omega
    rw [whole] at is
    rw [is,readingOfIff real clock,ReadsBack]
    omega
  simp only [decide_eq_decide.mpr (back _ _ first),decide_eq_decide.mpr (back _ _ second)] at taken
  refine ⟨readsFirst,readsSecond,first,second,?_⟩
  have same : some i = some (resolve offsetAt 86400 (secondOf reading) * 1000) := by
    rw [← taken]
    simp only [resolve]
    cases decide (ReadsBack offsetAt (secondOf reading) (offsetAt (secondOf reading - 86400))) <;>
      cases decide (ReadsBack offsetAt (secondOf reading) (offsetAt (secondOf reading + 86400)))
    case true.true => exact congrArg some (minMs _ _)
    all_goals rfl
  exact Option.some.inj same

theorem localToInstantSource {i : Int} (found : localToInstant offsetAt reading = some i) :
    i = resolve offsetAt 86400 (secondOf reading) * 1000 := by
  obtain ⟨-,-,-,-,is⟩ := localToInstantSteps apart real clock away found
  exact is

theorem candidatesInside {i : Int} (found : localToInstant offsetAt reading = some i) {s : Int}
    (is : s = secondOf reading - offsetAt (secondOf reading - 86400) ∨
      s = secondOf reading - offsetAt (secondOf reading + 86400)) :
    instantToLocal offsetAt (s * 1000) = some (readingOf (s + offsetAt s)) := by
  obtain ⟨readsFirst,readsSecond,first,second,-⟩ := localToInstantSteps apart real clock away found
  have whole : s * 1000 / 1000 = s := by omega
  obtain ⟨l,read⟩ : ∃ l, instantToLocal offsetAt (s * 1000) = some l := by
    rcases is with rfl | rfl
    · exact ⟨_,first⟩
    · exact ⟨_,second⟩
  rw [read,instantToLocalSource read,whole]

theorem localToInstantInside (low : 3 - latest ≤ reading.toDate.number) (high : reading.toDate.number + 3 ≤ latest) :
    ∃ i, localToInstant offsetAt reading = some i := by
  have day := secondDay clock
  have pivot := localAsUtcMsSecond real clock (awayHere away)
  rw [timeClipSome (by unfold latest msPerDay at *; omega) (by unfold latest msPerDay at *; omega)] at pivot
  have early : secondOf reading * 1000 - msPerDay = (secondOf reading - 86400) * 1000 := by unfold msPerDay; omega
  have late : secondOf reading * 1000 + msPerDay = (secondOf reading + 86400) * 1000 := by unfold msPerDay; omega
  have bounds := apart.bounded
  have offset : ∀ s, s = secondOf reading - 86400 ∨ s = secondOf reading + 86400 →
      offsetMsAt offsetAt (s * 1000) = some (offsetAt s * 1000) := by
    intro s near
    have := bounds s
    exact offsetMsAtReal (by omega) (by omega) (by omega) (by omega) (awayAround apart clock away near)
  have reads : ∀ s, ∃ l, instantToLocal offsetAt (secondOf reading * 1000 - offsetAt s * 1000) = some l := by
    intro s
    have := bounds s
    have is : secondOf reading * 1000 - offsetAt s * 1000 = (secondOf reading - offsetAt s) * 1000 := by omega
    exact ⟨_,by rw [is]; exact instantToLocalSecond (by omega) (by omega)⟩
  obtain ⟨readsFirst,first⟩ := reads (secondOf reading - 86400)
  obtain ⟨readsSecond,second⟩ := reads (secondOf reading + 86400)
  simp only [localToInstant,pivot,early,late,offset _ (.inl rfl),offset _ (.inr rfl),first,second,bind,Option.bind_some]
  split <;> exact ⟨_,rfl⟩

end

/- The first instant that is read so; where none is, one that is read the width of the
gap later. -/
structure Compatible (offsetAt : Int → Int) (reading : LocalDateTime) (i : Instant) : Prop where
  earliest : (∃ j, instantToLocal offsetAt j = some reading) →
    instantToLocal offsetAt i = some reading ∧ ∀ j, instantToLocal offsetAt j = some reading → i ≤ j
  moved : (∀ j, instantToLocal offsetAt j ≠ some reading) → ∃ change, Skips offsetAt change (secondOf reading) ∧
    instantToLocal offsetAt i = some (readingOf (secondOf reading + (offsetAt change - offsetAt (change - 1))))

/-- Every reading that resolves does so to the first instant it is read at, or by the width of its gap; and every one
that is three days inside the range of `Date` resolves. -/
theorem localToInstantCompatible {offsetAt : Int → Int} {reading : LocalDateTime} (apart : Apart offsetAt 86400 54000)
    (real : reading.toDate.Real) (clock : LocalDateTime.Clock reading) (away : Away reading.toDate.number) :
    (∀ i, localToInstant offsetAt reading = some i → Compatible offsetAt reading i) ∧
    (3 - latest ≤ reading.toDate.number → reading.toDate.number + 3 ≤ latest →
      ∃ i, localToInstant offsetAt reading = some i) := by
  refine ⟨fun i found => ?_,localToInstantInside apart real clock away⟩
  obtain rfl := localToInstantSource apart real clock away found
  have result := candidatesInside apart real clock away found (resolveCases _)
  have reads : ∀ j, instantToLocal offsetAt j = some reading → j / 1000 + offsetAt (j / 1000) = secondOf reading :=
    fun j read => (readingOfIff real clock).mp (instantToLocalSource read).symm
  constructor
  · rintro ⟨j,read⟩
    obtain ⟨same,least⟩ := apart.resolveLeast (reads j read)
    refine ⟨by rw [result,same,readingOfSecond real clock],fun k readK => ?_⟩
    have := least _ (reads k readK)
    change (_ : Int) ≤ k
    omega
  · intro unread
    have nowhere : ∀ s, s + offsetAt s ≠ secondOf reading := by
      intro s same
      have at_ := candidatesInside apart real clock away found ((apart.readBy same).imp And.left And.left)
      exact unread _ (by rw [at_,same,readingOfSecond real clock])
    obtain ⟨change,skips⟩ := apart.unreadSkipped nowhere
    exact ⟨change,skips,by rw [result,(apart.resolveSkipped skips).2]⟩

def oneChange (change before after s : Int) : Int := if s < change then before else after

theorem oneChangeApart {change before after : Int} (low : -54000 ≤ min before after) (high : max before after ≤ 54000) :
    Apart (oneChange change before after) 86400 54000 where
  short := by decide
  bounded s := by
    unfold oneChange
    split <;> omega
  spaced s := ⟨change,fun u since till => by
    unfold oneChange
    split <;> split <;> omega⟩

def samoa : Int → Int := oneChange 1325239200 (-36000) 50400

theorem samoaMoved : ∃ i, localToInstant samoa ⟨⟨2011,12,30⟩,12,0,0⟩ = some i ∧
    Compatible samoa ⟨⟨2011,12,30⟩,12,0,0⟩ i := by
  have apart : Apart samoa 86400 54000 := oneChangeApart (by decide) (by decide)
  obtain ⟨returns,resolves⟩ := @localToInstantCompatible samoa ⟨⟨2011,12,30⟩,12,0,0⟩ apart (by decide) (by decide) (by decide)
  obtain ⟨i,found⟩ := resolves (by decide) (by decide)
  exact ⟨i,found,returns i found⟩

/- The last day of the range of `Date` is within a day of its end. -/
theorem lastDayUnresolved : ¬ ∀ (offsetAt : Int → Int) (reading : LocalDateTime), Apart offsetAt 86400 54000 →
    reading.toDate.Real → LocalDateTime.Clock reading →
      ∃ i, localToInstant offsetAt reading = some i ∧ Compatible offsetAt reading i := by
  intro all
  obtain ⟨i,found,-⟩ := all (fun _ => 0) ⟨⟨275760,9,12⟩,12,0,0⟩
    ⟨by decide,fun _ => by decide,fun s => ⟨s,fun _ _ _ => by simp⟩⟩ (by decide) (by decide)
  have none_ : localToInstant (fun _ => 0) ⟨⟨275760,9,12⟩,12,0,0⟩ = none := by decide +kernel
  rw [none_] at found
  cases found

end Anywhere

structure DayBegins (zone : Zone) (date : LocalDate) (i : Instant) : Prop where
  on : (instantToLocal zone i).map LocalDateTime.toDate = some date
  first : ∀ j, (instantToLocal zone j).map LocalDateTime.toDate = some date → i ≤ j

structure Probes (zone : Zone) (midnight : Int) : Prop where
  early : -(latest * 86400) ≤ midnight - 86400
  earlyRead : -(latest * 86400) ≤ midnight - 86400 + zone.offsetAt (midnight - 86400)
  late : midnight + 86400 ≤ latest * 86400
  lateRead : midnight + 86400 + zone.offsetAt (midnight + 86400) ≤ latest * 86400

def ReadOnLeapDay (zone : Zone) (s : Int) : Prop := (s + zone.offsetAt s) / 86400 = leapDay

instance (zone : Zone) (s : Int) : Decidable (ReadOnLeapDay zone s) := inferInstanceAs (Decidable (_ = _))

/- Beside that day of the year 0: a probe that is read on it is told a day too late, and midnight is to be had by the
other. On the day itself, by the offset at its own second. -/
structure LeapDayHarmless (zone : Zone) (date : LocalDate) (midnight : Int) : Prop where
  after : ReadOnLeapDay zone (midnight - 86400) →
    ReadsFirst zone.offsetAt 86400 midnight (zone.offsetAt (midnight + 86400))
  before : date.number ≠ leapDay → ReadOnLeapDay zone (midnight + 86400) →
    ReadsBack zone.offsetAt midnight (zone.offsetAt (midnight + 86400)) →
      ReadsBack zone.offsetAt midnight (zone.offsetAt (midnight - 86400))
  own : date.number = leapDay → 0 ≤ zone.offsetAt midnight ∧ ReadsFirst zone.offsetAt 86400 midnight (zone.offsetAt midnight)

def slip (day : Int) : Int := if day = leapDay then 86400 else 0

theorem localAsUtcMsSlip {l : LocalDateTime} (real : l.toDate.Real) (clock : LocalDateTime.Clock l) :
    localAsUtcMs l = timeClip ((secondOf l + slip l.toDate.number) * 1000) := by
  by_cases other : l.toDate.number = leapDay
  swap
  · rw [localAsUtcMsSecond real clock other,slip,if_neg other,Int.add_zero]
  have date : l.toDate = ⟨0,2,29⟩ := by
    rw [← dateOfNumber real,other]
    decide
  have bounds := clockBounds clock
  have second := secondMs l
  obtain ⟨d,h,m,n⟩ := l
  cases date
  have first : makeDay 1900 2 29 = -25508 := by decide
  have last : makeDay 0 3 1 = -719468 := by decide
  have march : dateOf (-25508) = ⟨1900,3,1⟩ := by decide
  have day : (-25508 * msPerDay + h * 3600000 + m * 60000 + n * 1000) / msPerDay = -25508 ∧
      (-25508 * msPerDay + h * 3600000 + m * 60000 + n * 1000) % msPerDay = h * 3600000 + m * 60000 + n * 1000 := by
    simp only [clockMs,msPerDay] at bounds ⊢
    omega
  have sum : (secondOf ⟨⟨0,2,29⟩,h,m,n⟩ + slip leapDay) * 1000 = -719468 * msPerDay + (h * 3600000 + m * 60000 + n * 1000) := by
    rw [slip,if_pos rfl,Int.add_mul,← second,other]
    simp only [clockMs,leapDay,msPerDay]
    omega
  simp only [localAsUtcMs,dateUtc,bind,other]
  rw [sum]
  simp only [Int.le_refl,true_and,show (0 : Int) ≤ 99 by decide,show (0 : Int) < 100 by decide,if_true,Int.add_zero,first]
  rw [timeClipSome (by simp only [clockMs,latest,msPerDay] at *; omega) (by simp only [clockMs,latest,msPerDay] at *; omega),
    Option.bind_some]
  simp only [setUtcFullYear,day.1,day.2,march,last]

section
variable {zone : Zone} {date : LocalDate} (real : date.Real)

def shiftAt (zone : Zone) (s : Int) : Int := zone.offsetAt s + slip ((s + zone.offsetAt s) / 86400)

theorem offsetMsAtSlip (s : Int) : offsetMsAt zone (s * 1000) = (timeClip (s * 1000)).bind (fun _ =>
    (timeClip ((s + shiftAt zone s) * 1000)).map (fun ms => ms - s * 1000)) := by
  have whole : s * 1000 / 1000 = s := by omega
  obtain ⟨real,clock⟩ := readingOfReal (s + zone.offsetAt s)
  simp only [offsetMsAt,whole,instantToLocal,bind]
  cases clip : timeClip (s * 1000) with
  | none => rfl
  | some ms =>
    have is := timeClipSource clip
    subst is
    simp only [Option.map_some,Option.bind_some,whole,localAsUtcMsSlip real clock,secondOfReading,readingOfDay,shiftAt,
      Int.add_assoc]
    cases timeClip ((s + (zone.offsetAt s + slip ((s + zone.offsetAt s) / 86400))) * 1000) <;> rfl

def firstProbe (zone : Zone) (date : LocalDate) : Int :=
  let pivot := date.number * 86400 + slip date.number
  pivot - shiftAt zone (pivot - 86400)

def secondProbe (zone : Zone) (date : LocalDate) : Int :=
  let pivot := date.number * 86400 + slip date.number
  pivot - shiftAt zone (pivot + 86400)

theorem slipCases (day : Int) : slip day = 0 ∨ (slip day = 86400 ∧ day = leapDay) := by
  unfold slip
  split
  · exact .inr ⟨rfl,by assumption⟩
  · exact .inl rfl

theorem shiftThere {s : Int} (read : ReadOnLeapDay zone s) : shiftAt zone s = zone.offsetAt s + 86400 := by
  unfold ReadOnLeapDay at read
  rw [shiftAt,slip,if_pos read]

theorem shiftElse {s : Int} (read : ¬ ReadOnLeapDay zone s) : shiftAt zone s = zone.offsetAt s := by
  unfold ReadOnLeapDay at read
  rw [shiftAt,slip,if_neg read,Int.add_zero]

theorem shiftCases (s : Int) : shiftAt zone s = zone.offsetAt s ∨
    (shiftAt zone s = zone.offsetAt s + 86400 ∧ (s + zone.offsetAt s) / 86400 = leapDay) := by
  by_cases read : ReadOnLeapDay zone s
  · exact .inr ⟨shiftThere read,read⟩
  · exact .inl (shiftElse read)

include real

theorem startOfDayProbes {i : Instant} (found : startOfDay zone date = some i) : Probes zone (date.number * 86400) := by
  have clock : LocalDateTime.Clock (atTime date 0 0 0) := by simp [LocalDateTime.Clock,atTime]
  have second : secondOf (atTime date 0 0 0) = date.number * 86400 := by simp [secondOf,atTime]
  simp only [startOfDay,localToInstant,bind,Option.bind_eq_some_iff] at found
  obtain ⟨pivot,utc,before,early,after,late,-⟩ := found
  rw [localAsUtcMsSlip (l := atTime date 0 0 0) real clock,second] at utc
  change timeClip ((date.number * 86400 + slip date.number) * 1000) = some pivot at utc
  obtain rfl := timeClipSource utc
  obtain ⟨pivot,is⟩ : ∃ pivot, date.number * 86400 + slip date.number = pivot := ⟨_,rfl⟩
  rw [is] at early late
  have first : pivot * 1000 - msPerDay = (pivot - 86400) * 1000 := by unfold msPerDay; omega
  have last : pivot * 1000 + msPerDay = (pivot + 86400) * 1000 := by unfold msPerDay; omega
  rw [first,offsetMsAtSlip] at early
  rw [last,offsetMsAtSlip] at late
  obtain ⟨_,earlyClip,early⟩ := Option.bind_eq_some_iff.mp early
  obtain ⟨_,lateClip,late⟩ := Option.bind_eq_some_iff.mp late
  obtain ⟨_,earlyRead,-⟩ := Option.map_eq_some_iff.mp early
  obtain ⟨_,lateRead,-⟩ := Option.map_eq_some_iff.mp late
  have a := timeClipRange earlyClip
  have b := timeClipRange earlyRead
  have c := timeClipRange lateClip
  have d := timeClipRange lateRead
  have boundBefore := zone.steady.bounded (date.number * 86400 - 86400)
  have boundAfter := zone.steady.bounded (date.number * 86400 + 86400)
  rcases slipCases date.number with none_ | ⟨-,leap⟩
  · rw [none_,Int.add_zero] at is
    subst is
    have e := @shiftCases zone (date.number * 86400 - 86400)
    have f := @shiftCases zone (date.number * 86400 + 86400)
    unfold latest msPerDay leapDay at *
    constructor <;> unfold latest <;> omega
  · unfold leapDay at leap
    constructor <;> unfold latest <;> omega

omit real in
theorem probesNear {pivot : Int} (probes : Probes zone (date.number * 86400))
    (is : date.number * 86400 + slip date.number = pivot) :
    (-(latest * 86400) ≤ pivot - 86400 ∧ pivot + 86400 ≤ latest * 86400) ∧
      (-(latest * 86400) ≤ pivot - 86400 + shiftAt zone (pivot - 86400) ∧
        pivot - shiftAt zone (pivot - 86400) ≤ latest * 86400 ∧ -(latest * 86400) ≤ pivot - shiftAt zone (pivot - 86400)) ∧
      (pivot + 86400 + shiftAt zone (pivot + 86400) ≤ latest * 86400 ∧
        pivot - shiftAt zone (pivot + 86400) ≤ latest * 86400 ∧ -(latest * 86400) ≤ pivot - shiftAt zone (pivot + 86400)) := by
  obtain ⟨early,earlyRead,late,lateRead⟩ := probes
  have boundBefore := zone.steady.bounded (pivot - 86400)
  have boundAfter := zone.steady.bounded (pivot + 86400)
  have shiftBefore := @shiftCases zone (pivot - 86400)
  have shiftAfter := @shiftCases zone (pivot + 86400)
  rcases slipCases date.number with none_ | ⟨whole,leap⟩
  · rw [none_,Int.add_zero] at is
    subst is
    unfold latest leapDay at *
    omega
  · rw [whole,leap] at is
    unfold latest leapDay at *
    omega

omit real in
theorem offsetMsAtShift {s : Int} (low : -(latest * 86400) ≤ s) (high : s ≤ latest * 86400)
    (lowRead : -(latest * 86400) ≤ s + shiftAt zone s) (highRead : s + shiftAt zone s ≤ latest * 86400) :
    offsetMsAt zone (s * 1000) = some (shiftAt zone s * 1000) := by
  rw [offsetMsAtSlip,timeClipSome (by unfold latest msPerDay at *; omega) (by unfold latest msPerDay at *; omega),
    Option.bind_some,timeClipSome (by unfold latest msPerDay at *; omega) (by unfold latest msPerDay at *; omega),
    Option.map_some,Option.some.injEq]
  omega

theorem startOfDayTaken (probes : Probes zone (date.number * 86400)) :
    startOfDay zone date = some (taken zone.offsetAt (date.number * 86400) (firstProbe zone date) (secondProbe zone date) *
      1000) ∧ ∀ s, s = firstProbe zone date ∨ s = secondProbe zone date → -(latest * 86400) ≤ s ∧ s ≤ latest * 86400 := by
  have clock : LocalDateTime.Clock (atTime date 0 0 0) := by simp [LocalDateTime.Clock,atTime]
  have second : secondOf (atTime date 0 0 0) = date.number * 86400 := by simp [secondOf,atTime]
  obtain ⟨pivot,is⟩ : ∃ pivot, date.number * 86400 + slip date.number = pivot := ⟨_,rfl⟩
  have utc := localAsUtcMsSlip (l := atTime date 0 0 0) real clock
  rw [second] at utc
  change _ = timeClip ((date.number * 86400 + slip date.number) * 1000) at utc
  obtain ⟨near,first,last⟩ := probesNear probes is
  have boundBefore := zone.steady.bounded (pivot - 86400)
  have boundAfter := zone.steady.bounded (pivot + 86400)
  have shiftBefore := @shiftCases zone (pivot - 86400)
  have shiftAfter := @shiftCases zone (pivot + 86400)
  have reads : ∀ {s : Int}, -(latest * 86400) ≤ s → s ≤ latest * 86400 →
      instantToLocal zone (s * 1000) = some (readingOf (s + zone.offsetAt s)) := fun low high =>
    @Anywhere.instantToLocalSecond zone.offsetAt _ low high
  have back : ∀ s : Int, readingOf (s + zone.offsetAt s) = atTime date 0 0 0 ↔
      s + zone.offsetAt s = date.number * 86400 := fun s => second ▸ readingOfIff (l := atTime date 0 0 0) real clock
  unfold firstProbe secondProbe
  simp only [is]
  refine ⟨?_,by rintro s (rfl | rfl) <;> omega⟩
  have pivotReal : localAsUtcMs (atTime date 0 0 0) = some (pivot * 1000) := by
    rw [utc,is,timeClipSome (by unfold latest msPerDay at *; omega) (by unfold latest msPerDay at *; omega)]
  have before : pivot * 1000 - msPerDay = (pivot - 86400) * 1000 := by unfold msPerDay; omega
  have after : pivot * 1000 + msPerDay = (pivot + 86400) * 1000 := by unfold msPerDay; omega
  simp only [startOfDay,localToInstant,bind,pivotReal,Option.bind_some,before,after]
  rw [offsetMsAtShift (by omega) (by omega) (by omega) (by omega),
    offsetMsAtShift (by omega) (by omega) (by omega) (by omega)]
  simp only [Option.bind_some,← Int.sub_mul]
  rw [reads (by omega) (by omega),reads (by omega) (by omega)]
  simp only [Option.bind_some,back,taken]
  cases decide (pivot - shiftAt zone (pivot - 86400) + zone.offsetAt (pivot - shiftAt zone (pivot - 86400)) =
      date.number * 86400) <;>
    cases decide (pivot - shiftAt zone (pivot + 86400) + zone.offsetAt (pivot - shiftAt zone (pivot + 86400)) =
      date.number * 86400)
  case true.true => exact congrArg some (Anywhere.minMs _ _)
  all_goals rfl

omit real in
theorem takenEither {offset : Int → Int} {reading first second : Int} :
    taken offset reading first second = first ∨ taken offset reading first second = second := by
  unfold taken
  split <;> first | exact .inl rfl | exact .inr rfl | exact min_choice _ _

theorem dateOfReading {n : Int} : (readingOf n).toDate = date ↔ n / 86400 = date.number := by
  constructor
  · rintro rfl
    exact (readingOfDay n).symm
  · intro same
    change dateOf (n / 86400) = date
    rw [same,dateOfNumber real]

theorem onDate {j : Instant} (read : (instantToLocal zone j).map LocalDateTime.toDate = some date) :
    On zone.offsetAt 86400 (date.number * 86400) (j / 1000) := by
  obtain ⟨l,reads,rfl⟩ := Option.map_eq_some_iff.mp read
  have day := (dateOfReading real).mp (congrArg LocalDateTime.toDate (Anywhere.instantToLocalSource reads)).symm
  unfold On
  omega

theorem dayBeginsAt {s : Int} (low : -(latest * 86400) ≤ s) (high : s ≤ latest * 86400)
    (inside : -(latest * 86400) ≤ date.number * 86400 - 86400) :
    DayBegins zone date (s * 1000) ↔ Begins zone.offsetAt 86400 (date.number * 86400) s := by
  have reads : ∀ {t : Int}, -(latest * 86400) ≤ t → t ≤ latest * 86400 →
      instantToLocal zone (t * 1000) = some (readingOf (t + zone.offsetAt t)) := fun low high =>
    @Anywhere.instantToLocalSecond zone.offsetAt _ low high
  have whole : s * 1000 / 1000 = s := by omega
  constructor
  · rintro ⟨on,first⟩
    refine ⟨whole ▸ onDate real on,fun t there => ?_⟩
    have bounds := zone.steady.bounded t
    by_cases late : latest * 86400 < t
    · omega
    · unfold On at there
      have le : s * 1000 ≤ t * 1000 := first (t * 1000) (by
        rw [reads (by omega) (by omega),Option.map_some,(dateOfReading real).mpr (by omega)])
      omega
  · rintro ⟨on,first⟩
    refine ⟨?_,fun j there => ?_⟩
    · unfold On at on
      rw [reads low high,Option.map_some,(dateOfReading real).mpr (by omega)]
    · have := first _ (onDate real there)
      change (_ : Int) ≤ j
      omega

omit real

theorem leapDayBegins (leap : date.number = leapDay) : Begins zone.offsetAt 86400 (date.number * 86400)
      (taken zone.offsetAt (date.number * 86400) (firstProbe zone date) (secondProbe zone date)) ↔
    (¬ ∃ change, Straddles zone.offsetAt change (date.number * 86400)) ∧
      LeapDayHarmless zone date (date.number * 86400) := by
  have steady := zone.steady
  have bounds := steady.bounded (date.number * 86400)
  have before := steady.bounded (date.number * 86400 - 86400)
  have after := steady.bounded (date.number * 86400 + 2 * 86400)
  have first : firstProbe zone date = date.number * 86400 + 86400 - shiftAt zone (date.number * 86400) := by
    simp only [firstProbe,slip,if_pos leap]
    rw [Int.add_sub_cancel]
  have second : secondProbe zone date =
      date.number * 86400 + 86400 - zone.offsetAt (date.number * 86400 + 2 * 86400) := by
    simp only [secondProbe,slip,if_pos leap]
    rw [show date.number * 86400 + 86400 + 86400 = date.number * 86400 + 2 * 86400 by omega,
      shiftElse (by unfold ReadOnLeapDay; omega)]
  have harmless : LeapDayHarmless zone date (date.number * 86400) ↔ 0 ≤ zone.offsetAt (date.number * 86400) ∧
      ReadsFirst zone.offsetAt 86400 (date.number * 86400) (zone.offsetAt (date.number * 86400)) :=
    ⟨fun harmless => harmless.own leap,fun own => ⟨fun read => by unfold ReadOnLeapDay at read; omega,
      fun other => absurd leap other,fun _ => own⟩⟩
  rw [first,second,harmless]
  by_cases positive : 0 ≤ zone.offsetAt (date.number * 86400)
  · rw [shiftThere (by unfold ReadOnLeapDay; omega),steady.ownProbe positive,and_iff_right positive]
  · rw [shiftElse (by unfold ReadOnLeapDay; omega)]
    exact iff_of_false (steady.ownProbeLate (by omega)) (fun both => positive both.2.1)

theorem takenBegins : Begins zone.offsetAt 86400 (date.number * 86400)
      (taken zone.offsetAt (date.number * 86400) (firstProbe zone date) (secondProbe zone date)) ↔
    (¬ ∃ change, Straddles zone.offsetAt change (date.number * 86400)) ∧
      LeapDayHarmless zone date (date.number * 86400) := by
  by_cases leap : date.number = leapDay
  · exact leapDayBegins leap
  have steady := zone.steady
  have pivot : date.number * 86400 + slip date.number = date.number * 86400 := by rw [slip,if_neg leap,Int.add_zero]
  simp only [firstProbe,secondProbe,pivot]
  obtain ⟨midnight,is⟩ : ∃ midnight, date.number * 86400 = midnight := ⟨_,rfl⟩
  have near := steady.near (show midnight - 86400 ≤ midnight + 86400 by omega) (by omega)
  have boundAfter := steady.bounded (midnight + 86400)
  simp only [is]
  by_cases early : ReadOnLeapDay zone (midnight - 86400)
  · have notLate : ¬ ReadOnLeapDay zone (midnight + 86400) := by
      unfold ReadOnLeapDay at *
      omega
    have harmless : LeapDayHarmless zone date midnight ↔
        ReadsFirst zone.offsetAt 86400 midnight (zone.offsetAt (midnight + 86400)) :=
      ⟨fun harmless => harmless.after early,fun own => ⟨fun _ => own,fun _ read => absurd read notLate,
        fun own => absurd own leap⟩⟩
    rw [shiftThere early,shiftElse notLate,steady.earlyProbe,harmless]
  by_cases late : ReadOnLeapDay zone (midnight + 86400)
  · have harmless : LeapDayHarmless zone date midnight ↔
        (ReadsBack zone.offsetAt midnight (zone.offsetAt (midnight + 86400)) →
          ReadsBack zone.offsetAt midnight (zone.offsetAt (midnight - 86400))) :=
      ⟨fun harmless => harmless.before leap late,fun own => ⟨fun read => absurd read early,fun _ _ => own,
        fun own => absurd own leap⟩⟩
    have positive : 0 ≤ zone.offsetAt (midnight + 86400) := by
      unfold ReadOnLeapDay at late
      omega
    rw [shiftElse early,shiftThere late,steady.lateProbe positive,harmless]
  · have harmless : LeapDayHarmless zone date midnight :=
      ⟨fun read => absurd read early,fun _ read => absurd read late,fun own => absurd own leap⟩
    rw [shiftElse early,shiftElse late,← resolveTaken,and_iff_left harmless]
    exact steady.resolveFirst midnight

include real in
/-- A date begins at the start of its day if and only if the probes of its midnight are in the range, the clocks do not
skip from before it to after it, and the 29th of February of the year 0 does no harm. -/
theorem startOfDayFirst : (∃ i, startOfDay zone date = some i ∧ DayBegins zone date i) ↔
    Probes zone (date.number * 86400) ∧ (¬ ∃ change, Straddles zone.offsetAt change (date.number * 86400)) ∧
      LeapDayHarmless zone date (date.number * 86400) := by
  rw [← takenBegins]
  constructor
  · rintro ⟨i,found,begins⟩
    have probes := startOfDayProbes real found
    obtain ⟨start,range⟩ := startOfDayTaken real probes
    cases found.symm.trans start
    obtain ⟨low,high⟩ := range _ takenEither
    exact ⟨probes,(dayBeginsAt real low high probes.early).mp begins⟩
  · rintro ⟨probes,begins⟩
    obtain ⟨start,range⟩ := startOfDayTaken real probes
    obtain ⟨low,high⟩ := range _ takenEither
    exact ⟨_,start,(dayBeginsAt real low high probes.early).mpr begins⟩

end

def toronto : Zone where
  offsetAt := Anywhere.oneChange (-1601753400) (-18000) (-14400)
  steady := by
    obtain ⟨short,bounded,spaced⟩ := @Anywhere.oneChangeApart (-1601753400) (-18000) (-14400) (by decide) (by decide)
    exact ⟨short,bounded,fun s => by unfold Anywhere.oneChange; split <;> split <;> decide,spaced⟩

theorem marchBegins : ∃ i, startOfDay toronto ⟨1919,3,30⟩ = some i ∧ DayBegins toronto ⟨1919,3,30⟩ i := by
  have midnight : Date.number ⟨1919,3,30⟩ * 86400 = -1601856000 := by decide
  refine (startOfDayFirst (by decide)).mpr ?_
  rw [midnight]
  refine ⟨⟨by decide,by decide,by decide,by decide⟩,?_,⟨fun read => absurd read (by decide),
    fun _ read => absurd read (by decide),fun own => absurd own (by decide)⟩⟩
  rintro ⟨change,⟨wider,since,till⟩,before⟩
  simp only [toronto,Anywhere.oneChange] at wider since till before
  split at wider <;> split at wider <;> omega

theorem midnightSkipped : ¬ ∀ (zone : Zone) (date : LocalDate), date.Real →
    ∃ i, startOfDay zone date = some i ∧ DayBegins zone date i := by
  intro all
  obtain ⟨i,start,begins⟩ := all toronto ⟨1919,3,31⟩ (by decide)
  have late : startOfDay toronto ⟨1919,3,31⟩ = some (-1601751600000) := by decide +kernel
  rw [late] at start
  cases start
  exact absurd (begins.first (-1601753400000) (by decide +kernel)) (by decide)

end FamilyPlatform.ZonedTime
