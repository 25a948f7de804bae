import FamilyPlatform.Kernel.NumberText
import FamilyPlatform.Kernel.Resolution

/-! The values of a rule's parts, printed and read back. -/
namespace FamilyPlatform.RecurrenceRule
open JsNumber ZonedTime Civil

structure Reads (cs : List Char) (width : Nat) (n : Int) : Prop where
  length : cs.length = width
  digits : cs.all isDigit = true
  value : digitsValue cs = n

theorem paddedReads {n : Int} {width : Nat} (low : 0 ≤ n) (high : n < 10 ^ width) (positive : 0 < width) :
    Reads (padded n width).toList width n := by
  obtain ⟨m,rfl⟩ := Int.eq_ofNat_of_zero_le low
  have text : toString (m : Int) = Nat.repr m := by
    rw [Int.toString_eq_repr,Int.repr_eq_if]
    simp
  have short : (Nat.repr m).length ≤ width := (digitsLength positive).mpr (by exact_mod_cast high)
  have chars : (padded m width).toList = List.replicate (width - (Nat.repr m).length) '0' ++ Nat.toDigits 10 m := by
    simp [padded,text]
  have count : (Nat.toDigits 10 m).length = (Nat.repr m).length := by
    rw [← Nat.toList_repr,String.length_toList]
  rw [chars]
  refine ⟨?_,?_,?_⟩
  · rw [List.length_append,List.length_replicate,count]
    omega
  · rw [List.all_append,Bool.and_eq_true,List.all_eq_true,List.all_eq_true]
    refine ⟨fun c mem => ?_,fun c mem => Nat.isDigit_of_mem_toDigits (by decide) (by decide) mem⟩
    rw [List.eq_of_mem_replicate mem]
    rfl
  · rw [digitsValue,digitsFold,Nat.ofDigitChars_append,Nat.ofDigitChars_replicate_zero,Nat.mul_zero,
      Nat.ofDigitChars_ten_toDigits]

structure UntilDate (date : LocalDate) : Prop where
  year : 0 ≤ date.year ∧ date.year ≤ 9999
  month : 1 ≤ date.month ∧ date.month ≤ 12
  first : 1 ≤ date.day
  last : ∀ length, daysInMonth date.year date.month = some length → date.day ≤ length

theorem digitsBelow {cs : List Char} (digits : cs.all isDigit = true) : Nat.ofDigitChars 10 cs 0 < 10 ^ cs.length := by
  induction cs with
  | nil => simp
  | cons c rest ih =>
    simp only [List.all_cons,Bool.and_eq_true] at digits
    have digit : c.toNat - '0'.toNat ≤ 9 := by
      have bounds := digits.1
      simp only [isDigit,Bool.and_eq_true,decide_eq_true_eq] at bounds
      have le : c.toNat ≤ '9'.toNat := bounds.2
      have : '9'.toNat = 57 := rfl
      have : '0'.toNat = 48 := rfl
      omega
    have tail := ih digits.2
    rw [Nat.ofDigitChars_cons,Nat.ofDigitChars_eq_ofDigitChars_zero,List.length_cons,Nat.pow_succ,Nat.mul_zero,
      Nat.zero_add]
    have := Nat.mul_le_mul_left (10 ^ rest.length) digit
    omega

theorem digitsBounds {cs : List Char} (digits : cs.all isDigit = true) :
    0 ≤ digitsValue cs ∧ digitsValue cs < 10 ^ cs.length := by
  have below : (Nat.ofDigitChars 10 cs 0 : Int) < 10 ^ cs.length := by exact_mod_cast digitsBelow digits
  exact ⟨Int.natCast_nonneg _,below⟩

theorem digitsCons (c : Char) (rest : List Char) :
    digitsValue (c :: rest) = ((10 ^ rest.length * (c.toNat - '0'.toNat) + Nat.ofDigitChars 10 rest 0 : Nat) : Int) := by
  rw [digitsValue,digitsFold,Nat.ofDigitChars_cons,Nat.ofDigitChars_eq_ofDigitChars_zero,Nat.mul_zero,Nat.zero_add]

theorem digitsUnique {cs ds : List Char} (length : cs.length = ds.length) (digits : cs.all isDigit = true)
    (digits' : ds.all isDigit = true) (same : digitsValue cs = digitsValue ds) : cs = ds := by
  induction cs generalizing ds with
  | nil => exact (List.length_eq_zero_iff.mp length.symm).symm
  | cons c rest ih =>
    cases ds with
    | nil => cases length
    | cons d others =>
      have length : rest.length = others.length := Nat.succ.inj length
      simp only [List.all_cons,Bool.and_eq_true] at digits digits'
      rw [digitsCons,digitsCons,← length] at same
      have positive : 0 < 10 ^ rest.length := Nat.pow_pos (by decide)
      have low := digitsBelow digits.2
      have low' : Nat.ofDigitChars 10 others 0 < 10 ^ rest.length := length ▸ digitsBelow digits'.2
      have equal := Int.ofNat.inj same
      have first := congrArg (· / 10 ^ rest.length) equal
      have last := congrArg (· % 10 ^ rest.length) equal
      simp only [Nat.mul_add_div positive,Nat.div_eq_of_lt low,Nat.div_eq_of_lt low',Nat.mul_add_mod,
        Nat.mod_eq_of_lt low,Nat.mod_eq_of_lt low'] at first last
      have heads : c = d := by
        have from_ := digits.1
        have from' := digits'.1
        simp only [isDigit,Bool.and_eq_true,decide_eq_true_eq] at from_ from'
        have least : '0'.toNat ≤ c.toNat := from_.1
        have least' : '0'.toNat ≤ d.toNat := from'.1
        exact Char.toNat_inj.mp (by omega)
      exact congrArg₂ List.cons heads (ih length digits.2 digits'.2 (congrArg Int.ofNat last))

theorem digitsWithin {cs : List Char} (width : Nat) (digits : cs.all isDigit = true) (short : cs.length ≤ width) :
    0 ≤ digitsValue cs ∧ digitsValue cs < 10 ^ width := by
  have bounds := digitsBounds digits
  exact ⟨bounds.1,lt_of_lt_of_le bounds.2 (pow_le_pow_right₀ (by decide) short)⟩

theorem partDigits {cs : List Char} (digits : cs.all isDigit = true) (from_ width : Nat) :
    ((cs.drop from_).take width).all isDigit = true :=
  List.all_eq_true.mpr (fun c mem => List.all_eq_true.mp digits c (List.mem_of_mem_drop (List.mem_of_mem_take mem)))

theorem untilDateSource {cs : List Char} {date : LocalDate} (read : parseUntilDate cs = some date) :
    UntilDate date ∧ cs.length = 8 := by
  simp only [parseUntilDate] at read
  split at read
  · cases read
  rename_i plain
  simp only [Bool.or_eq_true,decide_eq_true_eq,not_or,ne_eq,Decidable.not_not,Bool.not_eq_eq_eq_not,Bool.not_true,
    Bool.not_eq_false] at plain
  split at read
  · cases read
  rename_i bounds
  simp only [Bool.or_eq_true,decide_eq_true_eq,not_or,not_lt] at bounds
  have year := digitsWithin 4 (partDigits plain.2 0 4) (by simp)
  rw [List.drop_zero] at year
  have valid : (∀ length, daysInMonth (digitsValue (cs.take 4)) (digitsValue ((cs.drop 4).take 2)) = some length →
      digitsValue ((cs.drop 6).take 2) ≤ length) ∧
      date = ⟨digitsValue (cs.take 4),digitsValue ((cs.drop 4).take 2),digitsValue ((cs.drop 6).take 2)⟩ := by
    split at read
    · rename_i last found
      split at read <;> cases read
      refine ⟨fun length there => ?_,rfl⟩
      have := Option.some.inj (found.symm.trans there)
      omega
    · rename_i absent
      cases read
      exact ⟨fun length there => (by simp [absent] at there),rfl⟩
  obtain ⟨last,rfl⟩ := valid
  exact ⟨⟨⟨year.1,show digitsValue (cs.take 4) ≤ 9999 by have := year.2; omega⟩,⟨bounds.1.1,bounds.1.2⟩,bounds.2,last⟩,plain.1⟩

theorem untilDateText {date : LocalDate} (valid : UntilDate date) :
    (dateText date).toList.length = 8 ∧ parseUntilDate (dateText date).toList = some date := by
  have positive := valid.first
  have year := valid.year
  have month := valid.month
  have day : date.day < 10 ^ 2 := by
    have length := monthLengthBounds (fullYear date.year) date.month
    have := valid.last _ (daysInMonthFull year.1 year.2 month.1 month.2)
    omega
  have y := paddedReads year.1 (show date.year < 10 ^ 4 by omega) (by decide)
  have m := paddedReads (by omega) (show date.month < 10 ^ 2 by omega) (by decide)
  have d := paddedReads (by omega) day (by decide)
  have length : (dateText date).toList.length = 8 := by
    simp only [dateText,String.toList_append,List.length_append,y.length,m.length,d.length]
  refine ⟨length,?_⟩
  have digits : (dateText date).toList.all isDigit = true := by
    simp only [dateText,String.toList_append,List.all_append,y.digits,m.digits,d.digits,Bool.and_self]
  have first : (dateText date).toList.take 4 = (padded date.year 4).toList := by
    rw [dateText,String.toList_append,String.toList_append,List.append_assoc,List.take_left' y.length]
  have second : ((dateText date).toList.drop 4).take 2 = (padded date.month 2).toList := by
    rw [dateText,String.toList_append,String.toList_append,List.append_assoc,List.drop_left' y.length,
      List.take_left' m.length]
  have third : ((dateText date).toList.drop 6).take 2 = (padded date.day 2).toList := by
    rw [dateText,String.toList_append,String.toList_append,List.drop_left' (by simp [y.length,m.length]),
      List.take_of_length_le (Nat.le_of_eq d.length)]
  simp only [parseUntilDate,first,second,third,y.value,m.value,d.value,length,digits]
  simp only [ne_eq,not_true_eq_false,decide_false,Bool.not_true,Bool.or_self,Bool.false_eq_true,if_false,
    daysInMonthFull year.1 year.2 month.1 month.2]
  have bounds : ¬ (decide (date.month < 1) || decide (12 < date.month) || decide (date.day < 1)) = true := by
    simp only [Bool.or_eq_true,decide_eq_true_eq]
    omega
  rw [if_neg bounds,if_neg (Int.not_lt.mpr (valid.last _ (daysInMonthFull year.1 year.2 month.1 month.2)))]

theorem UntilDate.real {date : LocalDate} (valid : UntilDate date) :
    Date.Real ⟨fullYear date.year,date.month,date.day⟩ :=
  ⟨valid.month.1,valid.month.2,valid.first,
    valid.last _ (daysInMonthFull valid.year.1 valid.year.2 valid.month.1 valid.month.2)⟩

def clockText (reading : LocalDateTime) : String :=
  padded reading.hour 2 ++ padded reading.minute 2 ++ padded reading.second 2

theorem untilTimeSource {date : LocalDate} {cs : List Char} {reading : LocalDateTime}
    (read : parseUntilTime date cs = some reading) : reading.toDate = date ∧ LocalDateTime.Clock reading := by
  simp only [parseUntilTime] at read
  split at read
  · cases read
  rename_i plain
  simp only [Bool.or_eq_true,decide_eq_true_eq,not_or,ne_eq,Decidable.not_not,Bool.not_eq_eq_eq_not,Bool.not_true,
    Bool.not_eq_false] at plain
  split at read
  · cases read
  rename_i bounds
  simp only [Bool.or_eq_true,decide_eq_true_eq,not_or,not_lt] at bounds
  cases read
  have hour := (digitsBounds (partDigits plain.2 0 2)).1
  have minute := (digitsBounds (partDigits plain.2 2 2)).1
  have second := (digitsBounds (partDigits plain.2 4 2)).1
  exact ⟨rfl,hour,bounds.1.1,minute,bounds.1.2,second,bounds.2⟩

theorem untilTimeText {reading : LocalDateTime} (clock : LocalDateTime.Clock reading) :
    (clockText reading).toList.length = 6 ∧
      parseUntilTime reading.toDate (clockText reading).toList = some reading := by
  obtain ⟨hour,hour',minute,minute',second,second'⟩ := clock
  have h := paddedReads hour (show reading.hour < 10 ^ 2 by omega) (by decide)
  have m := paddedReads minute (show reading.minute < 10 ^ 2 by omega) (by decide)
  have s := paddedReads second (show reading.second < 10 ^ 2 by omega) (by decide)
  have length : (clockText reading).toList.length = 6 := by
    simp only [clockText,String.toList_append,List.length_append,h.length,m.length,s.length]
  refine ⟨length,?_⟩
  have digits : (clockText reading).toList.all isDigit = true := by
    simp only [clockText,String.toList_append,List.all_append,h.digits,m.digits,s.digits,Bool.and_self]
  have first : (clockText reading).toList.take 2 = (padded reading.hour 2).toList := by
    rw [clockText,String.toList_append,String.toList_append,List.append_assoc,List.take_left' h.length]
  have middle : ((clockText reading).toList.drop 2).take 2 = (padded reading.minute 2).toList := by
    rw [clockText,String.toList_append,String.toList_append,List.append_assoc,List.drop_left' h.length,
      List.take_left' m.length]
  have last : ((clockText reading).toList.drop 4).take 2 = (padded reading.second 2).toList := by
    rw [clockText,String.toList_append,String.toList_append,List.drop_left' (by simp [h.length,m.length]),
      List.take_of_length_le (Nat.le_of_eq s.length)]
  simp only [parseUntilTime,first,middle,last,h.value,m.value,s.value,length,digits]
  have bounds : ¬ (decide (23 < reading.hour) || decide (59 < reading.minute) || decide (59 < reading.second)) = true := by
    simp only [Bool.or_eq_true,decide_eq_true_eq]
    omega
  simp only [ne_eq,not_true_eq_false,decide_false,Bool.not_true,Bool.or_self,Bool.false_eq_true,if_false,atTime]
  exact if_neg bounds

def ValidUntil : Until → Prop
  | .date date => UntilDate date
  | .reading reading => UntilDate reading.toDate ∧ LocalDateTime.Clock reading
  | .utc instant => ∃ reading : LocalDateTime, UntilDate reading.toDate ∧ LocalDateTime.Clock reading ∧
      dateUtc reading.year reading.month reading.day reading.hour reading.minute reading.second = some instant

theorem parseUntilSource {value : String} {moment : Until} (read : parseUntil value = some moment) :
    ∃ date, parseUntilDate (value.toList.take 8) = some date ∧
      ((value.toList.drop 8 = [] ∧ moment = .date date) ∨ ∃ time reading, value.toList.drop 8 = 'T' :: time ∧
        parseUntilTime date (time.take 6) = some reading ∧ ((time.drop 6 = [] ∧ moment = .reading reading) ∨
          (time.drop 6 = ['Z'] ∧ ∃ instant, moment = .utc instant ∧
            dateUtc reading.year reading.month reading.day reading.hour reading.minute reading.second =
              some instant))) := by
  simp only [parseUntil,bind,Option.bind_eq_some_iff] at read
  obtain ⟨date,there,read⟩ := read
  refine ⟨date,there,?_⟩
  generalize value.toList.drop 8 = rest at *
  rcases rest with _ | ⟨c,time⟩
  · exact .inl ⟨rfl,(Option.some.inj read).symm⟩
  by_cases separator : c = 'T'
  · subst separator
    obtain ⟨reading,timed,ended⟩ := Option.bind_eq_some_iff.mp read
    refine .inr ⟨time,reading,rfl,timed,?_⟩
    generalize time.drop 6 = last at *
    split at ended
    · exact .inl ⟨rfl,(Option.some.inj ended).symm⟩
    · obtain ⟨instant,utc,ended⟩ := Option.bind_eq_some_iff.mp ended
      exact .inr ⟨rfl,instant,(Option.some.inj ended).symm,utc⟩
    · cases ended
  · generalize parseUntilTime date = f at read
    split at read <;> simp_all

theorem untilSource {value : String} {moment : Until} (read : parseUntil value = some moment) : ValidUntil moment := by
  obtain ⟨date,there,⟨-,rfl⟩ | ⟨time,reading,-,timed,ends⟩⟩ := parseUntilSource read
  · exact (untilDateSource there).1
  · obtain ⟨rfl,clock⟩ := untilTimeSource timed
    have valid := (untilDateSource there).1
    rcases ends with ⟨-,rfl⟩ | ⟨-,instant,rfl,utc⟩
    · exact ⟨valid,clock⟩
    · exact ⟨reading,valid,clock,utc⟩

def untilValue : Until → String
  | .date date => dateText date
  | .utc instant => dateText (readingOf (instant / 1000)).toDate ++ ("T" ++ clockText (readingOf (instant / 1000)) ++ "Z")
  | .reading reading => dateText reading.toDate ++ ("T" ++ clockText reading)

theorem untilTextValue (moment : Until) : untilText moment = "UNTIL=" ++ untilValue moment := by
  cases moment <;> simp only [untilText,untilValue,timeText,clockText,String.append_assoc]

theorem utcReading {reading : LocalDateTime} {instant : Int} (valid : UntilDate reading.toDate)
    (clock : LocalDateTime.Clock reading)
    (utc : dateUtc reading.year reading.month reading.day reading.hour reading.minute reading.second = some instant) :
    readingOf (instant / 1000) =
      atTime ⟨fullYear reading.year,reading.month,reading.day⟩ reading.hour reading.minute reading.second := by
  rw [dateUtcFull valid.year.1 valid.year.2 valid.real clock] at utc
  have is := Option.some.inj utc
  have second : instant / 1000 = secondOf
      (atTime ⟨fullYear reading.year,reading.month,reading.day⟩ reading.hour reading.minute reading.second) := by
    rw [← is]
    simp only [secondOf,atTime,Date.number,clockMs,msPerDay]
    omega
  rw [second]
  exact readingOfSecond (l := atTime ⟨fullYear reading.year,reading.month,reading.day⟩ reading.hour reading.minute
    reading.second) valid.real clock

theorem UntilDate.full {date : LocalDate} (valid : UntilDate date) :
    UntilDate ⟨fullYear date.year,date.month,date.day⟩ := by
  have bounds := fullYearBounds valid.year.1 valid.year.2
  refine ⟨⟨show 0 ≤ fullYear date.year by omega,bounds.2⟩,valid.month,valid.first,fun length found => ?_⟩
  have same := (fullYearSame (show 0 ≤ fullYear date.year by omega)).mpr bounds.1
  rw [daysInMonthFull (by omega) bounds.2 valid.month.1 valid.month.2] at found
  simp only [same] at found
  exact Option.some.inj found ▸ valid.real.2.2.2

theorem untilRead {moment : Until} (valid : ValidUntil moment) : parseUntil (untilValue moment) = some moment := by
  have timed : ∀ {reading : LocalDateTime} (rest : List Char), UntilDate reading.toDate → LocalDateTime.Clock reading →
      parseUntilDate (((dateText reading.toDate).toList ++ 'T' :: ((clockText reading).toList ++ rest)).take 8) =
        some reading.toDate ∧
      ((dateText reading.toDate).toList ++ 'T' :: ((clockText reading).toList ++ rest)).drop 8 =
        'T' :: ((clockText reading).toList ++ rest) ∧
      parseUntilTime reading.toDate (((clockText reading).toList ++ rest).take 6) = some reading ∧
      ((clockText reading).toList ++ rest).drop 6 = rest := by
    intro reading rest date clock
    obtain ⟨length,read⟩ := untilDateText date
    obtain ⟨length',read'⟩ := untilTimeText clock
    rw [List.take_left' length,List.drop_left' length,List.take_left' length',List.drop_left' length']
    exact ⟨read,rfl,read',rfl⟩
  cases moment with
  | date date =>
    obtain ⟨length,read⟩ := untilDateText valid
    simp only [parseUntil,untilValue,List.take_of_length_le (Nat.le_of_eq length),
      List.drop_of_length_le (Nat.le_of_eq length),read,bind,Option.bind_some]
  | reading reading =>
    obtain ⟨date,rest,time,last⟩ := timed [] valid.1 valid.2
    have chars : (untilValue (.reading reading)).toList =
        (dateText reading.toDate).toList ++ 'T' :: ((clockText reading).toList ++ []) := by
      simp [untilValue]
    simp only [parseUntil,chars,date,rest,time,last,bind,Option.bind_some]
  | utc instant =>
    obtain ⟨reading,there,clock,utc⟩ := valid
    have is := utcReading there clock utc
    obtain ⟨date,rest,time,last⟩ := @timed (readingOf (instant / 1000)) ['Z'] (by rw [is]; exact there.full)
      (by rw [is]; exact clock)
    have chars : (untilValue (.utc instant)).toList = (dateText (readingOf (instant / 1000)).toDate).toList ++
        'T' :: ((clockText (readingOf (instant / 1000))).toList ++ ['Z']) := by
      simp [untilValue]
    have again : dateUtc (readingOf (instant / 1000)).year (readingOf (instant / 1000)).month
        (readingOf (instant / 1000)).day (readingOf (instant / 1000)).hour (readingOf (instant / 1000)).minute
        (readingOf (instant / 1000)).second = some instant := by
      have full := there.full
      have bounds := fullYearBounds there.year.1 there.year.2
      have same := (fullYearSame (show 0 ≤ fullYear reading.year by omega)).mpr bounds.1
      rw [dateUtcFull there.year.1 there.year.2 there.real clock] at utc
      rw [is,← utc]
      refine (dateUtcFull (l := atTime ⟨fullYear reading.year,reading.month,reading.day⟩ reading.hour reading.minute
        reading.second) (show 0 ≤ fullYear reading.year by omega) bounds.2 full.real clock).trans ?_
      change some (dayNumber (fullYear (fullYear reading.year)) reading.month reading.day * msPerDay + clockMs reading) = _
      rw [same]
    simp only [parseUntil,chars,date,rest,time,last,again,bind,Option.bind_some]

def safe (c : Char) : Bool := c ≠ ';' && !Text.isSpace c

def plain (c : Char) : Bool := isDigit c || isUpper c || c = ',' || c = '-'

theorem asciiPlain : ∀ n < 128, plain (Char.ofNat n) = true →
    safe (Char.ofNat n) = true ∧ upperChar (Char.ofNat n) = [Char.ofNat n] ∧ Char.ofNat n ≠ '=' := by
  decide +kernel

theorem plainSource {c : Char} (is : plain c = true) : safe c = true ∧ upperChar c = [c] ∧ c ≠ '=' := by
  have ascii : c.toNat < 128 := by
    simp only [plain,isDigit,isUpper,Bool.or_eq_true,Bool.and_eq_true,decide_eq_true_eq] at is
    rcases is with ((⟨-,le⟩ | ⟨-,le⟩) | rfl) | rfl
    · exact lt_of_le_of_lt (show c.toNat ≤ '9'.toNat from le) (by decide)
    · exact lt_of_le_of_lt (show c.toNat ≤ 'Z'.toNat from le) (by decide)
    · decide
    · decide
  have := asciiPlain c.toNat ascii
  rw [Char.ofNat_toNat] at this
  exact this is

theorem upperPlain {cs : List Char} (all : ∀ c ∈ cs, plain c = true) : toUpperCase cs = String.ofList cs := by
  have same : cs.flatMap upperChar = cs := by
    induction cs with
    | nil => rfl
    | cons c rest ih =>
      rw [List.flatMap_cons,(plainSource (all c List.mem_cons_self)).2.1,ih (fun d mem => all d (List.mem_cons_of_mem c mem))]
      rfl
  rw [toUpperCase,same]

theorem digitPlain {c : Char} (digit : isDigit c = true) : plain c = true := by simp [plain,digit]

theorem plainDigits {cs : List Char} (digits : cs.all isDigit = true) : ∀ c ∈ cs, plain c = true :=
  fun c mem => digitPlain (List.all_eq_true.mp digits c mem)

theorem natDigits (n : Nat) : ∀ c ∈ (Nat.repr n).toList, isDigit c = true := by
  rw [Nat.toList_repr]
  exact fun c mem => Nat.isDigit_of_mem_toDigits (by decide) (by decide) mem

theorem natRead {n : Nat} (one : n ≤ 99) : ((Nat.repr n).toList.length = 1 ∨ (Nat.repr n).toList.length = 2) ∧
    (Nat.repr n).toList.all isDigit = true ∧ digitsValue (Nat.repr n).toList = n := by
  have short := (digitsLength (m := n) (show 0 < 2 by decide)).mpr (by omega)
  have some_ := Nat.length_repr_pos (n := n)
  refine ⟨?_,List.all_eq_true.mpr (natDigits n),?_⟩
  · rw [String.length_toList]
    omega
  · rw [digitsValue,digitsFold,Nat.toList_repr,Nat.ofDigitChars_ten_toDigits]

theorem signedCases (n : Int) : (toString n).toList = (Nat.repr n.natAbs).toList ∧ 0 ≤ n ∨
    (toString n).toList = '-' :: (Nat.repr n.natAbs).toList ∧ n < 0 := by
  rw [Int.toString_eq_repr,Int.repr_eq_if]
  by_cases positive : 0 ≤ n
  · rw [if_pos positive,show n.toNat = n.natAbs by omega]
    exact .inl ⟨rfl,positive⟩
  · rw [if_neg positive,show (-n).toNat = n.natAbs by omega]
    exact .inr ⟨by simp,by omega⟩

theorem signedPlain (n : Int) : ∀ c ∈ (toString n).toList, plain c = true ∧ c ≠ ',' := by
  have digit : ∀ c ∈ (Nat.repr n.natAbs).toList, plain c = true ∧ c ≠ ',' := by
    intro c mem
    refine ⟨digitPlain (natDigits _ c mem),?_⟩
    rintro rfl
    exact absurd (natDigits _ _ mem) (by decide)
  rcases signedCases n with ⟨is,-⟩ | ⟨is,-⟩ <;> rw [is]
  · exact digit
  · intro c mem
    rcases List.mem_cons.mp mem with rfl | later
    · exact ⟨by decide,by decide⟩
    · exact digit c later

theorem signedRead {n : Int} (small : n.natAbs ≤ 99) : signedNumber (toString n).toList = some n := by
  obtain ⟨length,digits,value⟩ := natRead small
  rcases signedCases n with ⟨is,positive⟩ | ⟨is,negative⟩
  · have unsigned : ∀ cs : List Char, cs.all isDigit = true → (cs.length = 1 ∨ cs.length = 2) →
        signedNumber cs = some (digitsValue cs) := by
      intro cs digits length
      have unsigned : ∀ rest, cs ≠ '+' :: rest ∧ cs ≠ '-' :: rest := by
        refine fun rest => ⟨?_,?_⟩ <;> rintro rfl <;> simp [isDigit] at digits
      simp only [signedNumber]
      split
      · exact absurd rfl (unsigned _).1
      · exact absurd rfl (unsigned _).2
      · simp only [digits,Bool.and_true,Bool.or_eq_true,decide_eq_true_eq,if_pos length,Int.one_mul]
    rw [is,unsigned _ digits length,value]
    exact congrArg some (by omega)
  · rw [is]
    simp only [signedNumber,digits,value,Bool.and_true,Bool.or_eq_true,decide_eq_true_eq,if_pos length]
    exact congrArg some (by omega)

theorem itemsJoined {α : Type} {xs : List α} {f : α → String} (some_ : xs ≠ [])
    (apart : ∀ x ∈ xs, ',' ∉ (f x).toList) : items (",".intercalate (xs.map f)) = xs.map (fun x => (f x).toList) := by
  rw [items,String.toList_intercalate,List.map_map]
  refine List.splitOn_intercalate ',' ?_ (by simpa using some_)
  intro item mem
  obtain ⟨x,source,rfl⟩ := List.mem_map.mp mem
  exact apart x source

theorem mapMRead {α β : Type} {f : α → Result β} {g : β → α} {xs : List β} (read : ∀ x ∈ xs, f (g x) = .ok x) :
    (xs.map g).mapM f = .ok xs := by
  induction xs with
  | nil => rfl
  | cons x rest ih =>
    rw [List.map_cons,List.mapM_cons,read x List.mem_cons_self,ih (fun y mem => read y (List.mem_cons_of_mem x mem))]
    rfl

theorem monthRead {n : Int} (low : 1 ≤ n) (high : n ≤ 12) : parseByMonthItem (toString n).toList = .ok n := by
  obtain ⟨length,digits,value⟩ := natRead (n := n.natAbs) (by omega)
  rcases signedCases n with ⟨is,positive⟩ | ⟨is,negative⟩
  · have same : digitsValue (toString n).toList = n := by
      rw [is,value]
      omega
    have bounds : ¬ (n < 1 ∨ 12 < n) := by omega
    rw [← is] at length digits
    have plain_ : (decide ((toString n).toList.length = 1) || decide ((toString n).toList.length = 2)) = true := by
      simpa using length
    simp only [parseByMonthItem,same,digits,plain_]
    simp only [Bool.and_self,Bool.not_true,Bool.false_or,Bool.or_eq_true,decide_eq_true_eq,if_neg bounds]
  · omega

theorem monthDayRead {n : Int} (nonzero : n ≠ 0) (small : n.natAbs ≤ 31) :
    parseByMonthDayItem (toString n).toList = .ok n := by
  have wide : ¬ 31 < n.natAbs := by omega
  rw [parseByMonthDayItem,signedRead (show n.natAbs ≤ 99 by omega)]
  simp [nonzero,wide]

theorem weekdayRead (day : Weekday) : day.name.toList.length = 2 ∧ day.name.toList.all isUpper = true ∧
    weekdayNamed day.name = some day := by
  cases day <;> decide

theorem byDayRead {freq : Frequency} {day : ByDay} (valid : ∀ n, day.ordinal = some n →
    n ≠ 0 ∧ n.natAbs ≤ 53 ∧ freq ≠ .daily ∧ freq ≠ .weekly ∧ (freq = .monthly → n.natAbs ≤ 5)) :
    parseByDayItem freq (byDayText day).toList = .ok day := by
  obtain ⟨weekday,ordinal⟩ := day
  obtain ⟨length,upper,named⟩ := weekdayRead weekday
  have letters : ∀ before : List Char, (before ++ weekday.name.toList).drop ((before ++ weekday.name.toList).length - 2) =
      weekday.name.toList ∧ (before ++ weekday.name.toList).take ((before ++ weekday.name.toList).length - 2) = before := by
    intro before
    have last : (before ++ weekday.name.toList).length - 2 = before.length := by
      rw [List.length_append,length]
      omega
    rw [last]
    exact ⟨List.drop_left,List.take_left⟩
  cases ordinal with
  | none =>
    have found : byDayMatch (byDayText ⟨weekday,none⟩).toList = some (none,weekday) := by cases weekday <;> decide
    simp [parseByDayItem,found]
  | some n =>
    obtain ⟨nonzero,inYear,notDaily,notWeekly,inMonth⟩ := valid n rfl
    obtain ⟨after,before⟩ := letters (toString n).toList
    have some_ : (toString n).toList ≠ [] := by
      rcases signedCases n with ⟨is,-⟩ | ⟨is,-⟩ <;> rw [is] <;> simp
    have found : byDayMatch (byDayText ⟨weekday,some n⟩).toList = some (some n,weekday) := by
      simp only [byDayMatch,byDayText,String.toList_append,after,before,length,upper,String.ofList_toList,named,
        signedRead (show n.natAbs ≤ 99 by omega),if_neg some_]
      rfl
    have wide : ¬ 53 < n.natAbs := by omega
    have monthly : ¬ (freq = .monthly ∧ 5 < n.natAbs) := fun both => absurd (inMonth both.1) (by omega)
    simp [parseByDayItem,found,nonzero,wide,notDaily,notWeekly,monthly]

end FamilyPlatform.RecurrenceRule
