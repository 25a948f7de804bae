import FamilyPlatform.Kernel.RuleText

/-! The canonical text of a rule is read back as the same rule, as far as its numbers
are printed in digits. -/
namespace FamilyPlatform.RecurrenceRule
open JsNumber ZonedTime Civil

def capital (part : String × String) : String × String := (part.1, toUpperCase part.2.toList)

def joined (part : String × String) : String := part.1 ++ "=" ++ part.2

structure Part (part : String × String) : Prop where
  named : part.1.toList ≠ []
  name : ∀ c ∈ part.1.toList, plain c = true
  valued : part.2.toList ≠ []
  value : ∀ c ∈ part.2.toList, safe c = true

theorem upperSome {cs : List Char} (some_ : cs ≠ []) : toUpperCase cs ≠ "" := by
  obtain ⟨c,rest,rfl⟩ := List.exists_cons_of_ne_nil some_
  have letter : upperChar c ≠ [] := by
    unfold upperChar
    repeat' split
    all_goals simp
  simp [toUpperCase,letter]

theorem readPartsText {seen parts : Parts} (each : ∀ p ∈ parts, Part p)
    (distinct : ((seen ++ parts).map Prod.fst).Nodup) :
    readParts seen (parts.map (fun p => (joined p).toList)) = .ok (seen ++ parts.map capital) := by
  induction parts generalizing seen with
  | nil => simp [readParts]
  | cons p rest ih =>
    obtain ⟨named,name,valued,value⟩ := each p List.mem_cons_self
    have noEquals : ∀ c ∈ p.1.toList, decide (c ≠ '=') = true := fun c mem => by
      simpa using (plainSource (name c mem)).2.2
    have segment : (joined p).toList = p.1.toList ++ '=' :: p.2.toList := by simp [joined]
    have before : (joined p).toList.takeWhile (fun c => decide (c ≠ '=')) = p.1.toList := by
      rw [segment,List.takeWhile_append_of_pos noEquals]
      simp
    have after : (joined p).toList.drop (p.1.toList.length + 1) = p.2.toList := by
      rw [segment,List.drop_append]
      simp
    have fresh : partNamed seen p.1 = none := by
      rw [partNamed,List.lookup_eq_none_iff]
      intro q mem
      rw [List.map_append,List.nodup_append] at distinct
      exact bne_iff_ne.mpr (fun same => distinct.2.2 q.1 (List.mem_map_of_mem mem) p.1 (by simp) same.symm)
    have whole : p.1.toList ≠ (joined p).toList := by
      rw [segment]
      intro same
      have := congrArg List.length same
      simp at this
    have next := @ih (seen ++ [capital p]) (fun q mem => each q (List.mem_cons_of_mem p mem)) (by
      simpa [capital] using distinct)
    simp only [List.map_cons,readParts,before,after,upperPlain name,String.ofList_toList]
    rw [if_neg (by simp [named,whole]),if_neg (upperSome valued),if_neg (by simp [fresh])]
    simpa [capital] using next

def optional (name : String) (value : Option String) : Parts := value.toList.map (fun v => (name,v))

theorem lookupOptional {name key : String} {value : Option String} :
    (optional name value).lookup key = if key = name then value else none := by
  cases value with
  | none => simp [optional]
  | some v => by_cases same : key = name <;> simp [optional,same]

def listValue {α : Type} (xs : List α) (f : α → String) : Option String :=
  if xs ≠ [] then some (",".intercalate (xs.map f)) else none

def partsOf (rule : RecurrenceRule) : Parts :=
  optional "FREQ" (some rule.freq.name)
    ++ optional "INTERVAL" (if rule.interval ≠ .finite 1 then some rule.interval.toText else none)
    ++ optional "COUNT" (rule.count.map JsNumber.toText)
    ++ optional "UNTIL" (rule.until.map untilValue)
    ++ optional "BYMONTH" (listValue rule.byMonth toString)
    ++ optional "BYMONTHDAY" (listValue rule.byMonthDay toString)
    ++ optional "BYDAY" (listValue rule.byDay byDayText)
    ++ optional "WKST" (if rule.wkst ≠ .mo then some rule.wkst.name else none)

theorem optionalJoined {name label : String} (same : name ++ "=" = label) (value : Option String) :
    (optional name value).map joined = value.toList.map (fun v => label ++ v) := by
  cases value <;> simp [optional,joined,← same]

theorem toTextParts (rule : RecurrenceRule) : rule.toText = ";".intercalate ((partsOf rule).map joined) := by
  have list : ∀ {α : Type} (label : String) (xs : List α) (f : α → String),
      (if xs ≠ [] then [label ++ ",".intercalate (xs.map f)] else []) =
        (listValue xs f).toList.map (fun v => label ++ v) := by
    intro α label xs f
    cases xs <;> simp [listValue]
  have chosen : ∀ (P : Prop) [Decidable P] (label value : String),
      (if P then [label ++ value] else []) = (if P then some value else none).toList.map (fun v => label ++ v) := by
    intro P _ label value
    split <;> rfl
  unfold toText partsOf
  simp only [List.map_append,optionalJoined (show "FREQ" ++ "=" = "FREQ=" by decide),
    optionalJoined (show "INTERVAL" ++ "=" = "INTERVAL=" by decide),
    optionalJoined (show "COUNT" ++ "=" = "COUNT=" by decide),
    optionalJoined (show "UNTIL" ++ "=" = "UNTIL=" by decide),
    optionalJoined (show "BYMONTH" ++ "=" = "BYMONTH=" by decide),
    optionalJoined (show "BYMONTHDAY" ++ "=" = "BYMONTHDAY=" by decide),
    optionalJoined (show "BYDAY" ++ "=" = "BYDAY=" by decide),
    optionalJoined (show "WKST" ++ "=" = "WKST=" by decide),list,chosen]
  congr 1
  cases rule.count <;> cases rule.until <;> simp [untilTextValue]

theorem safePlain {c : Char} (is : plain c = true) : safe c = true := (plainSource is).1

theorem numberSafe (n : JsNumber) : ∀ c ∈ n.toText.toList, safe c = true := by
  have digits : ∀ m : Nat, ∀ c ∈ (Nat.repr m).toList, safe c = true :=
    fun m c mem => safePlain (digitPlain (natDigits m c mem))
  cases n with
  | infinity => exact List.all_eq_true.mp (by decide)
  | finite m =>
    simp only [JsNumber.toText]
    generalize (List.find? _ _).getD _ = width
    split
    · intro c mem
      rcases List.mem_append.mp (String.toList_append ▸ mem) with digit | zero
      · exact digits _ c digit
      · rw [String.toList_ofList] at zero
        rw [List.eq_of_mem_replicate zero]
        decide
    · intro c mem
      simp only [String.toList_append,List.mem_append,String.toList_ofList] at mem
      rcases mem with (((first | rest) | mark) | power)
      · exact digits _ c (List.mem_of_mem_take first)
      · split at rest
        · simp at rest
        · rcases List.mem_append.mp (String.toList_append ▸ rest) with point | later
          · obtain rfl : c = '.' := by simpa using point
            decide
          · simp only [String.toList_ofList,List.mem_reverse] at later
            exact digits _ c (List.mem_of_mem_drop (List.mem_reverse.mp ((List.dropWhile_sublist _).mem later)))
      · obtain rfl | rfl : c = 'e' ∨ c = '+' := by simpa using mark
        all_goals decide
      · exact digits _ c power

theorem paddedPlain (n : Int) (width : Nat) : ∀ c ∈ (padded n width).toList, plain c = true := by
  intro c mem
  simp only [padded,String.toList_append,String.toList_ofList,List.mem_append] at mem
  rcases mem with zero | digit
  · rw [List.eq_of_mem_replicate zero]
    decide
  · exact (signedPlain n c digit).1

theorem untilPlain (moment : Until) : ∀ c ∈ (untilValue moment).toList, plain c = true := by
  have date : ∀ date : LocalDate, ∀ c ∈ (dateText date).toList, plain c = true := by
    intro date c mem
    simp only [dateText,String.toList_append,List.mem_append] at mem
    rcases mem with (year | month) | day
    · exact paddedPlain _ _ c year
    · exact paddedPlain _ _ c month
    · exact paddedPlain _ _ c day
  have clock : ∀ reading : LocalDateTime, ∀ c ∈ (clockText reading).toList, plain c = true := by
    intro reading c mem
    simp only [clockText,String.toList_append,List.mem_append] at mem
    rcases mem with (hour | minute) | second
    · exact paddedPlain _ _ c hour
    · exact paddedPlain _ _ c minute
    · exact paddedPlain _ _ c second
  cases moment with
  | date d => exact date d
  | reading reading =>
    intro c mem
    simp only [untilValue,String.toList_append,List.mem_append] at mem
    rcases mem with day | mark | time
    · exact date _ c day
    · obtain rfl : c = 'T' := by simpa using mark
      decide
    · exact clock _ c time
  | utc instant =>
    intro c mem
    simp only [untilValue,String.toList_append,List.mem_append] at mem
    rcases mem with day | (mark | time) | zone
    · exact date _ c day
    · obtain rfl : c = 'T' := by simpa using mark
      decide
    · exact clock _ c time
    · obtain rfl : c = 'Z' := by simpa using zone
      decide

theorem byDayPlain (day : ByDay) : ∀ c ∈ (byDayText day).toList, plain c = true ∧ c ≠ ',' := by
  obtain ⟨weekday,ordinal⟩ := day
  have named : ∀ c ∈ weekday.name.toList, plain c = true ∧ c ≠ ',' := by
    have each : weekday.name.toList.all (fun c => decide (plain c = true ∧ c ≠ ',')) = true := by cases weekday <;> decide
    exact fun c mem => of_decide_eq_true (List.all_eq_true.mp each c mem)
  intro c mem
  simp only [byDayText,String.toList_append,List.mem_append] at mem
  rcases mem with before | letters
  · cases ordinal with
    | none => simp at before
    | some n => exact signedPlain n c before
  · exact named c letters

theorem intercalateChars {sep : String} {ss : List String} {c : Char} (mem : c ∈ (sep.intercalate ss).toList) :
    c ∈ sep.toList ∨ ∃ s ∈ ss, c ∈ s.toList := by
  rw [String.toList_intercalate] at mem
  induction ss with
  | nil => simp at mem
  | cons s rest ih =>
    cases rest with
    | nil => exact .inr ⟨s,by simp,by simpa using mem⟩
    | cons next rest =>
      simp only [List.map_cons,List.intercalate_cons_cons,List.mem_append] at mem
      rcases mem with (head | comma) | later
      · exact .inr ⟨s,by simp,head⟩
      · exact .inl comma
      · rcases ih later with comma | ⟨t,there,char⟩
        · exact .inl comma
        · exact .inr ⟨t,List.mem_cons_of_mem s there,char⟩

theorem listPlain {α : Type} {xs : List α} {f : α → String} (each : ∀ x, ∀ c ∈ (f x).toList, plain c = true ∧ c ≠ ',') :
    ∀ c ∈ (",".intercalate (xs.map f)).toList, plain c = true := by
  intro c mem
  rcases intercalateChars mem with comma | ⟨s,there,char⟩
  · obtain rfl : c = ',' := by simpa using comma
    decide
  · obtain ⟨x,-,rfl⟩ := List.mem_map.mp there
    exact (each x c char).1

theorem optionalParts {name : String} {value : Option String} (named : name ∈ supportedParts)
    (safe_ : ∀ v, value = some v → v.toList ≠ [] ∧ ∀ c ∈ v.toList, safe c = true) :
    ∀ p ∈ optional name value, Part p := by
  intro p mem
  obtain ⟨v,there,rfl⟩ := List.mem_map.mp mem
  obtain ⟨some_,each⟩ := safe_ v (by simpa using there)
  have letters : ∀ name ∈ supportedParts, name.toList ≠ [] ∧ name.toList.all plain = true := by decide
  exact ⟨(letters name named).1,List.all_eq_true.mp (letters name named).2,some_,each⟩

theorem numberSome {n : JsNumber} : n.toText.toList ≠ [] := by
  cases n with
  | infinity => decide
  | finite m =>
    simp only [JsNumber.toText]
    split <;> simp

theorem listValueSource {α : Type} {xs : List α} {f : α → String} {v : String} (is : listValue xs f = some v) :
    xs ≠ [] ∧ v = ",".intercalate (xs.map f) := by
  simp only [listValue] at is
  split at is
  · exact ⟨by assumption,(Option.some.inj is).symm⟩
  · cases is

theorem listSome {α : Type} {xs : List α} {f : α → String} (some_ : xs ≠ []) (each : ∀ x, (f x).toList ≠ []) :
    (",".intercalate (xs.map f)).toList ≠ [] := by
  obtain ⟨x,rest,rfl⟩ := List.exists_cons_of_ne_nil some_
  cases rest with
  | nil => simpa using each x
  | cons y rest => simp [String.toList_intercalate]

theorem partsOfParts (rule : RecurrenceRule) : ∀ p ∈ partsOf rule, Part p := by
  have list : ∀ {α : Type} {xs : List α} {f : α → String}, (∀ x, (f x).toList ≠ []) →
      (∀ x, ∀ c ∈ (f x).toList, plain c = true ∧ c ≠ ',') →
      ∀ v, listValue xs f = some v → v.toList ≠ [] ∧ ∀ c ∈ v.toList, safe c = true := by
    intro α xs f some_ each v is
    obtain ⟨nonempty,rfl⟩ := listValueSource is
    exact ⟨listSome nonempty some_,fun c mem => safePlain (listPlain each c mem)⟩
  have number : ∀ n : Int, (toString n).toList ≠ [] := by
    intro n
    rcases signedCases n with ⟨is,-⟩ | ⟨is,-⟩ <;> rw [is] <;> simp
  have day : ∀ day : ByDay, (byDayText day).toList ≠ [] := by
    rintro ⟨weekday,ordinal⟩
    have := (weekdayRead weekday).1
    intro none_
    simp only [byDayText,String.toList_append,List.append_eq_nil_iff] at none_
    simp [none_.2] at this
  unfold partsOf
  simp only [List.forall_mem_append]
  refine ⟨⟨⟨⟨⟨⟨⟨?_,?_⟩,?_⟩,?_⟩,?_⟩,?_⟩,?_⟩,?_⟩ <;> refine optionalParts (by decide) ?_
  · rintro _ ⟨⟩
    have each : rule.freq.name.toList ≠ [] ∧ rule.freq.name.toList.all safe = true := by cases rule.freq <;> decide
    exact ⟨each.1,List.all_eq_true.mp each.2⟩
  · intro v is
    split at is <;> cases is
    exact ⟨numberSome,numberSafe _⟩
  · intro v is
    obtain ⟨n,-,rfl⟩ := Option.map_eq_some_iff.mp is
    exact ⟨numberSome,numberSafe n⟩
  · intro v is
    obtain ⟨moment,-,rfl⟩ := Option.map_eq_some_iff.mp is
    refine ⟨?_,fun c mem => safePlain (untilPlain moment c mem)⟩
    have year : ∀ date : LocalDate, (dateText date).toList ≠ [] := by
      intro date none_
      simp only [dateText,padded,String.toList_append,List.append_eq_nil_iff] at none_
      exact number date.day none_.2.2
    cases moment <;> simp [untilValue,year]
  · exact list number signedPlain
  · exact list number signedPlain
  · exact list day byDayPlain
  · intro v is
    split at is <;> cases is
    have each : rule.wkst.name.toList ≠ [] ∧ rule.wkst.name.toList.all safe = true := by cases rule.wkst <;> decide
    exact ⟨each.1,List.all_eq_true.mp each.2⟩

theorem partsOfNames (rule : RecurrenceRule) : ((partsOf rule).map Prod.fst).Sublist
    ["FREQ","INTERVAL","COUNT","UNTIL","BYMONTH","BYMONTHDAY","BYDAY","WKST"] := by
  have one : ∀ (name : String) (value : Option String), ((optional name value).map Prod.fst).Sublist [name] := by
    intro name value
    cases value <;> simp [optional]
  unfold partsOf
  simp only [List.map_append]
  have all := (((((((one "FREQ" (some rule.freq.name)).append (one "INTERVAL"
    (if rule.interval ≠ .finite 1 then some rule.interval.toText else none))).append
    (one "COUNT" (rule.count.map JsNumber.toText))).append (one "UNTIL" (rule.until.map untilValue))).append
    (one "BYMONTH" (listValue rule.byMonth toString))).append
    (one "BYMONTHDAY" (listValue rule.byMonthDay toString))).append
    (one "BYDAY" (listValue rule.byDay byDayText))).append
    (one "WKST" (if rule.wkst ≠ .mo then some rule.wkst.name else none))
  exact all

def written (text : String) : Result Parts := do
  let body ← bodyOf text
  readParts [] (body.splitOn ';')

theorem trimNone {cs : List Char} (none_ : ∀ c ∈ cs, Text.isSpace c = false) : Text.trimChars cs = cs := by
  have keep : ∀ {xs : List Char}, (∀ c ∈ xs, Text.isSpace c = false) → xs.dropWhile Text.isSpace = xs := by
    intro xs each
    cases xs with
    | nil => rfl
    | cons c rest => simp [each c List.mem_cons_self]
  rw [Text.trimChars,keep none_,keep (fun c mem => none_ c (List.mem_reverse.mp mem)),List.reverse_reverse]

theorem joinedSafe {p : String × String} (part : Part p) : ∀ c ∈ (joined p).toList, safe c = true := by
  intro c mem
  simp only [joined,String.toList_append,List.mem_append] at mem
  rcases mem with (name | equals) | value
  · exact safePlain (part.name c name)
  · obtain rfl : c = '=' := by simpa using equals
    decide
  · exact part.value c value

theorem bodyOfParts {value : String} {rest : Parts} (each : ∀ p ∈ ("FREQ",value) :: rest, Part p) :
    bodyOf (";".intercalate ((("FREQ",value) :: rest).map joined)) =
      .ok (";".intercalate ((("FREQ",value) :: rest).map joined)).toList := by
  have start : ∃ after, (";".intercalate ((("FREQ",value) :: rest).map joined)).toList =
      'F' :: 'R' :: 'E' :: 'Q' :: '=' :: after := by
    cases rest with
    | nil => exact ⟨value.toList,by simp [joined]⟩
    | cons p rest => exact ⟨_,by simp [joined,String.toList_intercalate]; rfl⟩
  have spaces : ∀ c ∈ (";".intercalate ((("FREQ",value) :: rest).map joined)).toList, Text.isSpace c = false := by
    intro c mem
    rcases intercalateChars mem with separator | ⟨s,there,char⟩
    · obtain rfl : c = ';' := by simpa using separator
      decide
    · obtain ⟨p,source,rfl⟩ := List.mem_map.mp there
      have := joinedSafe (each p source) c char
      simp only [safe,Bool.and_eq_true,Bool.not_eq_true'] at this
      exact this.2
  obtain ⟨after,is⟩ := start
  have property : propertyMatch ('F' :: 'R' :: 'E' :: 'Q' :: '=' :: after) = none := by
    have letters : 'F'.isAlpha ∧ 'R'.isAlpha ∧ 'E'.isAlpha ∧ 'Q'.isAlpha ∧ ¬ '='.isAlpha := by decide
    simp [propertyMatch,letters]
  rw [is] at spaces
  simp only [bodyOf,is,trimNone spaces,property]
  simp

theorem toTextWritten (rule : RecurrenceRule) : written rule.toText = .ok ((partsOf rule).map capital) := by
  have parts := partsOfParts rule
  have distinct := (partsOfNames rule).nodup (by decide)
  obtain ⟨rest,is⟩ : ∃ rest, partsOf rule = ("FREQ",rule.freq.name) :: rest := ⟨_,rfl⟩
  rw [toTextParts]
  rw [is] at parts distinct ⊢
  have split_ : (";".intercalate ((("FREQ",rule.freq.name) :: rest).map joined)).toList.splitOn ';' =
      (("FREQ",rule.freq.name) :: rest).map (fun p => (joined p).toList) := by
    rw [String.toList_intercalate,List.map_map]
    refine List.splitOn_intercalate ';' ?_ (by simp)
    intro segment mem
    obtain ⟨p,source,rfl⟩ := List.mem_map.mp mem
    intro separator
    exact absurd (joinedSafe (parts p source) ';' separator) (by decide)
  have read := @readPartsText [] _ parts (by simpa using distinct)
  rw [written,bodyOfParts parts]
  change readParts [] (List.splitOn ';' _) = _
  rw [split_]
  exact read

def readRule (seen : Parts) : Result RecurrenceRuleProps := do
  checkNames seen
  let freq ← parseFreq seen
  let interval ← parseInterval seen
  let count ← parseCount seen
  let moment ← parseUntilPart seen
  checkSingle count moment
  let byDay ← parseByDay freq seen
  let byMonthDay ← parseByMonthDay freq seen
  let byMonth ← parseByMonth seen
  let wkst ← parseWkst seen
  return ⟨freq,interval,count,moment,byDay,byMonthDay,byMonth,wkst⟩

theorem parsePropsWritten (text : String) : parseProps text = written text >>= readRule := by
  simp only [parseProps,written,bind_assoc]
  rfl

theorem partNamedCapital (parts : Parts) (name : String) :
    partNamed (parts.map capital) name = (parts.lookup name).map (fun v => toUpperCase v.toList) := by
  induction parts with
  | nil => rfl
  | cons p rest ih =>
    obtain ⟨key,value⟩ := p
    simp only [partNamed,List.map_cons,capital,List.lookup_cons] at ih ⊢
    by_cases same : (name == key) = true
    · simp only [same,Option.map_some]
    · simp only [same,ih]

def small : JsNumber → Bool
  | .finite n => n < 10 ^ 21
  | .infinity => false

def exactly : JsNumber → Bool
  | .finite n => nearest n = .finite n
  | .infinity => true

theorem numberCapital {n : JsNumber} (one : n.atLeastOne = true) (exact_ : exactly n = true) :
    parsePositiveInteger (toUpperCase n.toText.toList) = if small n then some n else none := by
  cases n with
  | infinity => decide
  | finite m =>
    simp only [exactly,decide_eq_true_eq] at exact_
    simp only [atLeastOne,decide_eq_true_eq] at one
    by_cases below : m < 10 ^ 21
    · rw [upperPlain (plainDigits (numberDigits exact_ one below)),String.ofList_toList,positiveNumber exact_ one below]
      simp only [small,below,decide_true,if_true]
    · have letter := toTextExponent exact_ (Nat.not_lt.mp below)
      have capital_ : 'E' ∈ (toUpperCase (JsNumber.toText (.finite m)).toList).toList := by
        rw [toUpperCase,String.toList_ofList]
        exact List.mem_flatMap.mpr ⟨'e',letter,by decide⟩
      have digits : (toUpperCase (JsNumber.toText (.finite m)).toList).toList.all isDigit = false :=
        List.all_eq_false.mpr ⟨'E',capital_,by decide⟩
      simp only [parsePositiveInteger,digits,small,below]
      simp

/- What reading a text has made sure of, beyond the rule's own checks. -/
structure Exact (rule : RecurrenceRule) : Prop where
  interval : exactly rule.interval = true
  count : ∀ n, rule.count = some n → exactly n = true
  moment : ∀ moment, rule.until = some moment → ValidUntil moment

theorem positiveExactly {value : String} {n : JsNumber} (read : parsePositiveInteger value = some n) :
    exactly n = true ∧ (small n = true ↔ digitsValue value.toList < 10 ^ 21 - 65536) := by
  simp only [parsePositiveInteger] at read
  split at read <;> cases read
  have value_ : digitsValue value.toList = (Nat.ofDigitChars 10 value.toList 0 : Int) := rfl
  rw [value_,ofDigits,digitsFold]
  generalize Nat.ofDigitChars 10 value.toList 0 = x
  cases rounded : nearest x with
  | infinity =>
    have := nearestInfinity rounded
    refine ⟨rfl,by simp [small],?_⟩
    omega
  | finite n =>
    refine ⟨by simpa [exactly] using nearestAgain rounded,?_⟩
    have := nearestBelow rounded
    simp only [small,decide_eq_true_eq,this]
    omega

theorem readRuleSource {seen : Parts} {props : RecurrenceRuleProps} (read : readRule seen = .ok props) :
    checkNames seen = .ok () ∧ parseFreq seen = .ok props.freq ∧ parseInterval seen = .ok props.interval ∧
      parseCount seen = .ok props.count ∧ parseUntilPart seen = .ok props.until := by
  unfold readRule at read
  obtain ⟨_,names,read⟩ := bindSource read
  obtain ⟨freq,named,read⟩ := bindSource read
  obtain ⟨interval,gap,read⟩ := bindSource read
  obtain ⟨count,counted,read⟩ := bindSource read
  obtain ⟨moment,last,read⟩ := bindSource read
  obtain ⟨_,-,read⟩ := bindSource read
  obtain ⟨byDay,-,read⟩ := bindSource read
  obtain ⟨byMonthDay,-,read⟩ := bindSource read
  obtain ⟨byMonth,-,read⟩ := bindSource read
  obtain ⟨wkst,-,read⟩ := bindSource read
  cases read
  exact ⟨names,named,gap,counted,last⟩

theorem parseWritten {text : String} {rule : RecurrenceRule} (read : parse text = .ok rule) :
    ∃ seen, written text = .ok seen ∧ readRule seen = .ok rule.toRecurrenceRuleProps :=
  bindSource (parsePropsWritten text ▸ parseSource read)

theorem intervalExactly {seen : Parts} {n : JsNumber} (read : parseInterval seen = .ok n) : exactly n = true ∧
    (small n = true ↔ ∀ value, partNamed seen "INTERVAL" = some value → digitsValue value.toList < 10 ^ 21 - 65536) := by
  simp only [parseInterval] at read
  split at read
  · rename_i absent
    cases read
    simp [absent,exactly,small,nearest]
  · rename_i value there
    split at read <;> cases read
    have := positiveExactly (by assumption)
    simpa [there] using this

theorem countExactly {seen : Parts} {found : Option JsNumber} (read : parseCount seen = .ok found) :
    (∀ n, found = some n → exactly n = true) ∧ ((∀ n, found = some n → small n = true) ↔
      ∀ value, partNamed seen "COUNT" = some value → digitsValue value.toList < 10 ^ 21 - 65536) := by
  simp only [parseCount] at read
  split at read
  · rename_i absent
    cases read
    simp [absent]
  · rename_i value there
    split at read <;> cases read
    have := positiveExactly (by assumption)
    simpa [there] using this

theorem untilPartSource {seen : Parts} {found : Option Until} (read : parseUntilPart seen = .ok found) :
    match partNamed seen "UNTIL" with
    | none => found = none
    | some value => ∃ moment, found = some moment ∧ parseUntil value = some moment := by
  unfold parseUntilPart at read
  cases there : partNamed seen "UNTIL" with
  | none =>
    rw [there] at read
    exact (Except.ok.inj read).symm
  | some value =>
    rw [there] at read
    simp only at read
    split at read <;> cases read
    exact ⟨_,rfl,by assumption⟩

theorem parseExact {text : String} {rule : RecurrenceRule} (read : parse text = .ok rule) : Exact rule := by
  obtain ⟨seen,-,ok⟩ := parseWritten read
  obtain ⟨-,-,interval,count,last⟩ := readRuleSource ok
  refine ⟨(intervalExactly interval).1,(countExactly count).1,fun moment is => ?_⟩
  have source := untilPartSource last
  split at source
  · rw [source] at is
    cases is
  · obtain ⟨_,same,found⟩ := source
    obtain rfl := Option.some.inj (same.symm.trans is)
    exact untilSource found

def partsWritten (rule : RecurrenceRule) : Parts := (partsOf rule).map capital

theorem checkNamesWritten (rule : RecurrenceRule) : checkNames (partsWritten rule) = .ok () := by
  have names : ∀ name ∈ (partsWritten rule).map Prod.fst, name ∉ unsupportedParts ∧ name ∈ supportedParts := by
    have all : ∀ name ∈ ["FREQ","INTERVAL","COUNT","UNTIL","BYMONTH","BYMONTHDAY","BYDAY","WKST"],
        name ∉ unsupportedParts ∧ name ∈ supportedParts := by decide
    intro name mem
    rw [partsWritten,List.map_map] at mem
    exact all name ((partsOfNames rule).subset mem)
  have none_ : ((partsWritten rule).map Prod.fst).find? (· ∈ unsupportedParts) = none :=
    List.find?_eq_none.mpr (fun name mem => by simpa using (names name mem).1)
  have none' : ((partsWritten rule).map Prod.fst).find? (· ∉ supportedParts) = none :=
    List.find?_eq_none.mpr (fun name mem => by simpa using (names name mem).2)
  simp only [checkNames,none_,none']

theorem parseFreqWritten (rule : RecurrenceRule) : parseFreq (partsWritten rule) = .ok rule.freq := by
  have there : (partsOf rule).lookup "FREQ" = some rule.freq.name := by
    simp [partsOf,List.lookup_append,lookupOptional]
  rw [parseFreq,partsWritten,partNamedCapital,there]
  cases rule.freq <;> decide

theorem parseIntervalWritten {rule : RecurrenceRule} (exact_ : Exact rule) : parseInterval (partsWritten rule) =
    if small rule.interval then .ok rule.interval else invalid "INTERVAL must be a positive integer." := by
  have there : (partsOf rule).lookup "INTERVAL" =
      if rule.interval ≠ .finite 1 then some rule.interval.toText else none := by
    simp [partsOf,List.lookup_append,lookupOptional]
  rw [parseInterval,partsWritten,partNamedCapital,there]
  by_cases one : rule.interval = .finite 1
  · simp [one,small]
  · simp only [ne_eq,one,not_false_eq_true,if_true,Option.map_some,numberCapital rule.parsed.interval exact_.interval]
    cases small rule.interval <;> rfl

theorem parseCountWritten {rule : RecurrenceRule} (exact_ : Exact rule) : parseCount (partsWritten rule) =
    if ∀ n, rule.count = some n → small n = true then .ok rule.count
    else invalid "COUNT must be a positive integer." := by
  have there : (partsOf rule).lookup "COUNT" = rule.count.map JsNumber.toText := by
    simp [partsOf,List.lookup_append,lookupOptional]
  rw [parseCount,partsWritten,partNamedCapital,there]
  cases count : rule.count with
  | none => simp
  | some n =>
    simp only [Option.map_some,numberCapital (rule.parsed.count n count) (exact_.count n count),Option.some.injEq,
      forall_eq']
    cases small n <;> rfl

theorem parseUntilWritten {rule : RecurrenceRule} (exact_ : Exact rule) :
    parseUntilPart (partsWritten rule) = .ok rule.until := by
  have there : (partsOf rule).lookup "UNTIL" = rule.until.map untilValue := by
    simp [partsOf,List.lookup_append,lookupOptional]
  rw [parseUntilPart,partsWritten,partNamedCapital,there]
  cases last : rule.until with
  | none => rfl
  | some moment =>
    simp only [Option.map_some,upperPlain (untilPlain moment),String.ofList_toList,untilRead (exact_.moment moment last)]

theorem listWritten {α : Type} {xs : List α} {f : α → String} {g : List Char → Result α}
    (each : ∀ x, ∀ c ∈ (f x).toList, plain c = true ∧ c ≠ ',') (read : ∀ x ∈ xs, g (f x).toList = .ok x) :
    (match (listValue xs f).map (fun v => toUpperCase v.toList) with
      | none => (.ok [] : Result (List α))
      | some value => (items value).mapM g) = .ok xs := by
  cases is : listValue xs f with
  | none =>
    have empty : xs = [] := by
      by_contra some_
      simp [listValue,some_] at is
    rw [empty]
    rfl
  | some v =>
    obtain ⟨some_,rfl⟩ := listValueSource is
    simp only [Option.map_some,upperPlain (listPlain each),String.ofList_toList]
    rw [itemsJoined some_ (fun x _ comma => (each x ',' comma).2 rfl)]
    exact mapMRead read

theorem parseByDayWritten (rule : RecurrenceRule) : parseByDay rule.freq (partsWritten rule) = .ok rule.byDay := by
  have there : (partsOf rule).lookup "BYDAY" = listValue rule.byDay byDayText := by
    simp [partsOf,List.lookup_append,lookupOptional]
  rw [parseByDay,partsWritten,partNamedCapital,there]
  exact listWritten byDayPlain (fun day mem => byDayRead (rule.parsed.ordinal day mem))

theorem parseByMonthDayWritten (rule : RecurrenceRule) :
    parseByMonthDay rule.freq (partsWritten rule) = .ok rule.byMonthDay := by
  have there : (partsOf rule).lookup "BYMONTHDAY" = listValue rule.byMonthDay toString := by
    simp [partsOf,List.lookup_append,lookupOptional]
  have read := @listWritten _ rule.byMonthDay toString parseByMonthDayItem signedPlain
    (fun day mem => monthDayRead (rule.parsed.monthDay day mem).1 (rule.parsed.monthDay day mem).2)
  rw [parseByMonthDay,partsWritten,partNamedCapital,there]
  by_cases weekly : rule.freq = .weekly
  · rw [rule.parsed.weekly weekly]
    rfl
  · simp only [if_neg weekly]
    exact read

theorem parseByMonthWritten (rule : RecurrenceRule) : parseByMonth (partsWritten rule) = .ok rule.byMonth := by
  have there : (partsOf rule).lookup "BYMONTH" = listValue rule.byMonth toString := by
    simp [partsOf,List.lookup_append,lookupOptional]
  rw [parseByMonth,partsWritten,partNamedCapital,there]
  exact listWritten signedPlain (fun month mem => monthRead (rule.parsed.month month mem).1 (rule.parsed.month month mem).2)

theorem parseWkstWritten (rule : RecurrenceRule) : parseWkst (partsWritten rule) = .ok rule.wkst := by
  have there : (partsOf rule).lookup "WKST" = if rule.wkst ≠ .mo then some rule.wkst.name else none := by
    simp [partsOf,List.lookup_append,lookupOptional]
  rw [parseWkst,partsWritten,partNamedCapital,there]
  cases rule.wkst <;> decide

def Small (rule : RecurrenceRule) : Prop :=
  small rule.interval = true ∧ ∀ n, rule.count = some n → small n = true

theorem parsePropsAgain (rule : RecurrenceRule) : parseProps rule.toText = readRule (partsWritten rule) := by
  rw [parsePropsWritten,toTextWritten]
  rfl

theorem againSmall {rule other : RecurrenceRule} (exact_ : Exact rule) (read : parse rule.toText = .ok other) :
    Small rule := by
  obtain ⟨-,-,interval,count,-⟩ := readRuleSource (parsePropsAgain rule ▸ parseSource read)
  rw [parseIntervalWritten exact_] at interval
  rw [parseCountWritten exact_] at count
  split at interval
  · split at count
    · exact ⟨by assumption,by assumption⟩
    · cases count
  · cases interval

theorem parseToText {rule : RecurrenceRule} (exact_ : Exact rule) : parse rule.toText = .ok rule ↔ Small rule := by
  refine ⟨againSmall exact_,?_⟩
  rintro ⟨interval,count⟩
  have single : checkSingle rule.count rule.until = .ok () := by
    rcases rule.parsed.single with none_ | none_ <;> simp [checkSingle,none_]
  have props : parseProps rule.toText = .ok rule.toRecurrenceRuleProps := by
    rw [parsePropsAgain]
    simp only [readRule,checkNamesWritten,parseFreqWritten,parseIntervalWritten exact_,parseCountWritten exact_,
      parseUntilWritten exact_,parseByDayWritten,parseByMonthDayWritten,parseByMonthWritten,parseWkstWritten,
      if_pos interval,if_pos count,single,bind,Except.bind]
    rfl
  unfold parse
  split
  · rename_i p read
    obtain rfl := Except.ok.inj (read.symm.trans props)
    rfl
  · rename_i e read
    cases read.symm.trans props

theorem parseAgain {rule other : RecurrenceRule} (exact_ : Exact rule) (read : parse rule.toText = .ok other) :
    other = rule :=
  Except.ok.inj (read.symm.trans ((parseToText exact_).mpr (againSmall exact_ read)))

def untilReading (value : String) : Option LocalDateTime := do
  let date ← parseUntilDate (value.toList.take 8)
  match value.toList.drop 8 with
  | 'T' :: time => parseUntilTime date (time.take 6)
  | _ => none

/- The rule is read back the same from its own text, and its UTC instant is the reading that stands
in the text it came from. -/
structure Faithful (text : String) (rule : RecurrenceRule) : Prop where
  again : parse rule.toText = .ok rule
  fixed : ∀ other, parse rule.toText = .ok other → other.toText = rule.toText
  utc : ∀ seen value reading instant, written text = .ok seen → partNamed seen "UNTIL" = some value →
    untilReading value = some reading → rule.until = some (.utc instant) → instant = secondOf reading * 1000

/- What a text may hold for that: numbers that stay below 10^21, and no UTC year before 100. -/
structure Portable (seen : Parts) : Prop where
  interval : ∀ value, partNamed seen "INTERVAL" = some value → digitsValue value.toList < 10 ^ 21 - 65536
  count : ∀ value, partNamed seen "COUNT" = some value → digitsValue value.toList < 10 ^ 21 - 65536
  year : ∀ value, partNamed seen "UNTIL" = some value → value.toList.getLast? = some 'Z' →
    100 ≤ digitsValue (value.toList.take 4)

theorem UntilDate.written {date : LocalDate} (valid : UntilDate date) : date.Real := by
  have real := valid.real
  have low := valid.year.1
  refine ⟨real.1,real.2.1,real.2.2.1,le_trans real.2.2.2 ?_⟩
  change monthLength (fullYear date.year) date.month ≤ monthLength date.year date.month
  have leaps : leap (fullYear date.year) = true → leap date.year = true := by
    have full : fullYear date.year = 1900 + date.year ∧ date.year ≤ 99 ∨ fullYear date.year = date.year := by
      unfold fullYear
      split <;> omega
    simp only [leap,Bool.and_eq_true,Bool.or_eq_true,decide_eq_true_eq]
    omega
  simp only [monthLength]
  split
  · split
    · rw [if_pos (leaps (by assumption))]
    · split <;> omega
  · exact le_refl _

theorem utcSecond {reading : LocalDateTime} {instant : Int} (valid : UntilDate reading.toDate)
    (clock : LocalDateTime.Clock reading)
    (utc : dateUtc reading.year reading.month reading.day reading.hour reading.minute reading.second = some instant) :
    instant = secondOf reading * 1000 ↔ 100 ≤ reading.year := by
  have is := utcReading valid clock utc
  constructor
  · intro same
    rw [same,Int.mul_ediv_cancel _ (by decide),readingOfSecond valid.written clock] at is
    exact (fullYearSame valid.year.1).mp (congrArg (fun l : LocalDateTime => l.year) is).symm
  · intro modern
    rw [dateUtcFull valid.year.1 valid.year.2 valid.real clock] at utc
    rw [← Option.some.inj utc,(fullYearSame valid.year.1).mpr modern]
    exact secondMs reading

theorem untilDateDigits {cs : List Char} {date : LocalDate} (read : parseUntilDate cs = some date) :
    cs.length = 8 ∧ cs.all isDigit = true ∧ date.year = digitsValue (cs.take 4) := by
  simp only [parseUntilDate] at read
  split at read
  · cases read
  rename_i digits
  simp only [Bool.or_eq_true,decide_eq_true_eq,not_or,ne_eq,Decidable.not_not,Bool.not_eq_eq_eq_not,Bool.not_true,
    Bool.not_eq_false] at digits
  split at read
  · cases read
  split at read
  · split at read <;> cases read
    exact ⟨digits.1,digits.2,rfl⟩
  · cases read
    exact ⟨digits.1,digits.2,rfl⟩

theorem untilTimeDigits {date : LocalDate} {cs : List Char} {reading : LocalDateTime}
    (read : parseUntilTime date cs = some reading) : cs.length = 6 ∧ cs.all isDigit = true := by
  simp only [parseUntilTime] at read
  split at read
  · cases read
  rename_i digits
  simpa only [Bool.or_eq_true,decide_eq_true_eq,not_or,ne_eq,Decidable.not_not,Bool.not_eq_eq_eq_not,Bool.not_true,
    Bool.not_eq_false] using digits

theorem lastDigit {cs : List Char} (digits : cs.all isDigit = true) : cs.getLast? ≠ some 'Z' :=
  fun last => absurd (List.all_eq_true.mp digits 'Z' (List.mem_of_getLast? last)) (by decide)

theorem utcSource {value : String} {moment : Until} (read : parseUntil value = some moment) :
    (value.toList.getLast? ≠ some 'Z' ∧ ∀ instant, moment ≠ .utc instant) ∨
    (value.toList.getLast? = some 'Z' ∧ ∃ reading instant, moment = .utc instant ∧ untilReading value = some reading ∧
      (instant = secondOf reading * 1000 ↔ 100 ≤ digitsValue (value.toList.take 4))) := by
  obtain ⟨date,there,cases⟩ := parseUntilSource read
  obtain ⟨length,digits,year⟩ := untilDateDigits there
  have whole := List.take_append_drop 8 value.toList
  rcases cases with ⟨none_,rfl⟩ | ⟨time,reading,rest,timed,ends⟩
  · refine .inl ⟨?_,by simp⟩
    rw [← whole,none_,List.append_nil]
    exact lastDigit digits
  · have timeWhole := List.take_append_drop 6 time
    have ending : value.toList.getLast? = time.getLast? := by
      obtain ⟨length',-⟩ := untilTimeDigits timed
      have some_ : time ≠ [] := by
        rintro rfl
        simp at length'
      rw [← whole,rest,List.getLast?_append]
      simp [List.getLast?_cons,List.getLast?_eq_some_getLast some_]
    rw [ending]
    rcases ends with ⟨none_,rfl⟩ | ⟨zone,instant,rfl,utc⟩
    · refine .inl ⟨?_,by simp⟩
      rw [none_,List.append_nil] at timeWhole
      rw [← timeWhole]
      exact lastDigit (untilTimeDigits timed).2
    · obtain ⟨sameDate,clock⟩ := untilTimeSource timed
      have valid := (untilDateSource there).1
      refine .inr ⟨by rw [← timeWhole,zone]; simp,reading,instant,rfl,?_,?_⟩
      · simp only [untilReading,there,rest,bind,Option.bind_some,timed]
      · rw [utcSecond (sameDate ▸ valid) clock utc]
        have : reading.year = digitsValue (value.toList.take 4) := by
          rw [show reading.year = date.year from congrArg (fun d : LocalDate => d.year) sameDate,year,List.take_take]
          rfl
        rw [this]

theorem faithful {text : String} {seen : Parts} {rule : RecurrenceRule} (read : parse text = .ok rule)
    (text_ : written text = .ok seen) : Faithful text rule ↔ Portable seen := by
  have exact_ := parseExact read
  obtain ⟨_,same,ok⟩ := parseWritten read
  obtain rfl := Except.ok.inj (same.symm.trans text_)
  obtain ⟨-,-,interval,count,last⟩ := readRuleSource ok
  have gap := (intervalExactly interval).2
  have counted := (countExactly count).2
  have source := untilPartSource last
  constructor
  · rintro ⟨again,-,utc⟩
    obtain ⟨gapSmall,countSmall⟩ := (parseToText exact_).mp again
    refine ⟨gap.mp gapSmall,counted.mp countSmall,fun value there zone => ?_⟩
    rw [there] at source
    obtain ⟨moment,is,found⟩ := source
    rcases utcSource found with ⟨other,-⟩ | ⟨-,reading,instant,rfl,reads,year⟩
    · exact absurd zone other
    · exact year.mp (utc _ value reading instant text_ there reads is)
  · rintro ⟨gapSmall,countSmall,year⟩
    have again := (parseToText exact_).mpr ⟨gap.mpr gapSmall,counted.mpr countSmall⟩
    refine ⟨again,fun other found => ?_,fun seen' value reading instant text' there reads is => ?_⟩
    · rw [again] at found
      cases found
      rfl
    · obtain rfl := Except.ok.inj (text'.symm.trans text_)
      rw [there] at source
      obtain ⟨moment,is',found⟩ := source
      obtain rfl := Option.some.inj (is'.symm.trans is)
      rcases utcSource found with ⟨-,other⟩ | ⟨zone,reading',instant',same',reads',modern⟩
      · exact absurd rfl (other instant)
      · cases same'
        obtain rfl := Option.some.inj (reads'.symm.trans reads)
        exact modern.mpr (year value there zone)

theorem lastFridaysFaithful : ∃ rule, parse "FREQ=MONTHLY;BYDAY=-1FR;UNTIL=20261231T235959Z" = .ok rule ∧
    Faithful "FREQ=MONTHLY;BYDAY=-1FR;UNTIL=20261231T235959Z" rule := by
  have ok : (parse "FREQ=MONTHLY;BYDAY=-1FR;UNTIL=20261231T235959Z").isOk = true := by decide +kernel
  cases read : parse "FREQ=MONTHLY;BYDAY=-1FR;UNTIL=20261231T235959Z" with
  | error e =>
    rw [read] at ok
    cases ok
  | ok rule =>
    have parts : written "FREQ=MONTHLY;BYDAY=-1FR;UNTIL=20261231T235959Z" =
        .ok [("FREQ","MONTHLY"),("BYDAY","-1FR"),("UNTIL","20261231T235959Z")] := by decide +kernel
    exact ⟨rule,rfl,(faithful read parts).mpr ⟨by decide,by decide,by decide⟩⟩

/- The count is printed with an exponent, and the year 50 is taken as 1950. -/
theorem printedApart :
    (∃ rule, parse "FREQ=DAILY;COUNT=1000000000000000000000" = .ok rule ∧ rule.toText = "FREQ=DAILY;COUNT=1e+21" ∧
      parse rule.toText = invalid "COUNT must be a positive integer.") ∧
    ∃ rule, parse "FREQ=DAILY;UNTIL=00500101T000000Z" = .ok rule ∧
      rule.until = some (.utc (secondOf (atTime ⟨1950,1,1⟩ 0 0 0) * 1000)) ∧
      ¬ Faithful "FREQ=DAILY;UNTIL=00500101T000000Z" rule := by
  constructor
  · have text : (parse "FREQ=DAILY;COUNT=1000000000000000000000").map toText = .ok "FREQ=DAILY;COUNT=1e+21" := by
      decide +kernel
    cases read : parse "FREQ=DAILY;COUNT=1000000000000000000000" with
    | error e =>
      rw [read] at text
      cases text
    | ok rule =>
      rw [read] at text
      have printed := Except.ok.inj text
      exact ⟨rule,rfl,printed,printed ▸ (by decide +kernel)⟩
  · have last : (parse "FREQ=DAILY;UNTIL=00500101T000000Z").map (fun rule => rule.until) =
        .ok (some (.utc (secondOf (atTime ⟨1950,1,1⟩ 0 0 0) * 1000))) := by decide +kernel
    cases read : parse "FREQ=DAILY;UNTIL=00500101T000000Z" with
    | error e =>
      rw [read] at last
      cases last
    | ok rule =>
      rw [read] at last
      have is := Except.ok.inj last
      refine ⟨rule,rfl,is,fun whole => ?_⟩
      have moved := whole.utc [("FREQ","DAILY"),("UNTIL","00500101T000000Z")] "00500101T000000Z" (atTime ⟨50,1,1⟩ 0 0 0)
        _ (by decide +kernel) (by decide) (by decide) is
      exact absurd moved (by decide)

end FamilyPlatform.RecurrenceRule
