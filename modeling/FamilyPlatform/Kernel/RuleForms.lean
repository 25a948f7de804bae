import FamilyPlatform.Kernel.RuleRoundTrip

/-! The texts that the same rule is read from: its parts in another order, in letters of
another case, with or without the name of the property. -/
namespace FamilyPlatform.RecurrenceRule
open ZonedTime

/- The rule that is read, if one is; why a text is refused is left open. -/
def outcome (text : String) : Option RecurrenceRule := (parse text).toOption

def propertyOf (body : List Char) : List Char :=
  match propertyMatch body with
  | none => []
  | some (name, _) => name ++ [':']

def segmentsOf (text : String) : List (List Char) :=
  let body := Text.trimChars text.toList
  (body.drop (propertyOf body).length).splitOn ';'

def partOf (segment : List Char) : Option (String × String) :=
  let before := segment.takeWhile (· ≠ '=')
  let value := toUpperCase (segment.drop (before.length + 1))
  if before = [] || before = segment then none else if value = "" then none else some (toUpperCase before, value)

structure InSubset (rule : RecurrenceRule) : Prop where
  interval : rule.interval.atLeastOne = true
  count : ∀ n, rule.count = some n → n.atLeastOne = true
  single : rule.count = none ∨ rule.until = none
  plainDays : rule.freq = .daily ∨ rule.freq = .weekly → ∀ day ∈ rule.byDay, day.ordinal = none
  ordinal : ∀ day ∈ rule.byDay, ∀ n, day.ordinal = some n → n ≠ 0 ∧ n.natAbs ≤ 53
  monthly : rule.freq = .monthly → ∀ day ∈ rule.byDay, ∀ n, day.ordinal = some n → n.natAbs ≤ 5
  weekly : rule.freq = .weekly → rule.byMonthDay = []
  monthDay : ∀ day ∈ rule.byMonthDay, day ≠ 0 ∧ day.natAbs ≤ 31
  month : ∀ month ∈ rule.byMonth, 1 ≤ month ∧ month ≤ 12
  moment : ∀ moment, rule.until = some moment → match moment with
    | .date date => date.Real
    | .reading reading => reading.toDate.Real ∧ LocalDateTime.Clock reading
    | .utc instant => ∃ reading : LocalDateTime, reading.toDate.Real ∧ LocalDateTime.Clock reading ∧
        dateUtc reading.year reading.month reading.day reading.hour reading.minute reading.second = some instant

theorem outcomeProps {text text' : String} (same : (parseProps text).toOption = (parseProps text').toOption) :
    outcome text = outcome text' := by
  have props : ∀ text, (outcome text).map RecurrenceRule.toRecurrenceRuleProps = (parseProps text).toOption := by
    intro text
    unfold outcome parse
    split
    · rename_i read
      exact (congrArg Except.toOption read).symm
    · rename_i read
      exact (congrArg Except.toOption read).symm
  have injective : Function.Injective RecurrenceRule.toRecurrenceRuleProps := by
    rintro ⟨p,-⟩ ⟨q,-⟩ rfl
    rfl
  exact Option.map_injective injective ((props text).trans (same.trans (props text').symm))

theorem readPartsIff {segments : List (List Char)} {seen out : Parts} (distinct : (seen.map Prod.fst).Nodup) :
    readParts seen segments = .ok out ↔ (∀ segment ∈ segments, (partOf segment).isSome = true) ∧
      out = seen ++ segments.filterMap partOf ∧ (out.map Prod.fst).Nodup := by
  induction segments generalizing seen with
  | nil =>
    simp only [readParts,Except.ok.injEq,List.filterMap_nil,List.append_nil,List.not_mem_nil,false_implies,
      implies_true,true_and]
    exact ⟨fun same => ⟨same.symm,same ▸ distinct⟩,fun both => both.1.symm⟩
  | cons segment rest ih =>
    simp only [readParts,List.forall_mem_cons,List.filterMap_cons]
    unfold partOf
    simp only
    split
    · simp [invalid]
    split
    · simp [invalid]
    generalize toUpperCase (segment.takeWhile (· ≠ '=')) = name
    generalize toUpperCase (segment.drop _) = value
    split
    · rename_i twice
      have inside : name ∈ seen.map Prod.fst := by
        simpa [partNamed] using twice
      refine iff_of_false (by simp [invalid]) ?_
      rintro ⟨-,is,apart⟩
      rw [is,List.map_append,List.nodup_append] at apart
      exact apart.2.2 name inside name (by simp) rfl
    · rename_i once
      have outside : name ∉ seen.map Prod.fst := by
        simpa [partNamed] using once
      have distinct' : ((seen ++ [(name,value)]).map Prod.fst).Nodup := by
        rw [List.map_append,List.nodup_append]
        refine ⟨distinct,by simp,?_⟩
        rintro a left b right rfl
        simp only [List.map_cons,List.map_nil,List.mem_singleton] at right
        exact outside (right ▸ left)
      rw [ih distinct',List.append_assoc]
      simp only [Option.isSome_some,true_and,List.singleton_append]
      rfl

theorem lookupIff {seen : Parts} {name value : String} (distinct : (seen.map Prod.fst).Nodup) :
    partNamed seen name = some value ↔ (name,value) ∈ seen := by
  induction seen with
  | nil => simp [partNamed]
  | cons part rest ih =>
    obtain ⟨key,held⟩ := part
    rw [List.map_cons,List.nodup_cons] at distinct
    simp only [partNamed,List.lookup_cons,List.mem_cons,Prod.mk.injEq] at ih ⊢
    by_cases same : name = key
    · subst same
      simp only [beq_self_eq_true,Option.some.injEq,true_and]
      exact ⟨fun is => .inl is.symm,fun there => there.elim Eq.symm
        (fun later => absurd (List.mem_map_of_mem later) distinct.1)⟩
    · simp only [beq_eq_false_iff_ne.mpr same,ih distinct.2,same,false_and,false_or]

theorem lookupPermuted {seen seen' : Parts} (perm : seen.Perm seen') (distinct : (seen.map Prod.fst).Nodup)
    (name : String) : partNamed seen name = partNamed seen' name :=
  Option.ext (fun _ => (lookupIff distinct).trans
    (perm.mem_iff.trans (lookupIff ((perm.map Prod.fst).nodup_iff.mp distinct)).symm))

theorem checkNamesIff {seen : Parts} : checkNames seen = .ok () ↔
    ∀ name ∈ seen.map Prod.fst, name ∉ unsupportedParts ∧ name ∈ supportedParts := by
  unfold checkNames
  split
  · rename_i name found
    refine iff_of_false (by simp) (fun all => ?_)
    have refused := List.find?_some found
    exact (all name (List.mem_of_find?_eq_some found)).1 (by simpa using refused)
  · rename_i supported
    have plain := List.find?_eq_none.mp supported
    split
    · rename_i name found
      refine iff_of_false (by simp [invalid]) (fun all => ?_)
      have unknown := List.find?_some found
      exact absurd (all name (List.mem_of_find?_eq_some found)).2 (by simpa using unknown)
    · rename_i known
      have named := List.find?_eq_none.mp known
      refine iff_of_true rfl (fun name mem => ⟨by simpa using plain name mem,by simpa using named name mem⟩)

theorem readRuleAlike {seen seen' : Parts} (names : ∀ name, name ∈ seen.map Prod.fst ↔ name ∈ seen'.map Prod.fst)
    (values : ∀ name, partNamed seen name = partNamed seen' name) :
    (readRule seen).toOption = (readRule seen').toOption := by
  have check : checkNames seen = .ok () ↔ checkNames seen' = .ok () := by
    simp only [checkNamesIff,names]
  cases passed : checkNames seen with
  | ok done =>
    have passed' := check.mp passed
    simp only [readRule,passed,passed',parseFreq,parseInterval,parseCount,parseUntilPart,parseByDay,parseByMonthDay,
      parseByMonth,parseWkst,values]
  | error e =>
    cases passed' : checkNames seen' with
    | ok done => cases passed.symm.trans (check.mpr passed')
    | error e' => simp [readRule,passed,passed',bind,Except.bind,Except.toOption]

theorem readPermuted {segments segments' : List (List Char)} (perm : segments.Perm segments') :
    (readParts [] segments >>= readRule).toOption = (readParts [] segments' >>= readRule).toOption := by
  have parts : ∀ {segments segments' : List (List Char)} {seen}, segments.Perm segments' →
      readParts [] segments = .ok seen → ∃ seen', readParts [] segments' = .ok seen' ∧ seen.Perm seen' ∧
        (seen.map Prod.fst).Nodup := by
    intro segments segments' seen perm read
    have start : (([] : Parts).map Prod.fst).Nodup := List.nodup_nil
    obtain ⟨each,rfl,distinct⟩ := (readPartsIff start).mp read
    have same : ([] ++ segments.filterMap partOf).Perm ([] ++ segments'.filterMap partOf) := perm.filterMap partOf
    exact ⟨_,(readPartsIff start).mpr ⟨fun s mem => each s (perm.mem_iff.mpr mem),rfl,
      (same.map Prod.fst).nodup_iff.mp distinct⟩,same,distinct⟩
  cases read : readParts [] segments with
  | ok seen =>
    obtain ⟨seen',read',same,distinct⟩ := parts perm read
    rw [read']
    exact readRuleAlike (fun name => (same.map Prod.fst).mem_iff) (lookupPermuted same distinct)
  | error e =>
    cases read' : readParts [] segments' with
    | ok seen' =>
      obtain ⟨seen,again,-⟩ := parts perm.symm read'
      cases read.symm.trans again
    | error e' => rfl

def letter (c : Char) : Bool := c.isAlpha || c = '-'

theorem propertyMatchSource {body name rest : List Char} (found : propertyMatch body = some (name,rest)) :
    body.takeWhile letter = name ∧ body = name ++ ':' :: rest := by
  have whole := List.takeWhile_append_dropWhile (p := letter) (l := body)
  unfold propertyMatch at found
  simp only at found
  split at found
  · rename_i c before after named following
    change body.takeWhile letter = _ at named
    change body.dropWhile letter = _ at following
    cases found
    exact ⟨named,by rw [named,following] at whole; exact whole.symm⟩
  · cases found

def beforeColon : List Char → List Char → List Char
  | c :: name, ':' :: _ => c :: name ++ [':']
  | _, _ => []

theorem propertyBefore {cs : List Char} : propertyOf cs = beforeColon (cs.takeWhile letter) (cs.dropWhile letter) := by
  have same : (fun c : Char => c.isAlpha || decide (c = '-')) = letter := rfl
  simp only [propertyOf,propertyMatch,same]
  cases cs.takeWhile letter with
  | nil => rfl
  | cons c name =>
    cases cs.dropWhile letter with
    | nil => rfl
    | cons d rest =>
      by_cases colon : d = ':'
      · rw [colon]
        rfl
      · simp [beforeColon,colon]

theorem outcomeParts (text : String) : (parseProps text).toOption =
    if propertyOf (Text.trimChars text.toList) = [] ∨
        toUpperCase (propertyOf (Text.trimChars text.toList)) = "RRULE:" then
      (readParts [] (segmentsOf text) >>= readRule).toOption
    else none := by
  have colon : ∀ name, toUpperCase (name ++ [':']) = toUpperCase name ++ ":" := by
    intro name
    simp only [toUpperCase,List.flatMap_append,List.flatMap_cons,List.flatMap_nil,List.append_nil,
      show upperChar ':' = [':'] by decide,String.ofList_append]
  rw [parsePropsWritten,written,segmentsOf]
  generalize read : Text.trimChars text.toList = body
  simp only [bodyOf,read]
  by_cases empty : body = []
  · subst empty
    rfl
  rw [if_neg empty]
  cases found : propertyMatch body with
  | none =>
    simp only [propertyOf,found,true_or,if_true,List.length_nil,List.drop_zero]
    rfl
  | some both =>
    obtain ⟨name,rest⟩ := both
    obtain ⟨-,is⟩ := propertyMatchSource found
    have after : body.drop (name ++ [':']).length = rest := by
      rw [is,← List.singleton_append (l := rest),← List.append_assoc,List.drop_left]
    have named : (name ++ [':'] = [] ∨ toUpperCase (name ++ [':']) = "RRULE:") ↔ toUpperCase name = "RRULE" := by
      rw [colon,or_iff_right (by simp),show "RRULE:" = "RRULE" ++ ":" from rfl]
      exact String.append_left_inj ":"
    simp only [propertyOf,found,after,named]
    by_cases rule : toUpperCase name = "RRULE"
    · rw [if_pos rule]
      simp only [rule]
      rfl
    · rw [if_neg rule]
      split
      · rfl
      · rfl

theorem outcomeAlike {text text' : String}
    (property : propertyOf (Text.trimChars text.toList) = propertyOf (Text.trimChars text'.toList))
    (perm : (segmentsOf text).Perm (segmentsOf text')) : outcome text = outcome text' := by
  refine outcomeProps ?_
  rw [outcomeParts,outcomeParts,property,readPermuted perm]

theorem outcomePrefixed {text : String} (unnamed : propertyOf (Text.trimChars text.toList) = [])
    (start : ∀ c, text.toList.head? = some c → Text.isSpace c = false) :
    outcome ("RRULE:" ++ text) = outcome text := by
  have trimmed : Text.trimChars ("RRULE:" ++ text).toList = "RRULE:".toList ++ Text.trimChars text.toList := by
    have from_ : text.toList.dropWhile Text.isSpace = text.toList := by
      cases is : text.toList with
      | nil => rfl
      | cons c rest => simp [start c (by simp [is])]
    simp only [Text.trimChars,String.toList_append,from_]
    rw [show ("RRULE:".toList ++ text.toList).dropWhile Text.isSpace = "RRULE:".toList ++ text.toList from rfl,
      List.reverse_append,List.dropWhile_append]
    split
    · rename_i empty
      rw [List.isEmpty_iff.mp empty]
      rfl
    · rw [List.reverse_append,List.reverse_reverse]
  have property : propertyOf ("RRULE:".toList ++ Text.trimChars text.toList) = "RRULE:".toList := rfl
  refine outcomeProps ?_
  have segments : segmentsOf ("RRULE:" ++ text) = segmentsOf text := by
    simp only [segmentsOf,trimmed,property,unnamed]
    rfl
  rw [outcomeParts,outcomeParts,trimmed,property,unnamed,segments]
  simp only [true_or,if_true]
  exact if_pos (.inr (by decide))

theorem segmentSource {cs segment : List Char} (mem : segment ∈ cs.splitOn ';') : ∀ c ∈ segment, c ∈ cs := by
  induction cs generalizing segment with
  | nil =>
    rw [List.splitOn_nil,List.mem_singleton] at mem
    simp [mem]
  | cons d rest ih =>
    rw [List.splitOn_cons_eq_if_modifyHead] at mem
    split at mem
    · rcases List.mem_cons.mp mem with rfl | later
      · simp
      · exact fun c there => List.mem_cons_of_mem d (ih later c there)
    · cases split_ : rest.splitOn ';' with
      | nil => exact absurd split_ (List.splitOn_ne_nil ';' rest)
      | cons first others =>
        rw [split_] at mem ih
        rcases List.mem_cons.mp mem with rfl | later
        · exact fun c there => (List.mem_cons.mp there).elim (fun is => is ▸ List.mem_cons_self)
            (fun tail => List.mem_cons_of_mem d (ih List.mem_cons_self c tail))
        · exact fun c there => List.mem_cons_of_mem d (ih (List.mem_cons_of_mem first later) c there)

def ascii (text : String) : Prop := ∀ c ∈ text.toList, c.toNat < 128
instance (text : String) : Decidable (ascii text) := List.decidableBAll _ _

theorem asciiUpper : ∀ n < 128, Text.isSpace (Char.ofNat n).toUpper = Text.isSpace (Char.ofNat n) ∧
    letter (Char.ofNat n).toUpper = letter (Char.ofNat n) ∧
    upperChar (Char.ofNat n).toUpper = upperChar (Char.ofNat n) ∧
    ((Char.ofNat n).toUpper = ';' ↔ Char.ofNat n = ';') ∧ ((Char.ofNat n).toUpper = '=' ↔ Char.ofNat n = '=') ∧
    ((Char.ofNat n).toUpper = ':' ↔ Char.ofNat n = ':') := by
  decide +kernel

structure UpperAlike (c : Char) : Prop where
  space : Text.isSpace c.toUpper = Text.isSpace c
  letter : letter c.toUpper = letter c
  upper : upperChar c.toUpper = upperChar c
  semicolon : c.toUpper = ';' ↔ c = ';'
  equals : c.toUpper = '=' ↔ c = '='
  colon : c.toUpper = ':' ↔ c = ':'

theorem upperAlike {c : Char} (small : c.toNat < 128) : UpperAlike c := by
  have := asciiUpper c.toNat small
  rw [Char.ofNat_toNat] at this
  exact ⟨this.1,this.2.1,this.2.2.1,this.2.2.2.1,this.2.2.2.2.1,this.2.2.2.2.2⟩

section
variable {cs : List Char} (alike : ∀ c ∈ cs, UpperAlike c)
include alike

theorem whileUpper {p : Char → Bool} (same : ∀ c, UpperAlike c → p c.toUpper = p c) :
    (cs.map Char.toUpper).takeWhile p = (cs.takeWhile p).map Char.toUpper ∧
      (cs.map Char.toUpper).dropWhile p = (cs.dropWhile p).map Char.toUpper := by
  induction cs with
  | nil => exact ⟨rfl,rfl⟩
  | cons c rest ih =>
    have head := same c (alike c List.mem_cons_self)
    obtain ⟨take,drop⟩ := ih (fun d mem => alike d (List.mem_cons_of_mem c mem))
    simp only [List.map_cons,List.takeWhile_cons,List.dropWhile_cons,head]
    by_cases passes : p c = true
    · simp only [passes,if_true,take,drop,List.map_cons,and_self]
    · simp only [passes,Bool.false_eq_true,if_false,List.map_nil,List.map_cons,and_self]

theorem trimUpper : Text.trimChars (cs.map Char.toUpper) = (Text.trimChars cs).map Char.toUpper := by
  have spaces : ∀ c, UpperAlike c → Text.isSpace c.toUpper = Text.isSpace c := fun _ alike => alike.space
  have back : ∀ c ∈ (cs.dropWhile Text.isSpace).reverse, UpperAlike c := fun c mem =>
    alike c ((List.dropWhile_sublist _).mem (List.mem_reverse.mp mem))
  rw [Text.trimChars,(whileUpper alike spaces).2,← List.map_reverse,(whileUpper back spaces).2,← List.map_reverse]
  rfl

theorem upperUpper : toUpperCase (cs.map Char.toUpper) = toUpperCase cs := by
  rw [toUpperCase,toUpperCase,List.flatMap_map]
  exact congrArg String.ofList (List.flatMap_congr (fun c mem => (alike c mem).upper))

theorem splitUpper : (cs.map Char.toUpper).splitOn ';' = (cs.splitOn ';').map (List.map Char.toUpper) := by
  induction cs with
  | nil => rfl
  | cons c rest ih =>
    have head := (alike c List.mem_cons_self).semicolon
    have tail := ih (fun d mem => alike d (List.mem_cons_of_mem c mem))
    rw [List.map_cons,List.splitOn_cons_eq_if_modifyHead,List.splitOn_cons_eq_if_modifyHead,tail]
    by_cases semicolon : c = ';'
    · simp [semicolon]
    · rw [if_neg (by simpa using fun is => semicolon (head.mp is)),if_neg (by simpa using semicolon)]
      cases rest.splitOn ';' <;> rfl

theorem partUpper : partOf (cs.map Char.toUpper) = partOf cs := by
  obtain ⟨before,-⟩ := whileUpper alike (p := (· ≠ '=')) (fun c alike => by simp [alike.equals])
  have name : ∀ c ∈ cs.takeWhile (· ≠ '='), UpperAlike c := fun c mem => alike c ((List.takeWhile_sublist _).mem mem)
  have value : ∀ c ∈ cs.drop ((cs.takeWhile (· ≠ '=')).length + 1), UpperAlike c :=
    fun c mem => alike c (List.mem_of_mem_drop mem)
  have whole : (cs.takeWhile (· ≠ '=')).map Char.toUpper = cs.map Char.toUpper ↔ cs.takeWhile (· ≠ '=') = cs := by
    refine ⟨fun same => ?_,congrArg _⟩
    exact (List.takeWhile_prefix _).eq_of_length (by simpa using congrArg List.length same)
  simp only [partOf,before,List.length_map,← List.map_drop,upperUpper name,upperUpper value,List.map_eq_nil_iff,whole]

theorem propertyUpper : propertyOf (cs.map Char.toUpper) = (propertyOf cs).map Char.toUpper := by
  obtain ⟨name,rest⟩ := whileUpper alike (p := letter) (fun c alike => alike.letter)
  have inside : ∀ c ∈ cs.dropWhile letter, UpperAlike c := fun c mem => alike c ((List.dropWhile_sublist _).mem mem)
  rw [propertyBefore,propertyBefore,name,rest]
  cases cs.takeWhile letter with
  | nil => rfl
  | cons c before =>
    cases following : cs.dropWhile letter with
    | nil => rfl
    | cons d after =>
      have colon := (inside d (following ▸ List.mem_cons_self)).colon
      by_cases is : d = ':'
      · subst is
        simp [beforeColon]
      · have is' : d.toUpper ≠ ':' := fun same => is (colon.mp same)
        simp [beforeColon,is,is']

end

theorem outcomeUpper {text : String} (small : ascii text) :
    outcome (String.ofList (text.toList.map Char.toUpper)) = outcome text := by
  have alike : ∀ c ∈ text.toList, UpperAlike c := fun c mem => upperAlike (small c mem)
  have body : ∀ c ∈ Text.trimChars text.toList, UpperAlike c := fun c mem => by
    rw [Text.trimChars,List.mem_reverse] at mem
    exact alike c ((List.dropWhile_sublist _).mem (List.mem_reverse.mp ((List.dropWhile_sublist _).mem mem)))
  have property : ∀ c ∈ propertyOf (Text.trimChars text.toList), UpperAlike c := by
    intro c mem
    unfold propertyOf at mem
    split at mem
    · cases mem
    · rename_i name rest found
      obtain ⟨-,is⟩ := propertyMatchSource found
      refine body c (is ▸ ?_)
      rw [← List.singleton_append (l := rest),← List.append_assoc]
      exact List.mem_append_left _ mem
  have segments : segmentsOf (String.ofList (text.toList.map Char.toUpper)) =
      (segmentsOf text).map (List.map Char.toUpper) := by
    simp only [segmentsOf,String.toList_ofList,trimUpper alike,propertyUpper body,List.length_map,← List.map_drop]
    exact splitUpper (fun c mem => body c (List.mem_of_mem_drop mem))
  have inside : ∀ segment ∈ segmentsOf text, partOf (segment.map Char.toUpper) = partOf segment := by
    intro segment mem
    exact partUpper (fun c there => body c (List.mem_of_mem_drop (segmentSource mem c there)))
  have parts : ∀ out, readParts [] ((segmentsOf text).map (List.map Char.toUpper)) = .ok out ↔
      readParts [] (segmentsOf text) = .ok out := by
    intro out
    have start : (([] : Parts).map Prod.fst).Nodup := List.nodup_nil
    rw [readPartsIff start,readPartsIff start,List.filterMap_map]
    have same : (segmentsOf text).filterMap (partOf ∘ List.map Char.toUpper) = (segmentsOf text).filterMap partOf :=
      List.filterMap_congr inside
    rw [same]
    refine and_congr_left (fun _ => ?_)
    rw [List.forall_mem_map]
    exact forall₂_congr (fun segment mem => by rw [inside segment mem])
  refine outcomeProps ?_
  rw [outcomeParts,outcomeParts,segments]
  simp only [String.toList_ofList,trimUpper alike,propertyUpper body,upperUpper property,List.map_eq_nil_iff]
  refine if_congr Iff.rfl ?_ rfl
  cases read : readParts [] (segmentsOf text) with
  | ok out => rw [(parts out).mpr read]
  | error e =>
    cases read' : readParts [] ((segmentsOf text).map (List.map Char.toUpper)) with
    | ok out => cases read.symm.trans ((parts out).mp read')
    | error e' => rfl

theorem parsedInSubset {text : String} {rule : RecurrenceRule} (read : parse text = .ok rule) : InSubset rule := by
  have checked := rule.parsed
  refine ⟨checked.interval,checked.count,checked.single,?_,?_,?_,checked.weekly,checked.monthDay,checked.month,?_⟩
  · intro freq day mem
    cases there : day.ordinal with
    | none => rfl
    | some n =>
      obtain ⟨-,-,daily,weekly,-⟩ := checked.ordinal day mem n there
      exact absurd freq (not_or.mpr ⟨daily,weekly⟩)
  · intro day mem n there
    obtain ⟨nonzero,inYear,-⟩ := checked.ordinal day mem n there
    exact ⟨nonzero,inYear⟩
  · intro freq day mem n there
    obtain ⟨-,-,-,-,inMonth⟩ := checked.ordinal day mem n there
    exact inMonth freq
  · intro moment there
    have valid := (parseExact read).moment moment there
    cases moment with
    | date date => exact UntilDate.written valid
    | reading reading => exact ⟨valid.1.written,valid.2⟩
    | utc instant =>
      obtain ⟨reading,date,clock,utc⟩ := valid
      exact ⟨reading,date.written,clock,utc⟩

/-- A rule is read the same from its parts in any order, in letters of any case, and with the
property's name in front, as long as no white space is moved off the ends; and it is of the subset. -/
theorem formsAlike (text : String) :
    (∀ text', propertyOf (Text.trimChars text'.toList) = propertyOf (Text.trimChars text.toList) →
      (segmentsOf text').Perm (segmentsOf text) → outcome text' = outcome text) ∧
    (∀ text', ascii text → ascii text' → text'.toList.map Char.toUpper = text.toList.map Char.toUpper →
      outcome text' = outcome text) ∧
    (propertyOf (Text.trimChars text.toList) = [] → (∀ c, text.toList.head? = some c → Text.isSpace c = false) →
      outcome ("RRULE:" ++ text) = outcome text) ∧
    ∀ rule, parse text = .ok rule → InSubset rule := by
  refine ⟨fun text' => outcomeAlike,fun text' small small' same => ?_,outcomePrefixed,fun rule => parsedInSubset⟩
  rw [← outcomeUpper small',same,outcomeUpper small]

theorem weeklyFormsAlike : outcome " byday=mo;Freq=weekly" = outcome "FREQ=WEEKLY;BYDAY=MO" ∧
    outcome "RRULE:FREQ=WEEKLY;BYDAY=MO" = outcome "FREQ=WEEKLY;BYDAY=MO" ∧ outcome "FREQ=WEEKLY;BYDAY=MO" ≠ none := by
  obtain ⟨permuted,-,prefixed,-⟩ := formsAlike "FREQ=WEEKLY;BYDAY=MO"
  obtain ⟨-,cased,-⟩ := formsAlike " BYDAY=MO;FREQ=WEEKLY"
  have first : "FREQ=WEEKLY;BYDAY=MO".toList.head? = some 'F' := by decide +kernel
  refine ⟨?_,prefixed (by decide +kernel) (fun c is => ?_),by decide +kernel⟩
  swap
  · cases first.symm.trans is
    decide +kernel
  refine (cased " byday=mo;Freq=weekly" (by decide +kernel) (by decide +kernel) (by decide +kernel)).trans ?_
  exact permuted _ (by decide +kernel) (by decide +kernel)

/- The blank after a semicolon is no part of a name, but is trimmed off in front. -/
theorem blankMoves : ¬ ∀ text : String, ascii text →
    (∀ text', (text'.toList.splitOn ';').Perm (text.toList.splitOn ';') → outcome text' = outcome text) ∧
    (propertyOf text.toList = [] → outcome ("RRULE:" ++ text) = outcome text) := by
  intro all
  obtain ⟨permuted,-⟩ := all "COUNT=3; FREQ=DAILY" (by decide +kernel)
  exact absurd (permuted " FREQ=DAILY;COUNT=3" (by decide +kernel)) (by decide +kernel)

end FamilyPlatform.RecurrenceRule
