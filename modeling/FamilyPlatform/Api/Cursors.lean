import FamilyPlatform.Kernel.IsoText
import FamilyPlatform.Lib.Base64url
import FamilyPlatform.Lib.Paging
import FamilyPlatform.Relay.Consumer
import FamilyPlatform.Tasks.Queries

/-! The lists of tasks as the API gives them: a page, and the cursor to the next one as a text. A cursor that was given
is read back as the position it stands for. -/
namespace FamilyPlatform.Api
open ZonedTime Tasks
open Relay (Json)

def quoteMark : Char := .ofNat 34
def backslash : Char := .ofNat 92
def openBrace : Char := .ofNat 123
def closeBrace : Char := .ofNat 125

/- What `JSON.stringify` makes of a character. -/
def escaped (c : Char) : List Char :=
  if c = quoteMark ∨ c = backslash then [backslash,c]
  else match [(8, 'b'),(9, 't'),(10, 'n'),(12, 'f'),(13, 'r')].lookup c.toNat with
    | some letter => [backslash,letter]
    | none =>
      if c.toNat < 32 then [backslash,'u','0','0',Nat.digitChar (c.toNat / 16),Nat.digitChar (c.toNat % 16)] else [c]

def quoted (text : String) : List Char := quoteMark :: (text.toList.flatMap escaped ++ [quoteMark])

abbrev Field := String × Option String

def fieldText (field : Field) : List Char :=
  quoted field.1 ++ ':' :: match field.2 with
    | some text => quoted text
    | none => "null".toList

def fieldsText : List Field → List Char
  | [] => [closeBrace]
  | [field] => fieldText field ++ [closeBrace]
  | field :: rest => fieldText field ++ ',' :: fieldsText rest

def jsonText (fields : List Field) : String := String.ofList (openBrace :: fieldsText fields)

def fieldJson (field : Field) : String × Json :=
  (field.1, match field.2 with
    | some text => .text text
    | none => .null)

def PlainText (text : String) : Prop := ∀ c ∈ text.toList, 32 ≤ c.toNat ∧ c ≠ quoteMark ∧ c ≠ backslash

def Field.Plain (field : Field) : Prop := PlainText field.1 ∧ ∀ text, field.2 = some text → PlainText text

/- What is used of the platform: `Buffer.from(value, 'base64url')` as UTF-8, `JSON.parse` and `new Date` read what they
were written from; and the texts of identifiers. -/
structure Platform where
  bufferText : String → String
  parseJson : String → Option Json
  parseDate : String → Option Instant
  idText : TaskId → String
  asTaskId : String → TaskId
  buffered : ∀ text, bufferText (Base64url.encode text) = text
  parsed : ∀ fields : List Field, (∀ field ∈ fields, field.Plain) →
    parseJson (jsonText fields) = some (.object (fields.map fieldJson))
  dated : ∀ i, timeClip i = some i → parseDate (isoText i) = some i
  named : ∀ id, PlainText (idText id) ∧ asTaskId (idText id) = id

variable (p : Platform)

def encodeCursor (fields : List Field) : String := Base64url.encode (jsonText fields)

def openCursorText (cursor : OpenCursor) : String :=
  encodeCursor [("dueAt", cursor.dueAt.map isoText),("id", some (p.idText cursor.id))]

def closedCursorText (cursor : ClosedCursor) : String :=
  encodeCursor [("closedAt", some (isoText cursor.closedAt)),("id", some (p.idText cursor.id))]

/- An array is an object, too, without these fields. -/
def decodeCursor (value : String) : Option (List (String × Json)) :=
  match p.parseJson (p.bufferText value) with
  | some (.object fields) => some fields
  | some (.array _) => some []
  | _ => none

/- No result is the answer that the cursor is not one of this endpoint. -/
def decodeOpenCursor : Option String → Option (Option OpenCursor)
  | none => some none
  | some value => do
    let raw ← decodeCursor p value
    let dueAt ← match raw.lookup "dueAt" with
      | none | some .null => some none
      | some (.text text) => (p.parseDate text).map some
      | _ => none
    match raw.lookup "id" with
    | some (.text id) => some (some ⟨dueAt,p.asTaskId id⟩)
    | _ => none

def decodeClosedCursor : Option String → Option (Option ClosedCursor)
  | none => some none
  | some value => do
    let raw ← decodeCursor p value
    match raw.lookup "closedAt", raw.lookup "id" with
    | some (.text closedAt), some (.text id) => (p.parseDate closedAt).map (fun closedAt => some ⟨closedAt,p.asTaskId id⟩)
    | _, _ => none

inductive ListResponse where
  | page (items : List Task) (nextCursor : Option String)
  | badCursor
  | refused (e : DomainError)
  | failed (thrown : Thrown)
  deriving DecidableEq

def ListResponse.found : ListResponse → Option (Paging.Page Task String)
  | page items nextCursor => some ⟨items,nextCursor⟩
  | badCursor | refused _ | failed _ => none

structure OpenTasksQuery where
  assignee : Option FamilyMemberId
  overdue : Bool
  dueFrom : Option (Option Instant)
  dueTo : Option (Option Instant)
  limit : Option Int
  deriving DecidableEq, Repr

structure TaskHistoryQuery where
  start : Option Instant
  stop : Option Instant
  limit : Option Int
  deriving DecidableEq, Repr

def respond {C : Type} (cursorText : C → String) : Except Thrown (Result (TaskPage C)) → ListResponse
  | .ok (.ok found) => .page found.items (found.next.map cursorText)
  | .ok (.error e) => .refused e
  | .error thrown => .failed thrown

def listOpenTasksRoute (intl : Intl) (s : Store) (reader : Reader) (query : OpenTasksQuery) (cursor : Option String) :
    ListResponse :=
  match decodeOpenCursor p cursor with
  | none => .badCursor
  | some after => respond (openCursorText p) (listOpenTasks intl s reader
      ⟨query.assignee,if query.overdue then some reader.now else none,query.dueFrom,query.dueTo,after,query.limit⟩)

def listTaskHistoryRoute (s : Store) (reader : Reader) (query : TaskHistoryQuery) (cursor : Option String) :
    ListResponse :=
  match decodeClosedCursor p cursor with
  | none => .badCursor
  | some after => respond (closedCursorText p) (listTaskHistory s reader ⟨query.start,query.stop,after,query.limit⟩)

section
variable {p : Platform}

theorem plainAppend {a b : String} (left : PlainText a) (right : PlainText b) : PlainText (a ++ b) := by
  intro c mem
  rw [String.toList_append,List.mem_append] at mem
  exact mem.elim (left c) (right c)

theorem plainChar {c : Char} (is : RecurrenceRule.plain c = true) : 32 ≤ c.toNat ∧ c ≠ quoteMark ∧ c ≠ backslash := by
  have number : 44 ≤ c.toNat ∧ c.toNat ≤ 90 := by
    simp only [RecurrenceRule.plain,Bool.or_eq_true,decide_eq_true_eq] at is
    rcases is with ((digit | upper) | rfl) | rfl
    · simp only [RecurrenceRule.isDigit,Bool.and_eq_true,decide_eq_true_eq,Char.le_def,UInt32.le_iff_toNat_le] at digit
      have low : (48 : Nat) ≤ c.toNat := digit.1
      have high : c.toNat ≤ 57 := digit.2
      omega
    · simp only [RecurrenceRule.isUpper,Bool.and_eq_true,decide_eq_true_eq,Char.le_def,UInt32.le_iff_toNat_le] at upper
      have low : (65 : Nat) ≤ c.toNat := upper.1
      have high : c.toNat ≤ 90 := upper.2
      omega
    · decide
    · decide
  refine ⟨by omega,?_,?_⟩
  · rintro rfl
    exact absurd number.1 (by decide)
  · rintro rfl
    exact absurd number.2 (by decide)

theorem plainPadded (n : Int) (width : Nat) : PlainText (RecurrenceRule.padded n width) := by
  intro c mem
  rw [RecurrenceRule.padded,String.toList_append,String.toList_ofList,List.mem_append] at mem
  rcases mem with zero | digit
  · rw [List.eq_of_mem_replicate zero]
    decide
  · exact plainChar (RecurrenceRule.signedPlain n c digit).1

instance (text : String) : Decidable (PlainText text) := List.decidableBAll _ _

theorem plainIso (i : Instant) : PlainText (isoText i) := by
  have year : PlainText (yearText (readingOf (i / 1000)).year) := by
    unfold yearText
    split
    · exact plainPadded _ 4
    · refine plainAppend ?_ (plainPadded _ 6)
      split <;> decide
  unfold isoText
  simp only
  have dash : PlainText "-" := by decide
  have at_ : PlainText "T" := by decide
  have colon : PlainText ":" := by decide
  have dot : PlainText "." := by decide
  have zulu : PlainText "Z" := by decide
  refine plainAppend (plainAppend (plainAppend (plainAppend (plainAppend (plainAppend (plainAppend (plainAppend (plainAppend
    (plainAppend (plainAppend (plainAppend (plainAppend year dash) ?_) dash) ?_) at_) ?_) colon) ?_) colon) ?_) dot) ?_) zulu
  all_goals exact plainPadded _ _

theorem decodeEncoded {fields : List Field} (plain : ∀ field ∈ fields, field.Plain) :
    decodeCursor p (encodeCursor fields) = some (fields.map fieldJson) := by
  rw [decodeCursor,encodeCursor,p.buffered,p.parsed fields plain]

theorem decodeOpen {cursor : OpenCursor} (date : ∀ i, cursor.dueAt = some i → timeClip i = some i) :
    decodeOpenCursor p (some (openCursorText p cursor)) = some (some cursor) := by
  obtain ⟨dueAt,id⟩ := cursor
  have names : PlainText "dueAt" ∧ PlainText "id" := ⟨by decide,by decide⟩
  obtain ⟨plainId,again⟩ := p.named id
  have fields := @decodeEncoded p [("dueAt", dueAt.map isoText),("id", some (p.idText id))] (by
    intro field mem
    simp only [List.mem_cons,List.not_mem_nil,or_false] at mem
    rcases mem with rfl | rfl
    · refine ⟨names.1,fun text is => ?_⟩
      obtain ⟨i,-,rfl⟩ := Option.map_eq_some_iff.mp is
      exact plainIso i
    · exact ⟨names.2,fun text is => Option.some.inj is ▸ plainId⟩)
  simp only [decodeOpenCursor,openCursorText,fields]
  cases dueAt with
  | none => simp [fieldJson,again,List.lookup_cons]
  | some i => simp [fieldJson,again,List.lookup_cons,p.dated i (date i rfl)]

theorem decodeClosed {cursor : ClosedCursor} (date : timeClip cursor.closedAt = some cursor.closedAt) :
    decodeClosedCursor p (some (closedCursorText p cursor)) = some (some cursor) := by
  obtain ⟨closedAt,id⟩ := cursor
  obtain ⟨plainId,again⟩ := p.named id
  have fields := @decodeEncoded p [("closedAt", some (isoText closedAt)),("id", some (p.idText id))] (by
    intro field mem
    simp only [List.mem_cons,List.not_mem_nil,or_false] at mem
    rcases mem with rfl | rfl
    · exact ⟨show PlainText "closedAt" by decide,fun text is => Option.some.inj is ▸ plainIso closedAt⟩
    · exact ⟨show PlainText "id" by decide,fun text is => Option.some.inj is ▸ plainId⟩)
  simp only [decodeClosedCursor,closedCursorText,fields]
  simp [fieldJson,again,List.lookup_cons,p.dated closedAt date]

end

def readText (cs : List Char) : Option (String × List Char) :=
  let body := cs.takeWhile (· ≠ quoteMark)
  if backslash ∈ body then none
  else (readChar quoteMark (cs.drop body.length)).map (fun rest => (String.ofList body, rest))

def readValue (cs : List Char) : Option (Json × List Char) :=
  if cs.take 4 = "null".toList then some (.null, cs.drop 4)
  else do
    let rest ← readChar quoteMark cs
    let (text, rest) ← readText rest
    return (.text text, rest)

def readField (cs : List Char) : Option ((String × Json) × List Char) := do
  let rest ← readChar quoteMark cs
  let (name, rest) ← readText rest
  let rest ← readChar ':' rest
  let (value, rest) ← readValue rest
  return ((name, value), rest)

def readFields : Nat → List Char → Option (List (String × Json))
  | 0, _ => none
  | fuel + 1, cs => do
    let (field, rest) ← readField cs
    match rest with
    | ',' :: more => (readFields fuel more).map (field :: ·)
    | _ => if rest = [closeBrace] then some [field] else none

def readObject (text : String) : Option Json := do
  let cs ← readChar openBrace text.toList
  if cs = [closeBrace] then some (.object []) else (readFields cs.length cs).map Json.object

section
variable {text : String} {rest : List Char} {field : Field}

theorem quotedPlain (plain : PlainText text) : quoted text = quoteMark :: (text.toList ++ [quoteMark]) := by
  have each : ∀ c ∈ text.toList, escaped c = [c] := by
    intro c mem
    obtain ⟨low,apart⟩ := plain c mem
    unfold escaped
    rw [if_neg (not_or.mpr apart)]
    cases found : [(8, 'b'),(9, 't'),(10, 'n'),(12, 'f'),(13, 'r')].lookup c.toNat with
    | none => exact if_neg (Nat.not_lt.mpr low)
    | some letter =>
      simp only [List.lookup_cons,List.lookup_nil,beq_eq_decide] at found
      rw [decide_eq_false (by omega),decide_eq_false (by omega),decide_eq_false (by omega),decide_eq_false (by omega),
        decide_eq_false (by omega)] at found
      cases found
  have same : text.toList.flatMap escaped = text.toList := by
    rw [List.flatMap_congr each]
    exact List.flatMap_singleton' _
  rw [quoted,same]

theorem readPlain (plain : PlainText text) : readText (text.toList ++ quoteMark :: rest) = some (text,rest) := by
  have body : (text.toList ++ quoteMark :: rest).takeWhile (· ≠ quoteMark) = text.toList := by
    rw [List.takeWhile_append_of_pos (fun c mem => by simpa using (plain c mem).2.1),
      List.takeWhile_cons_of_neg (by simp),List.append_nil]
  have free : backslash ∉ text.toList := fun mem => (plain _ mem).2.2 rfl
  simp only [readText,body]
  rw [if_neg free,List.drop_left' rfl,readOwn,Option.map_some,String.ofList_toList]

theorem readFieldPlain (plain : field.Plain) : readField (fieldText field ++ rest) = some (fieldJson field,rest) := by
  obtain ⟨name,value⟩ := field
  have named := plain.1
  simp only at named
  rw [fieldText,quotedPlain named]
  simp only [readField,List.cons_append,List.append_assoc,List.nil_append,readOwn,bind,Option.bind_some,readPlain named]
  cases value with
  | none => rfl
  | some text =>
    have valued := plain.2 text rfl
    have value : readValue (quoteMark :: (text.toList ++ quoteMark :: rest)) = some (.text text,rest) := by
      have mark : ¬ (quoteMark :: (text.toList ++ quoteMark :: rest)).take 4 = "null".toList := by
        intro same
        exact absurd (List.cons.inj same).1 (by decide)
      rw [readValue,if_neg mark]
      simp only [readOwn,bind,Option.bind_some,readPlain valued,pure]
    simp only [quotedPlain valued,List.cons_append,List.append_assoc,List.nil_append,value,Option.bind_some,pure,fieldJson]

theorem readFieldsPlain {fields : List Field} (plain : ∀ field ∈ fields, field.Plain) (some_ : fields ≠ []) {fuel : Nat}
    (enough : fields.length ≤ fuel) : readFields fuel (fieldsText fields) = some (fields.map fieldJson) := by
  induction fields generalizing fuel with
  | nil => exact absurd rfl some_
  | cons field more ih =>
    obtain ⟨fuel,rfl⟩ : ∃ n, fuel = n + 1 := ⟨fuel - 1,by simp only [List.length_cons] at enough; omega⟩
    have first := plain field List.mem_cons_self
    cases more with
    | nil =>
      simp only [readFields,fieldsText,readFieldPlain first,bind,Option.bind_some]
      rfl
    | cons next rest =>
      have later := ih (fun f mem => plain f (List.mem_cons_of_mem field mem)) (List.cons_ne_nil _ _)
        (Nat.le_of_succ_le_succ enough)
      simp only [readFields,fieldsText,readFieldPlain first,bind,Option.bind_some,later,Option.map_some,List.map_cons]

theorem fieldsLonger (fields : List Field) : fields.length ≤ (fieldsText fields).length := by
  induction fields with
  | nil => exact Nat.zero_le _
  | cons field more ih =>
    cases more with
    | nil => simp [fieldsText]
    | cons next rest =>
      simp only [fieldsText,List.length_append,List.length_cons] at ih ⊢
      omega

theorem readObjectPlain {fields : List Field} (plain : ∀ field ∈ fields, field.Plain) :
    readObject (jsonText fields) = some (.object (fields.map fieldJson)) := by
  simp only [readObject,jsonText,String.toList_ofList,readOwn,bind,Option.bind_some]
  cases fields with
  | nil => rfl
  | cons field rest =>
    obtain ⟨tail,starts⟩ : ∃ tail, fieldsText (field :: rest) = quoteMark :: tail := by cases rest <;> exact ⟨_,rfl⟩
    have apart : fieldsText (field :: rest) ≠ [closeBrace] := by
      rw [starts]
      intro same
      exact absurd (List.cons.inj same).1 (by decide)
    rw [if_neg apart,readFieldsPlain plain (List.cons_ne_nil _ _) (fieldsLonger _),Option.map_some]

def platform : Platform where
  bufferText text := (Base64url.decode text).getD ""
  parseJson := readObject
  parseDate := readIso
  idText id := Nat.repr id
  asTaskId text := Nat.ofDigitChars 10 text.toList 0
  buffered text := by rw [Base64url.decodeText,Option.getD_some]
  parsed _ plain := readObjectPlain plain
  dated _ date := readIsoText date
  named id := by
    refine ⟨fun c mem => ?_,?_⟩
    · exact plainChar (RecurrenceRule.digitPlain (RecurrenceRule.natDigits id c mem))
    · rw [Nat.toList_repr,Nat.ofDigitChars_ten_toDigits]

end
end FamilyPlatform.Api
