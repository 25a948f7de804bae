import FamilyPlatform.Kernel.RuleText

/-! Instants as texts: what `toISOString` writes, and a reading of it. -/
namespace FamilyPlatform.ZonedTime
open Civil RecurrenceRule

def yearText (year : Int) : String :=
  if 0 ≤ year ∧ year ≤ 9999 then padded year 4
  else (if year < 0 then "-" else "+") ++ padded year.natAbs 6

def isoText (i : Instant) : String :=
  let reading := readingOf (i / 1000)
  yearText reading.year ++ "-" ++ padded reading.month 2 ++ "-" ++ padded reading.day 2 ++ "T" ++ padded reading.hour 2 ++
    ":" ++ padded reading.minute 2 ++ ":" ++ padded reading.second 2 ++ "." ++ padded (i % 1000) 3 ++ "Z"

def readDigits (width : Nat) (cs : List Char) : Option (Int × List Char) :=
  if (cs.take width).length = width ∧ (cs.take width).all isDigit then
    some (digitsValue (cs.take width), cs.drop width)
  else none

def readChar (c : Char) : List Char → Option (List Char)
  | d :: rest => if d = c then some rest else none
  | [] => none

def readYear (cs : List Char) : Option (Int × List Char) :=
  match cs with
  | '+' :: rest => readDigits 6 rest
  | '-' :: rest => (readDigits 6 rest).map (fun (n, rest) => (-n, rest))
  | _ => readDigits 4 cs

def readIso (text : String) : Option Instant := do
  let (year, cs) ← readYear text.toList
  let cs ← readChar '-' cs
  let (month, cs) ← readDigits 2 cs
  let cs ← readChar '-' cs
  let (day, cs) ← readDigits 2 cs
  let cs ← readChar 'T' cs
  let (hour, cs) ← readDigits 2 cs
  let cs ← readChar ':' cs
  let (minute, cs) ← readDigits 2 cs
  let cs ← readChar ':' cs
  let (second, cs) ← readDigits 2 cs
  let cs ← readChar '.' cs
  let (ms, cs) ← readDigits 3 cs
  let _ ← readChar 'Z' cs
  return secondOf (atTime ⟨year,month,day⟩ hour minute second) * 1000 + ms

section
variable {n : Int} {width : Nat} {rest : List Char} {i : Int}

theorem readPadded (low : 0 ≤ n) (high : n < 10 ^ width) (positive : 0 < width) :
    readDigits width ((padded n width).toList ++ rest) = some (n,rest) := by
  have reads := paddedReads low high positive
  unfold readDigits
  rw [List.take_left' reads.length,List.drop_left' reads.length,if_pos ⟨reads.length,reads.digits⟩,reads.value]

theorem readOwn {c : Char} : readChar c (c :: rest) = some rest := if_pos rfl

theorem readYearText (low : -1000000 < n) (high : n < 1000000) :
    readYear ((yearText n).toList ++ rest) = some (n,rest) := by
  unfold yearText
  split
  · rename_i near
    have reads := paddedReads near.1 (show n < 10 ^ 4 by omega) (by decide)
    have read := @readPadded n 4 rest near.1 (by omega) (by decide)
    -- The first of four digits is no sign.
    cases text : (padded n 4).toList with
    | nil => exact absurd (text ▸ reads.length) (by decide)
    | cons c more =>
      have digit : isDigit c = true := by
        have digits := reads.digits
        rw [text,List.all_cons,Bool.and_eq_true] at digits
        exact digits.1
      rw [text] at read
      unfold readYear
      split
      · rename_i same
        rw [List.cons_append] at same
        obtain ⟨rfl,-⟩ := List.cons.inj same
        cases digit
      · rename_i same
        rw [List.cons_append] at same
        obtain ⟨rfl,-⟩ := List.cons.inj same
        cases digit
      · exact read
  · rename_i far
    have read := @readPadded n.natAbs 6 rest (Int.natCast_nonneg _) (by omega) (by decide)
    split
    · rename_i negative
      have chars : ("-" ++ padded n.natAbs 6).toList ++ rest = '-' :: ((padded n.natAbs 6).toList ++ rest) := by
        rw [String.toList_append]
        rfl
      rw [chars]
      simp only [readYear,read,Option.map_some]
      rw [show -(n.natAbs : Int) = n by omega]
    · rename_i positive
      have chars : ("+" ++ padded n.natAbs 6).toList ++ rest = '+' :: ((padded n.natAbs 6).toList ++ rest) := by
        rw [String.toList_append]
        rfl
      rw [chars]
      simp only [readYear,read]
      rw [show (n.natAbs : Int) = n by omega]

theorem yearNear (low : -100000000 ≤ n) (high : n ≤ 100000000) :
    -1000000 < (dateOf n).year ∧ (dateOf n).year < 1000000 := by
  have bounds := yearOfBounds n
  have epoch : yearStart 1970 = 0 := by decide
  change -1000000 < yearOf n ∧ yearOf n < 1000000
  constructor
  · by_contra early
    have mono := yearStartMono (show yearOf n + 1 ≤ 1970 by omega)
    omega
  · by_contra late
    have mono := yearStartMono (show 1970 ≤ yearOf n by omega)
    omega

theorem readIsoText (date : timeClip i = some i) : readIso (isoText i) = some i := by
  obtain ⟨low,high⟩ : -8640000000000000 ≤ i ∧ i ≤ 8640000000000000 := by
    unfold timeClip at date
    split at date
    · assumption
    · cases date
  have seconds := secondOfReading (i / 1000)
  obtain ⟨-,clock⟩ := readingOfReal (i / 1000)
  obtain ⟨m1,m12,d1,dLast⟩ := (readingOfReal (i / 1000)).1
  have d31 := le_trans dLast (monthLengthBounds _ _).2
  have year := @yearNear (i / 1000 / 86400) (by omega) (by omega)
  have isYear : (readingOf (i / 1000)).year = (dateOf (i / 1000 / 86400)).year := rfl
  obtain ⟨h0,h23,min0,min59,s0,s59⟩ := clock
  unfold isoText readIso
  generalize readingOf (i / 1000) = reading at *
  have dash : "-".toList = ['-'] := rfl
  have at_ : "T".toList = ['T'] := rfl
  have colon : ":".toList = [':'] := rfl
  have dot : ".".toList = ['.'] := rfl
  have zulu : "Z".toList = ['Z'] := rfl
  simp only [String.toList_append,List.append_assoc,dash,at_,colon,dot,zulu,List.cons_append,List.nil_append]
  rw [readYearText (by omega) (by omega)]
  simp only [bind,Option.bind_some,readOwn]
  rw [readPadded (by omega) (by omega) (by decide)]
  simp only [Option.bind_some,readOwn]
  rw [readPadded (by omega) (by omega) (by decide)]
  simp only [Option.bind_some,readOwn]
  rw [readPadded (by omega) (by omega) (by decide)]
  simp only [Option.bind_some,readOwn]
  rw [readPadded (by omega) (by omega) (by decide)]
  simp only [Option.bind_some,readOwn]
  rw [readPadded (by omega) (by omega) (by decide)]
  simp only [Option.bind_some,readOwn]
  rw [readPadded (by omega) (by omega) (by decide)]
  simp only [Option.bind_some,readOwn,pure]
  change some (secondOf reading * 1000 + i % 1000) = some i
  rw [seconds]
  exact congrArg some (by omega)

end
end FamilyPlatform.ZonedTime
